import Mathlib.Algebra.GroupWithZero.Nat
import TieredCache.DurationText.Writer
import TieredCache.Proofs.Scanning

/-!
# Durations read back as they were written

A duration is written as parts, each a count of some unit, which add up to it. A part is scanned as
it was written, and no sum on the way is longer than the whole, so none is refused.
-/

namespace TieredCache.DurationText

/-- The length of a unit in nanoseconds. -/
def TimeUnit.length (u : TimeUnit) : Nat :=
  if u.inSeconds then u.size * Duration.second else u.size

/-- A name by which a unit is known. -/
def TimeUnit.Named (u : TimeUnit) (name : String) : Prop :=
  ∃ row ∈ units, row.2 = u ∧ name ∈ row.1

instance (u : TimeUnit) (name : String) : Decidable (u.Named name) :=
  inferInstanceAs (Decidable (∃ row ∈ units, row.2 = u ∧ name ∈ row.1))

/-- A part of a duration: a count of a unit under one of its names. -/
structure Part where
  count : Nat
  name : String
  unit : TimeUnit

namespace Part

def length (p : Part) : Nat := p.count * p.unit.length

def text (p : Part) : String := Decimal.naturalText p.count ++ p.name

/-- A part that can be read: it is within 64 bits in what its unit is measured in, and below a second
if that is nanoseconds. -/
structure Readable (p : Part) : Prop where
  named : p.unit.Named p.name
  size : p.count * p.unit.size < countBound
  subsecond : p.unit.inSeconds = false → p.count * p.unit.size < Duration.second

end Part

/-! ### One part -/

/-- Every name is made of letters that cannot belong to the number in front of it. -/
theorem letters_of_mem_units {row : List String × TimeUnit} (hrow : row ∈ units) {name : String}
    (hname : name ∈ row.1) : name.toList ≠ [] ∧
      ∀ c ∈ name.toList, isUnitLetter c = true ∧ isNumberPart c = false ∧ c ≠ '.' := by
  have hunits : ∀ row ∈ units, ∀ name ∈ row.1, name.toList ≠ [] ∧
      name.toList.all fun c => isUnitLetter c && !isNumberPart c && c != '.' := by decide
  obtain ⟨hne, hletters⟩ := hunits row hrow name hname
  refine ⟨hne, fun c hc => ?_⟩
  simpa [and_assoc] using List.all_eq_true.1 hletters c hc

/-- No name stands for two units. -/
theorem TimeUnit.Named.unit? {u : TimeUnit} {name : String} (h : u.Named name) :
    unit? name.toList = some u := by
  obtain ⟨row, hrow, rfl, hname⟩ := h
  have hunits : ∀ row ∈ units, ∀ name ∈ row.1, DurationText.unit? name.toList = some row.2 := by
    decide
  exact hunits row hrow name hname

theorem TimeUnit.Named.size_pos {u : TimeUnit} {name : String} (h : u.Named name) : 0 < u.size := by
  obtain ⟨row, hrow, rfl, -⟩ := h
  have hunits : ∀ row ∈ units, 0 < row.2.size := by decide
  exact hunits row hrow

/-- What may stand behind a part. -/
def Ends (rest : List Char) : Prop := ∀ c ∈ rest.head?, c = ' '

theorem Ends.scanUnit {name rest : List Char} (hrest : Ends rest)
    (hname : ∀ c ∈ name, isUnitLetter c = true) :
    scanUnit (name ++ rest) = .ok (name, rest) := by
  have hstop : ∀ c ∈ rest.head?, isUnitLetter c = false := by
    intro c hc
    rw [hrest c hc]
    rfl
  rw [DurationText.scanUnit, takeWhile_append_of_stop hname hstop,
    dropWhile_append_of_stop hname hstop]
  cases rest with
  | nil => rfl
  | cons c rest =>
    rw [hrest c rfl]
    rfl

namespace Part.Readable

variable {p : Part} (hp : p.Readable)
include hp

theorem name_cons : ∃ c letters, p.name.toList = c :: letters ∧
    (∀ d ∈ p.name.toList, isUnitLetter d = true) ∧ isNumberPart c = false ∧ c ≠ '.' := by
  obtain ⟨row, hrow, -, hname⟩ := hp.named
  obtain ⟨hne, hletters⟩ := letters_of_mem_units hrow hname
  obtain ⟨c, letters, hcons⟩ := List.exists_cons_of_ne_nil hne
  have hc := hletters c (by rw [hcons]; exact List.mem_cons_self)
  exact ⟨c, letters, hcons, fun d hd => (hletters d hd).1, hc.2.1, hc.2.2⟩

theorem count_lt : p.count < countBound :=
  Nat.lt_of_le_of_lt (Nat.le_mul_of_pos_right _ hp.named.size_pos) hp.size

theorem scanSpan {rest : List Char} (hrest : Ends rest) :
    scanSpan (p.text.toList ++ rest) = .ok (⟨p.count, none, p.name.toList⟩, rest) := by
  obtain ⟨c, letters, hcons, hletters, hnumber, hpoint⟩ := hp.name_cons
  have hdigits : ∀ d ∈ Nat.toDigits 10 p.count, isNumberPart d = true := by
    intro d hd
    simp [isNumberPart, Decimal.isDigit_of_mem_toDigits hd]
  have hstop : ∀ d ∈ (p.name.toList ++ rest).head?, isNumberPart d = false := by
    intro d hd
    rw [hcons] at hd
    obtain rfl : c = d := by simpa using hd
    exact hnumber
  have htext : p.text.toList ++ rest =
      Nat.toDigits 10 p.count ++ (p.name.toList ++ rest) := by
    rw [Part.text, Decimal.naturalText, String.toList_append, String.toList_ofList,
      List.append_assoc]
  have hcount : numberDigits (Nat.toDigits 10 p.count) = Nat.toDigits 10 p.count :=
    List.filter_eq_self.2 fun d hd => Decimal.isDigit_of_mem_toDigits hd
  have hfraction : scanFraction (p.name.toList ++ rest) = .ok (none, p.name.toList ++ rest) := by
    rw [hcons, List.cons_append, scanFraction]
    intro r hr
    exact hpoint (List.cons.inj hr).1
  rw [DurationText.scanSpan, htext, takeWhile_append_of_stop hdigits hstop,
    dropWhile_append_of_stop hdigits hstop, hcount, Nat.ofDigitChars_ten_toDigits]
  simp only [if_neg (Nat.not_le.2 hp.count_lt), hfraction, hrest.scanUnit hletters]

end Part.Readable

theorem extend_seconds {total n : Nat} (hn : n < countBound)
    (htotal : total + n * Duration.second ≤ Duration.longest) :
    extend total n true = .ok (total + n * Duration.second) := by
  have hsecond : total % Duration.second < Duration.second := Nat.mod_lt _ (by decide)
  have hbound : Duration.second ≤ countBound := by decide
  have hsum : (total / Duration.second + n) * Duration.second + total % Duration.second =
      total + n * Duration.second := by
    have := Nat.div_add_mod' total Duration.second
    rw [Nat.add_mul]
    omega
  simp only [extend, if_true, Nat.add_zero, hsum]
  rw [if_neg (by omega), if_pos htotal]

theorem extend_nanoseconds {total n : Nat} (hn : n < Duration.second)
    (htotal : total + n ≤ Duration.longest) : extend total n false = .ok (total + n) := by
  have hsecond : total % Duration.second < Duration.second := Nat.mod_lt _ (by decide)
  have hbound : 2 * Duration.second ≤ countBound := by decide
  have hsum : total / Duration.second * Duration.second + (total % Duration.second + n) =
      total + n := by
    have := Nat.div_add_mod' total Duration.second
    omega
  simp only [extend, Bool.false_eq_true, if_false, Nat.add_zero, hsum]
  rw [if_neg (by omega), if_pos htotal]

theorem Part.Readable.addSpan {p : Part} (hp : p.Readable) {total : Nat}
    (htotal : total + p.length ≤ Duration.longest) :
    addSpan total ⟨p.count, none, p.name.toList⟩ = .ok (total + p.length) := by
  have hextend : extend total (p.count * p.unit.size) p.unit.inSeconds =
      .ok (total + p.length) := by
    rw [Part.length, TimeUnit.length] at htotal ⊢
    cases hunit : p.unit.inSeconds with
    | true =>
      rw [hunit, if_pos rfl, ← Nat.mul_assoc] at htotal
      rw [extend_seconds hp.size htotal, if_pos rfl, Nat.mul_assoc]
    | false =>
      rw [hunit, if_neg Bool.false_ne_true] at htotal
      rw [extend_nanoseconds (hp.subsecond hunit) htotal, if_neg Bool.false_ne_true]
  simp only [DurationText.addSpan, hp.named.unit?, hextend]
  rfl

/-! ### All parts -/

/-- The length of several parts together. -/
def totalLength (ps : List Part) : Nat := (ps.map Part.length).sum

/-- The texts of several parts, each with a blank in front. -/
def tailText (ps : List Part) : List Char := ps.flatMap fun p => ' ' :: p.text.toList

theorem ends_tailText (ps : List Part) : Ends (tailText ps) := by
  intro c hc
  cases ps with
  | nil => exact absurd hc (by simp [tailText])
  | cons p ps => simpa [tailText, eq_comm] using hc

theorem readSpans_nil {s : List Char} (hs : s.dropWhile Text.isBlank = []) (total : Nat) :
    readSpans s total false = .ok total := by
  rw [readSpans]
  split
  · rfl
  · rename_i h
    rw [hs] at h
    contradiction

theorem readSpans_cons {s front after : List Char} {span : TimeSpan} {total sum : Nat} {c : Char}
    {needed : Bool} (hs : s.dropWhile Text.isBlank = c :: front) (hc : c.isDigit = true)
    (hspan : scanSpan (c :: front) = .ok (span, after)) (hsum : addSpan total span = .ok sum) :
    readSpans s total needed = readSpans after sum false := by
  rw [readSpans]
  split
  · rename_i h
    rw [hs] at h
    contradiction
  · rename_i d rest h
    obtain ⟨rfl, rfl⟩ : d = c ∧ rest = front := List.cons.inj (h.symm.trans hs)
    rw [dif_pos hc]
    split
    · rename_i f hf
      rw [hspan] at hf
      contradiction
    · rename_i span' after' hspan'
      obtain ⟨rfl, rfl⟩ : span' = span ∧ after' = after := by
        simpa using hspan'.symm.trans hspan
      simp only [hsum]

theorem isBlank_eq_false_of_isDigit {c : Char} (hc : c.isDigit = true) :
    Text.isBlank c = false := by
  rw [Char.isDigit, Bool.and_eq_true, decide_eq_true_eq, decide_eq_true_eq] at hc
  have hleast : 48 ≤ c.toNat := hc.1
  have hgreatest : c.toNat ≤ 57 := hc.2
  have hranges : ∀ r ∈ Text.blankRanges, r.2 < 48 ∨ 57 < r.1 := by decide
  rw [Text.isBlank, List.any_eq_false]
  intro r hr
  have := hranges r hr
  simp only [Bool.and_eq_true, decide_eq_true_eq]
  omega

theorem Part.Readable.readSpans {p : Part} (hp : p.Readable) {gap rest : List Char} {total : Nat}
    (needed : Bool) (hgap : ∀ c ∈ gap, Text.isBlank c = true) (hrest : Ends rest)
    (htotal : total + p.length ≤ Duration.longest) :
    readSpans (gap ++ (p.text.toList ++ rest)) total needed =
      readSpans rest (total + p.length) false := by
  obtain ⟨c, digits, hcons⟩ :=
    List.exists_cons_of_ne_nil (Nat.toDigits_ne_nil (n := p.count) (b := 10))
  have hc : c.isDigit = true :=
    Decimal.isDigit_of_mem_toDigits (by rw [hcons]; exact List.mem_cons_self)
  have htext : p.text.toList ++ rest = c :: (digits ++ (p.name.toList ++ rest)) := by
    rw [Part.text, Decimal.naturalText, String.toList_append, String.toList_ofList, hcons,
      List.append_assoc, List.cons_append]
  have hspan := hp.scanSpan hrest
  rw [htext] at hspan ⊢
  have hdrop : (gap ++ c :: (digits ++ (p.name.toList ++ rest))).dropWhile Text.isBlank =
      c :: (digits ++ (p.name.toList ++ rest)) :=
    dropWhile_append_of_stop hgap fun d hd => by
      obtain rfl : c = d := by simpa using hd
      exact isBlank_eq_false_of_isDigit hc
  exact readSpans_cons hdrop hc hspan (hp.addSpan htotal)

/-- Behind any parts that were read, the others add up. No sum is longer than the last one. -/
theorem readSpans_tailText {ps : List Part} (hps : ∀ p ∈ ps, p.Readable) {total : Nat}
    (htotal : total + totalLength ps ≤ Duration.longest) :
    readSpans (tailText ps) total false = .ok (total + totalLength ps) := by
  induction ps generalizing total with
  | nil => exact readSpans_nil rfl total
  | cons p ps ih =>
    have hlength : totalLength (p :: ps) = p.length + totalLength ps := List.sum_cons
    have htail : tailText (p :: ps) = [' '] ++ (p.text.toList ++ tailText ps) := rfl
    rw [hlength, ← Nat.add_assoc] at htotal ⊢
    rw [htail, (hps p List.mem_cons_self).readSpans false (List.forall_mem_singleton.2 rfl)
      (ends_tailText ps) (by omega)]
    exact ih (fun q hq => hps q (List.mem_cons_of_mem p hq)) htotal

theorem toList_intercalate_text (p : Part) (ps : List Part) :
    (String.intercalate " " ((p :: ps).map Part.text)).toList = p.text.toList ++ tailText ps := by
  rw [String.toList_intercalate]
  induction ps generalizing p with
  | nil => exact List.intercalate_singleton.trans (List.append_nil _).symm
  | cons q ps ih =>
    have htail : tailText (q :: ps) = [' '] ++ (q.text.toList ++ tailText ps) := rfl
    rw [htail, ← ih q, ← List.append_assoc]
    exact List.intercalate_cons_cons

/-! ### The parts of a duration -/

/-- A part, unless there is nothing to count. -/
def part (count : Nat) (name : String) (unit : TimeUnit) : List Part :=
  if count = 0 then [] else [⟨count, name, unit⟩]

/-- A part whose unit is a word. -/
def wordPart (count : Nat) (name : String) (unit : TimeUnit) : List Part :=
  part count (if 1 < count then name ++ "s" else name) unit

/-- The nonzero parts of a duration with their units. -/
def partsOf (d : Nat) : List Part :=
  let seconds := d / Duration.second
  let nanoseconds := d % Duration.second
  let inYear := seconds % yearSeconds
  let inMonth := inYear % monthSeconds
  let inDay := inMonth % 86400
  wordPart (seconds / yearSeconds) "year" (.ofSeconds yearSeconds) ++
    wordPart (inYear / monthSeconds) "month" (.ofSeconds monthSeconds) ++
    wordPart (inMonth / 86400) "day" (.ofSeconds 86400) ++
    part (inDay / 3600) "h" (.ofSeconds 3600) ++
    part (inDay % 3600 / 60) "m" ⟨60, true, some (60 * Duration.second, false)⟩ ++
    part (inDay % 60) "s" ⟨1, true, some (Duration.second, false)⟩ ++
    part (nanoseconds / 1000000) "ms" (.ofNanoseconds 1000000) ++
    part (nanoseconds / 1000 % 1000) "us" (.ofNanoseconds 1000) ++
    part (nanoseconds % 1000) "ns" ⟨1, false, none⟩

theorem map_text_part (count : Nat) (name : String) (unit : TimeUnit) :
    (part count name unit).map Part.text = abbreviated count name := by
  rw [part, abbreviated]
  split
  · rfl
  · rfl

theorem map_text_wordPart (count : Nat) (name : String) (unit : TimeUnit) :
    (wordPart count name unit).map Part.text = spelled count name :=
  map_text_part _ _ _

theorem map_text_partsOf (d : Nat) : (partsOf d).map Part.text = parts d := by
  simp only [partsOf, parts, List.map_append, map_text_part, map_text_wordPart]

theorem totalLength_append (ps qs : List Part) :
    totalLength (ps ++ qs) = totalLength ps + totalLength qs := by
  rw [totalLength, List.map_append, List.sum_append]
  rfl

theorem totalLength_part (count : Nat) (name : String) (unit : TimeUnit) :
    totalLength (part count name unit) = count * unit.length := by
  rw [part]
  split
  · rename_i hcount
    rw [hcount, Nat.zero_mul]
    rfl
  · rfl

theorem totalLength_wordPart (count : Nat) (name : String) (unit : TimeUnit) :
    totalLength (wordPart count name unit) = count * unit.length :=
  totalLength_part _ _ _

theorem totalLength_partsOf (d : Nat) : totalLength (partsOf d) = d := by
  simp only [partsOf, totalLength_append, totalLength_part, totalLength_wordPart,
    TimeUnit.length, TimeUnit.ofSeconds, TimeUnit.ofNanoseconds, Duration.second, yearSeconds,
    monthSeconds, if_true, Bool.false_eq_true, if_false]
  omega

theorem readable_part {count : Nat} {name : String} {unit : TimeUnit} (hname : unit.Named name)
    (hsize : count * unit.size < countBound)
    (hsubsecond : unit.inSeconds = false → count * unit.size < Duration.second) :
    ∀ p ∈ part count name unit, p.Readable := by
  intro p hp
  rw [part] at hp
  split at hp
  · exact absurd hp List.not_mem_nil
  · obtain rfl : p = _ := List.mem_singleton.1 hp
    exact ⟨hname, hsize, hsubsecond⟩

theorem readable_wordPart {count : Nat} {name : String} {n : Nat}
    (hname : (TimeUnit.ofSeconds n).Named name) (hplural : (TimeUnit.ofSeconds n).Named (name ++ "s"))
    (hsize : count * n < countBound) :
    ∀ p ∈ wordPart count name (.ofSeconds n), p.Readable := by
  refine readable_part ?_ hsize fun h => by contradiction
  split
  · exact hplural
  · exact hname

theorem readable_subsecond {count : Nat} {name : String} {unit : TimeUnit}
    (hname : unit.Named name) (hsize : count * unit.size < Duration.second) :
    ∀ p ∈ part count name unit, p.Readable :=
  readable_part hname (Nat.lt_of_lt_of_le hsize (by decide)) fun _ => hsize

theorem readable_partsOf {d : Nat} (hd : d ≤ Duration.longest) :
    ∀ p ∈ partsOf d, p.Readable := by
  have hseconds : d / Duration.second < countBound :=
    Nat.div_lt_of_lt_mul (Nat.lt_of_le_of_lt hd (by decide))
  have hnanoseconds : d % Duration.second < Duration.second := Nat.mod_lt _ (by decide)
  simp only [partsOf, List.forall_mem_append]
  generalize d / Duration.second = seconds at hseconds
  generalize d % Duration.second = nanoseconds at hnanoseconds
  have hinYear := Nat.mod_le seconds yearSeconds
  have hinMonth := Nat.mod_le (seconds % yearSeconds) monthSeconds
  generalize seconds % yearSeconds % monthSeconds = inMonth at hinMonth
  have hinDay := Nat.mod_le inMonth 86400
  generalize inMonth % 86400 = inDay at hinDay
  have hwhole : ∀ n k, n ≤ seconds → n / k * k < countBound := fun n k hn =>
    Nat.lt_of_le_of_lt (Nat.le_trans (Nat.div_mul_le_self n k) hn) hseconds
  refine ⟨⟨⟨⟨⟨⟨⟨⟨?years, ?months⟩, ?days⟩, ?hours⟩, ?minutes⟩, ?seconds⟩, ?milli⟩, ?micro⟩, ?nano⟩
  case years => exact readable_wordPart (by decide) (by decide) (hwhole _ _ (by omega))
  case months => exact readable_wordPart (by decide) (by decide) (hwhole _ _ (by omega))
  case days => exact readable_wordPart (by decide) (by decide) (hwhole _ _ (by omega))
  case hours => exact readable_part (by decide) (hwhole _ _ (by omega)) fun h => by contradiction
  case minutes =>
    exact readable_part (by decide) (hwhole _ _ (by omega)) fun h => by contradiction
  case seconds =>
    have hsize : inDay % 60 * 1 < countBound := by omega
    exact readable_part (by decide) hsize fun h => by contradiction
  case milli =>
    have hsize : nanoseconds / 1000000 * 1000000 < Duration.second := by omega
    exact readable_subsecond (by decide) hsize
  case micro =>
    have hsize : nanoseconds / 1000 % 1000 * 1000 < Duration.second := by omega
    exact readable_subsecond (by decide) hsize
  case nano =>
    have hsize : nanoseconds % 1000 * 1 < Duration.second := by omega
    exact readable_subsecond (by decide) hsize

theorem partsOf_ne_nil {d : Nat} (hd : d ≠ 0) : partsOf d ≠ [] := by
  intro h
  have hlength := totalLength_partsOf d
  rw [h] at hlength
  exact hd hlength.symm

theorem toList_write {d : Nat} (hd : d ≠ 0) : ∃ p ps, partsOf d = p :: ps ∧
    (write d).toList = p.text.toList ++ tailText ps := by
  obtain ⟨p, ps, hparts⟩ := List.exists_cons_of_ne_nil (partsOf_ne_nil hd)
  refine ⟨p, ps, hparts, ?_⟩
  rw [write, if_neg hd, ← map_text_partsOf, hparts, toList_intercalate_text]

/-- What is written shows a unit, also for zero. -/
theorem write_ne_zero {d : Nat} (hd : d ≤ Duration.longest) : write d ≠ "0" := by
  by_cases hzero : d = 0
  · subst hzero
    decide
  · obtain ⟨p, ps, hparts, htext⟩ := toList_write hzero
    have hp : p.Readable := readable_partsOf hd p (by rw [hparts]; exact List.mem_cons_self)
    obtain ⟨c, letters, hcons, -, hnumber, -⟩ := hp.name_cons
    intro h
    have hc : c ∈ "0".toList := by
      rw [← h, htext, Part.text, String.toList_append, hcons]
      simp
    obtain rfl : c = '0' := by simpa using hc
    exact absurd hnumber (by decide)

/-- Every duration that can be represented is read back as it was written. -/
theorem read_write {d : Nat} (hd : d ≤ Duration.longest) : read (write d) = .ok d := by
  rw [read, if_neg (write_ne_zero hd)]
  by_cases hzero : d = 0
  · subst hzero
    have hzero : (write 0).toList = ['0', 's'] := by decide
    have hspan : scanSpan ['0', 's'] = .ok (⟨0, none, ['s']⟩, []) := rfl
    have hspans : readSpans ['0', 's'] 0 true = readSpans [] 0 false :=
      readSpans_cons rfl rfl hspan rfl
    rw [hzero, hspans, readSpans_nil rfl]
  · obtain ⟨p, ps, hparts, htext⟩ := toList_write hzero
    have hlength : p.length + totalLength ps = d := by
      rw [← totalLength_partsOf d, hparts]
      rfl
    have hreadable := readable_partsOf hd
    rw [hparts] at hreadable
    have hfirst : readSpans ([] ++ (p.text.toList ++ tailText ps)) 0 true =
        readSpans (tailText ps) (0 + p.length) false :=
      (hreadable p List.mem_cons_self).readSpans true (fun c hc => absurd hc List.not_mem_nil)
        (ends_tailText ps) (by omega)
    rw [List.nil_append, Nat.zero_add] at hfirst
    rw [htext, hfirst,
      readSpans_tailText (fun q hq => hreadable q (List.mem_cons_of_mem p hq)) (by omega), hlength]

example : write ((yearSeconds + 2 * monthSeconds + 90) * Duration.second + 1) =
    "1year 2months 1m 30s 1ns" := by
  rfl

end TieredCache.DurationText
