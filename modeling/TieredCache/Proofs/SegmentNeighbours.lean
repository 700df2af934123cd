import Mathlib.Data.List.Nodup
import TieredCache.Adjacency
import TieredCache.Proofs.Scanning

/-!
# Neighbours of keys with segments

A key is known by its segments. A step puts the text of a number in the place of a segment that
stands for the number next to it, so what the segments stand for tells each neighbour from the key
and from all other neighbours. A step back writes the number in its usual form, so it leads back to
the key if the key is written in that form.
-/

namespace TieredCache.Adjacency

/-! ### Numbers in segments -/

/-- Digits, at least one, that write a number. -/
structure WritesNatural (s : List Char) (n : Nat) : Prop where
  ne_nil : s ≠ []
  digits : ∀ c ∈ s, c.isDigit = true
  value : Nat.ofDigitChars 10 s 0 = n

/-- Digits that write an integer, behind a sign or none. -/
inductive WritesInteger : List Char → Int → Prop
  | unsigned {s : List Char} {n : Nat} : WritesNatural s n → WritesInteger s n
  | positive {s : List Char} {n : Nat} : WritesNatural s n → WritesInteger ('+' :: s) n
  | negative {s : List Char} {n : Nat} : WritesNatural s n → WritesInteger ('-' :: s) (-n)

/-- A segment that stands for an integer of 64 bits. -/
structure StandsFor (s : List Char) (n : Int) : Prop where
  written : WritesInteger s n
  least : segmentMin ≤ n
  greatest : n ≤ segmentMax

theorem natural?_eq_some_iff (s : List Char) (n : Nat) :
    natural? s = some n ↔ WritesNatural s n := by
  unfold natural?
  constructor
  · intro h
    split at h
    · exact absurd h (by simp)
    · rename_i hdigits
      simp only [Bool.or_eq_true, List.isEmpty_iff, List.any_eq_true, not_or, not_exists, not_and,
        Bool.not_eq_true', Bool.not_eq_false] at hdigits
      exact ⟨hdigits.1, hdigits.2, Option.some.inj h⟩
  · rintro ⟨hne, hdigits, rfl⟩
    rw [if_neg]
    simpa [hne] using hdigits

theorem signed?_minus (s : List Char) :
    signed? ('-' :: s) = (natural? s).map fun n : Nat => -(n : Int) := by
  rw [signed?]
  cases natural? s <;> rfl

theorem signed?_of_digit {s : List Char} (hs : ∀ c ∈ s.head?, c.isDigit = true) :
    signed? s = (natural? s).map Int.ofNat := by
  unfold signed?
  split
  · exact absurd (hs '-' rfl) (by decide)
  · exact absurd (hs '+' rfl) (by decide)
  · rfl

theorem signed?_eq_some_iff (s : List Char) (n : Int) :
    signed? s = some n ↔ WritesInteger s n := by
  constructor
  · intro h
    by_cases hminus : s.head? = some '-'
    · obtain ⟨digits, rfl⟩ := List.head?_eq_some_iff.1 hminus
      rw [signed?_minus] at h
      obtain ⟨m, hm, rfl⟩ := Option.map_eq_some_iff.1 h
      exact .negative ((natural?_eq_some_iff _ m).1 hm)
    · unfold signed? at h
      split at h
      · exact absurd rfl hminus
      · obtain ⟨m, hm, rfl⟩ := Option.map_eq_some_iff.1 h
        exact .positive ((natural?_eq_some_iff _ m).1 hm)
      · obtain ⟨m, hm, rfl⟩ := Option.map_eq_some_iff.1 h
        exact .unsigned ((natural?_eq_some_iff _ m).1 hm)
  · intro h
    cases h with
    | negative h => rw [signed?_minus, (natural?_eq_some_iff _ _).2 h, Option.map_some]
    | positive h =>
      rw [signed?, (natural?_eq_some_iff _ _).2 h, Option.map_some, Int.ofNat_eq_natCast]
    | unsigned h =>
      rw [signed?_of_digit fun c hc => h.digits c (List.mem_of_mem_head? hc),
        (natural?_eq_some_iff _ _).2 h, Option.map_some, Int.ofNat_eq_natCast]

theorem integer?_eq_some_iff (s : List Char) (n : Int) : integer? s = some n ↔ StandsFor s n := by
  rw [integer?, Option.filter_eq_some_iff, signed?_eq_some_iff, Bool.and_eq_true, decide_eq_true_eq,
    decide_eq_true_eq]
  exact ⟨fun h => ⟨h.1, h.2.1, h.2.2⟩, fun h => ⟨h.written, h.least, h.greatest⟩⟩

theorem StandsFor.unique {s : List Char} {m n : Int} (hm : StandsFor s m) (hn : StandsFor s n) :
    m = n :=
  Option.some.inj (((integer?_eq_some_iff s m).2 hm).symm.trans ((integer?_eq_some_iff s n).2 hn))

theorem WritesInteger.ne_nil {s : List Char} {n : Int} (h : WritesInteger s n) : s ≠ [] := by
  cases h with
  | unsigned h => exact h.ne_nil
  | positive _ => exact List.cons_ne_nil _ _
  | negative _ => exact List.cons_ne_nil _ _

theorem WritesInteger.separator_not_mem {s : List Char} {n : Int} (h : WritesInteger s n) :
    separator ∉ s := by
  have hnatural {s : List Char} {n : Nat} (h : WritesNatural s n) : separator ∉ s := fun hs =>
    absurd (h.digits _ hs) (by decide)
  cases h with
  | unsigned h => exact hnatural h
  | positive h => exact List.not_mem_cons_of_ne_of_not_mem (by decide) (hnatural h)
  | negative h => exact List.not_mem_cons_of_ne_of_not_mem (by decide) (hnatural h)

theorem writesNatural_toDigits (n : Nat) : WritesNatural (Nat.toDigits 10 n) n :=
  ⟨Nat.toDigits_ne_nil, fun _ hc => Decimal.isDigit_of_mem_toDigits hc,
    Nat.ofDigitChars_ten_toDigits⟩

theorem writesInteger_integerText (n : Int) : WritesInteger (Decimal.integerText n).toList n := by
  cases n with
  | ofNat n =>
    rw [Decimal.toList_integerText_ofNat]
    exact .unsigned (writesNatural_toDigits n)
  | negSucc n =>
    rw [Decimal.toList_integerText_negSucc]
    exact .negative (writesNatural_toDigits (n + 1))

/-- The usual way to write an integer: without a plus sign, without a zero in front of other digits,
and without a minus sign in front of a zero. -/
structure Usual (s : List Char) : Prop where
  no_plus : s.head? ≠ some '+'
  no_zero : s.head? = some '0' → s = ['0']
  no_minus_zero : ¬['-', '0'] <+: s

instance (s : List Char) : Decidable (Usual s) :=
  decidable_of_iff (s.head? ≠ some '+' ∧ (s.head? = some '0' → s = ['0']) ∧ ¬['-', '0'] <+: s)
    ⟨fun h => ⟨h.1, h.2.1, h.2.2⟩, fun h => ⟨h.no_plus, h.no_zero, h.no_minus_zero⟩⟩

theorem usual_integerText (n : Int) : Usual (Decimal.integerText n).toList := by
  cases n with
  | ofNat n =>
    rw [Decimal.toList_integerText_ofNat]
    have hdigit : ∀ c ∈ (Nat.toDigits 10 n).head?, c.isDigit = true :=
      fun c hc => Decimal.isDigit_of_mem_toDigits (List.mem_of_mem_head? hc)
    refine ⟨fun h => absurd (hdigit _ h) (by decide), fun h => ?_, fun h => ?_⟩
    · have hn : n = 0 := Nat.eq_zero_of_not_pos fun hn => Decimal.head?_toDigits_ne_zero hn h
      rw [hn, Nat.toDigits_zero]
    · obtain ⟨rest, hrest⟩ := h
      exact absurd (hdigit '-' (hrest ▸ rfl)) (by decide)
  | negSucc n =>
    rw [Decimal.toList_integerText_negSucc]
    refine ⟨by simp, by simp, fun h => ?_⟩
    obtain ⟨rest, hrest⟩ := (List.cons_prefix_cons.1 h).2
    exact Decimal.head?_toDigits_ne_zero n.succ_pos (hrest ▸ rfl)

/-- An integer has one usual form, in which it is printed. -/
theorem WritesInteger.usual_iff {s : List Char} {n : Int} (h : WritesInteger s n) :
    Usual s ↔ s = (Decimal.integerText n).toList := by
  constructor
  · intro hs
    cases h with
    | @unsigned s n h =>
      have hdigits := Decimal.toDigits_ofDigitChars h.digits h.ne_nil hs.no_zero
      rw [h.value] at hdigits
      exact hdigits.symm.trans (Decimal.toList_integerText_ofNat n).symm
    | positive _ => exact absurd rfl hs.no_plus
    | @negative s n h =>
      have hfirst : s.head? ≠ some '0' := by
        intro hzero
        obtain ⟨rest, rfl⟩ := List.head?_eq_some_iff.1 hzero
        exact hs.no_minus_zero ⟨rest, rfl⟩
      have hdigits := Decimal.toDigits_ofDigitChars h.digits h.ne_nil fun hzero =>
        absurd hzero hfirst
      rw [h.value] at hdigits
      cases n with
      | zero => exact absurd (hdigits ▸ rfl) hfirst
      | succ n =>
        rw [← hdigits]
        exact (Decimal.toList_integerText_negSucc n).symm
  · rintro rfl
    exact usual_integerText n

/-- A segment that is written in the usual way if it stands for an integer. -/
def Canonical (s : List Char) : Prop :=
  ∀ n, StandsFor s n → Usual s

instance (s : List Char) : Decidable (Canonical s) :=
  decidable_of_iff (∀ n ∈ integer? s, Usual s) <|
    forall_congr' fun n => imp_congr_left (integer?_eq_some_iff s n)

/-! ### Steps -/

/-- A step of a key: which segment it replaces, and the number that the new one stands for. -/
@[ext]
structure Step where
  index : Nat
  target : Int
  deriving DecidableEq, Repr

namespace Step

/-- Steps are listed segment by segment, the lower number first. -/
def Precedes (p q : Step) : Prop :=
  p.index < q.index ∨ p.index = q.index ∧ p.target < q.target

def apply (p : Step) (segments : List (List Char)) : List (List Char) :=
  segments.set p.index (Decimal.integerText p.target).toList

/-- A step that some segments allow: the number is next to one that its segment stands for, and it
has 64 bits as well. -/
structure IsFrom (p : Step) (segments : List (List Char)) : Prop where
  source : ∃ s n, segments[p.index]? = some s ∧ StandsFor s n ∧
    (p.target = n - 1 ∨ p.target = n + 1)
  least : segmentMin ≤ p.target
  greatest : p.target ≤ segmentMax

variable {p q : Step} {segments : List (List Char)}

theorem IsFrom.standsFor (hp : p.IsFrom segments) :
    StandsFor (Decimal.integerText p.target).toList p.target :=
  ⟨writesInteger_integerText p.target, hp.least, hp.greatest⟩

/-- A step is seen in its segment, which stood for another number. -/
theorem IsFrom.getElem?_ne (hp : p.IsFrom segments) :
    segments[p.index]? ≠ some (Decimal.integerText p.target).toList := by
  obtain ⟨s, n, hs, hn, htarget⟩ := hp.source
  rw [hs]
  intro h
  obtain rfl := Option.some.inj h
  have := hp.standsFor.unique hn
  omega

theorem IsFrom.index_lt (hp : p.IsFrom segments) : p.index < segments.length := by
  obtain ⟨s, -, hs, -⟩ := hp.source
  exact (List.getElem?_eq_some_iff.1 hs).1

theorem IsFrom.getElem?_apply_self (hp : p.IsFrom segments) :
    (p.apply segments)[p.index]? = some (Decimal.integerText p.target).toList :=
  List.getElem?_set_self hp.index_lt

theorem getElem?_apply_of_ne {i : Nat} (h : p.index ≠ i) (segments : List (List Char)) :
    (p.apply segments)[i]? = segments[i]? :=
  List.getElem?_set_ne h

theorem length_apply (p : Step) (segments : List (List Char)) :
    (p.apply segments).length = segments.length :=
  List.length_set

theorem IsFrom.apply_ne (hp : p.IsFrom segments) : p.apply segments ≠ segments := by
  intro h
  have hself := hp.getElem?_apply_self
  rw [h] at hself
  exact hp.getElem?_ne hself

theorem IsFrom.apply_injective (hp : p.IsFrom segments) (hq : q.IsFrom segments)
    (h : p.apply segments = q.apply segments) : p = q := by
  have hself := hp.getElem?_apply_self
  rw [h] at hself
  by_cases hindex : q.index = p.index
  · rw [← hindex, hq.getElem?_apply_self] at hself
    have htarget := hq.standsFor
    rw [Option.some.inj hself] at htarget
    exact Step.ext hindex.symm (hp.standsFor.unique htarget)
  · rw [getElem?_apply_of_ne hindex] at hself
    exact absurd hself hp.getElem?_ne

theorem Precedes.ne (h : p.Precedes q) : p ≠ q := by
  rintro rfl
  rcases h with h | ⟨-, h⟩
  · exact absurd h (Nat.lt_irrefl _)
  · exact absurd h (Int.lt_irrefl _)

end Step

/-- The numbers next to the one that a segment stands for. -/
def segmentTargets (s : List Char) : List Int :=
  ((integer? s).map (steps segmentMin segmentMax)).getD []

theorem mem_segmentTargets_iff (s : List Char) (m : Int) :
    m ∈ segmentTargets s ↔
      (∃ n, StandsFor s n ∧ (m = n - 1 ∨ m = n + 1)) ∧ segmentMin ≤ m ∧ m ≤ segmentMax := by
  simp only [segmentTargets, ← integer?_eq_some_iff]
  cases integer? s with
  | none => simp
  | some n => simp [mem_steps_iff]

theorem segmentSteps_eq (s : List Char) :
    segmentSteps s = (segmentTargets s).map fun m => (Decimal.integerText m).toList := by
  unfold segmentSteps segmentTargets
  cases integer? s <;> rfl

/-- The steps that some segments allow, of which the first has an index of its own. -/
def stepsFrom (first : Nat) (segments : List (List Char)) : List Step :=
  (segments.zipIdx first).flatMap fun s => (segmentTargets s.1).map (Step.mk s.2)

theorem stepsFrom_cons (first : Nat) (s : List Char) (after : List (List Char)) :
    stepsFrom first (s :: after) =
      (segmentTargets s).map (Step.mk first) ++ stepsFrom (first + 1) after := by
  rw [stepsFrom, List.zipIdx_cons, List.flatMap_cons, stepsFrom]

theorem segmentNeighbours_eq (before after : List (List Char)) :
    segmentNeighbours before after =
      (stepsFrom before.length after).map fun p => p.apply (before ++ after) := by
  induction after generalizing before with
  | nil => rfl
  | cons s after ih =>
    have hlater : segmentNeighbours (before ++ [s]) after =
        (stepsFrom (before.length + 1) after).map fun p => p.apply (before ++ s :: after) := by
      rw [ih, List.length_append, List.length_singleton, List.append_assoc, List.singleton_append]
    have hset (m : Int) : before ++ (Decimal.integerText m).toList :: after =
        (Step.mk before.length m).apply (before ++ s :: after) := by
      rw [Step.apply, List.set_append_right _ _ (Nat.le_refl _), Nat.sub_self, List.set_cons_zero]
    rw [segmentNeighbours, hlater, segmentSteps_eq, stepsFrom_cons, List.map_append, List.map_map,
      List.map_map]
    simp only [Function.comp_def, hset]

theorem mem_stepsFrom_iff (segments : List (List Char)) (p : Step) :
    p ∈ stepsFrom 0 segments ↔ p.IsFrom segments := by
  simp only [stepsFrom, List.mem_flatMap, List.mem_map, List.mem_zipIdx_iff_getElem?,
    mem_segmentTargets_iff]
  constructor
  · rintro ⟨⟨s, i⟩, hs, m, ⟨⟨n, hn, hm⟩, hleast, hgreatest⟩, rfl⟩
    exact ⟨⟨s, n, hs, hn, hm⟩, hleast, hgreatest⟩
  · rintro ⟨⟨s, n, hs, hn, hm⟩, hleast, hgreatest⟩
    exact ⟨⟨s, p.index⟩, hs, p.target, ⟨⟨n, hn, hm⟩, hleast, hgreatest⟩, rfl⟩

theorem pairwise_segmentTargets (s : List Char) : (segmentTargets s).Pairwise (· < ·) := by
  unfold segmentTargets
  cases integer? s with
  | none => exact List.Pairwise.nil
  | some n => exact pairwise_steps _ _ n

theorem pairwise_stepsFrom (first : Nat) (segments : List (List Char)) :
    (stepsFrom first segments).Pairwise Step.Precedes := by
  rw [stepsFrom, List.pairwise_flatMap]
  constructor
  · intro s _
    exact List.pairwise_map.2 ((pairwise_segmentTargets s.1).imp fun h => .inr ⟨rfl, h⟩)
  · have hindices : (segments.zipIdx first).Pairwise fun s t => s.2 < t.2 := by
      rw [← List.pairwise_map, List.zipIdx_map_snd]
      exact List.pairwise_lt_range' 1
    refine hindices.imp fun hlt p hp q hq => .inl ?_
    obtain ⟨m, -, rfl⟩ := List.mem_map.1 hp
    obtain ⟨n, -, rfl⟩ := List.mem_map.1 hq
    exact hlt

/-! ### Keys -/

/-- The segments of a key. -/
def segments (key : String) : List (List Char) := key.toList.splitOn separator

/-- The key of some segments. -/
def joined (segments : List (List Char)) : String :=
  String.ofList ([separator].intercalate segments)

theorem joined_segments (key : String) : joined (segments key) = key := by
  rw [joined, segments, List.intercalate_splitOn, String.ofList_toList]

theorem segments_joined {s : List (List Char)} (hne : s ≠ []) (hs : ∀ t ∈ s, separator ∉ t) :
    segments (joined s) = s := by
  rw [segments, joined, String.toList_ofList, List.splitOn_intercalate separator hs hne]

theorem segments_injective {j k : String} (h : segments j = segments k) : j = k := by
  rw [← joined_segments j, h, joined_segments]

theorem segments_joined_apply (key : String) (p : Step) :
    segments (joined (p.apply (segments key))) = p.apply (segments key) := by
  apply segments_joined
  · intro h
    have hlength := congrArg List.length h
    rw [Step.length_apply, List.length_nil, List.length_eq_zero_iff] at hlength
    exact List.splitOn_ne_nil _ _ hlength
  · intro t ht
    rcases List.mem_or_eq_of_mem_set ht with ht | rfl
    · exact not_mem_of_mem_splitOn ht
    · exact (writesInteger_integerText p.target).separator_not_mem

theorem adjacent_eq (key : String) : Adjacent.adjacent key =
    (stepsFrom 0 (segments key)).map fun p => joined (p.apply (segments key)) := by
  have hneighbours := segmentNeighbours_eq [] (segments key)
  rw [List.length_nil, List.nil_append] at hneighbours
  change (segmentNeighbours [] (segments key)).map joined = _
  rw [hneighbours, List.map_map]
  rfl

theorem map_segments_adjacent (key : String) : (Adjacent.adjacent key).map segments =
    (stepsFrom 0 (segments key)).map fun p => p.apply (segments key) := by
  rw [adjacent_eq, List.map_map]
  apply List.map_congr_left
  intro p _
  rw [Function.comp_apply, segments_joined_apply]

theorem mem_adjacent_iff (key n : String) : n ∈ Adjacent.adjacent key ↔
    ∃ p : Step, p.IsFrom (segments key) ∧ segments n = p.apply (segments key) := by
  rw [adjacent_eq, List.mem_map]
  refine exists_congr fun p => ?_
  rw [mem_stepsFrom_iff]
  refine and_congr_right fun _ => ⟨?_, fun h => ?_⟩
  · rintro rfl
    exact segments_joined_apply key p
  · exact segments_injective (by rw [segments_joined_apply, h])

/-- Two keys of equally many segments, of which the same are empty and the same stand for
integers. -/
structure SameShape (a b : List (List Char)) : Prop where
  length : a.length = b.length
  empty : ∀ i : Nat, a[i]? = some [] ↔ b[i]? = some []
  integers : ∀ i : Nat, (∃ s n, a[i]? = some s ∧ StandsFor s n) ↔
    ∃ s n, b[i]? = some s ∧ StandsFor s n

theorem Step.IsFrom.sameShape {p : Step} {segments : List (List Char)}
    (hp : p.IsFrom segments) : SameShape (p.apply segments) segments where
  length := p.length_apply segments
  empty i := by
    by_cases hi : p.index = i
    · subst hi
      obtain ⟨s, n, hs, hn, -⟩ := hp.source
      rw [hp.getElem?_apply_self, hs, Option.some_inj, Option.some_inj]
      exact iff_of_false hp.standsFor.written.ne_nil hn.written.ne_nil
    · rw [getElem?_apply_of_ne hi]
  integers i := by
    by_cases hi : p.index = i
    · subst hi
      obtain ⟨s, n, hs, hn, -⟩ := hp.source
      exact iff_of_true ⟨_, _, hp.getElem?_apply_self, hp.standsFor⟩ ⟨s, n, hs, hn⟩
    · rw [getElem?_apply_of_ne hi]

/-- The step back from where a step has led. -/
theorem Step.IsFrom.back {p : Step} {segments : List (List Char)} (hp : p.IsFrom segments)
    (hcanonical : ∀ s ∈ segments, Canonical s) :
    ∃ q : Step, q.IsFrom (p.apply segments) ∧ q.apply (p.apply segments) = segments := by
  obtain ⟨s, n, hs, hn, htarget⟩ := hp.source
  have htext := hn.written.usual_iff.1 (hcanonical s (List.mem_of_getElem? hs) n hn)
  refine ⟨⟨p.index, n⟩, ⟨⟨_, _, hp.getElem?_apply_self, hp.standsFor, ?_⟩, hn.least, hn.greatest⟩,
    ?_⟩
  · dsimp only
    omega
  · rw [apply, apply, List.set_set, ← htext]
    obtain ⟨hlt, rfl⟩ := List.getElem?_eq_some_iff.1 hs
    exact List.set_getElem_self hlt

/-- The neighbours of a key are what its steps lead to, segment by segment and the lower number
first. They are different from each other and from the key and have its shape. If the integers of
the key are written in the usual way, the key is a neighbour of all its neighbours. -/
theorem neighbours_by_segments (key : String) :
    (∃ steps : List Step, steps.Pairwise Step.Precedes ∧
      (∀ p, p ∈ steps ↔ p.IsFrom (segments key)) ∧
      (∀ p ∈ steps, StandsFor (Decimal.integerText p.target).toList p.target) ∧
      (Adjacent.adjacent key).map segments = steps.map fun p => p.apply (segments key)) ∧
    (Adjacent.adjacent key).Nodup ∧ key ∉ Adjacent.adjacent key ∧
    (∀ n ∈ Adjacent.adjacent key, SameShape (segments n) (segments key)) ∧
    ((∀ s ∈ segments key, Canonical s) →
      ∀ n ∈ Adjacent.adjacent key, key ∈ Adjacent.adjacent n) := by
  have hsteps := mem_stepsFrom_iff (segments key)
  have hsorted := pairwise_stepsFrom 0 (segments key)
  refine ⟨⟨stepsFrom 0 (segments key), hsorted, hsteps, fun p hp => ((hsteps p).1 hp).standsFor,
    map_segments_adjacent key⟩, ?_, fun hkey => ?_, fun n hn => ?_, fun hcanonical n hn => ?_⟩
  · have hnodup : (stepsFrom 0 (segments key)).Nodup := hsorted.imp Step.Precedes.ne
    apply List.Nodup.of_map segments
    rw [map_segments_adjacent]
    refine List.Nodup.map_on (fun p hp q hq h => ?_) hnodup
    exact ((hsteps p).1 hp).apply_injective ((hsteps q).1 hq) h
  · obtain ⟨p, hp, hsame⟩ := (mem_adjacent_iff key key).1 hkey
    exact hp.apply_ne hsame.symm
  · obtain ⟨p, hp, hn⟩ := (mem_adjacent_iff key n).1 hn
    rw [hn]
    exact hp.sameShape
  · obtain ⟨p, hp, hn⟩ := (mem_adjacent_iff key n).1 hn
    obtain ⟨q, hq, hback⟩ := hp.back hcanonical
    rw [mem_adjacent_iff, hn]
    exact ⟨q, hq, hback.symm⟩

/-- Colons in a row and at the end, and the least of all integers, which has one neighbour only. -/
theorem neighbours_by_segments_of_bordering :
    let key := "a::-9223372036854775808:12:"
    (∀ s ∈ segments key, Canonical s) ∧
      Adjacent.adjacent key = ["a::-9223372036854775807:12:", "a::-9223372036854775808:11:",
        "a::-9223372036854775808:13:"] ∧
      ∀ n ∈ Adjacent.adjacent key, key ∈ Adjacent.adjacent n := by
  intro key
  have hcanonical : ∀ s ∈ segments key, Canonical s := by decide +kernel
  exact ⟨hcanonical, by decide +kernel, (neighbours_by_segments key).2.2.2.2 hcanonical⟩

/-- Signs that are not needed and zeros in front are lost, so there is no way back. -/
example : Adjacent.adjacent "-0:007" = ["-1:007", "1:007", "-0:6", "-0:8"] ∧
    "-0:007" ∉ Adjacent.adjacent "1:007" := by
  decide +kernel

end TieredCache.Adjacency
