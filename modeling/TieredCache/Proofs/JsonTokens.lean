import TieredCache.Json.Value
import TieredCache.Json.StringLiteral
import TieredCache.Proofs.Scanning

/-!
# JSON tokens read back as they were written

A numeral that ends where the text ends is scanned in the same way when something follows that
cannot belong to it. So whether a number is read back can be seen from its own text. The natural
numbers of 64 bits all are, and so is every string.
-/

namespace TieredCache.Json

/-- A scan that succeeds with a result and leaves the rest of the text. -/
def Scans {ε α : Type} {p : List Char → Prop} (scan : Except ε (α × { r // p r })) (a : α)
    (rest : List Char) : Prop :=
  ∃ r, scan = .ok (a, r) ∧ r.1 = rest

theorem Scans.unique {ε α : Type} {p : List Char → Prop} {scan : Except ε (α × { r // p r })}
    {a b : α} {s t : List Char} (ha : Scans scan a s) (hb : Scans scan b t) : a = b ∧ s = t := by
  obtain ⟨r, hr, rfl⟩ := ha
  obtain ⟨r', hr', rfl⟩ := hb
  obtain ⟨rfl, rfl⟩ := Prod.mk.inj (Except.ok.inj (hr.symm.trans hr'))
  exact ⟨rfl, rfl⟩

/-- What cannot go on a numeral. -/
def Delimits (rest : List Char) : Prop :=
  ∀ c ∈ rest.head?, c.isDigit = false ∧ c ≠ '.' ∧ c ≠ 'e' ∧ c ≠ 'E'

/-! ### Numbers -/

namespace Numeral

variable {s after rest : List Char}

theorem scanDigits_cons {c : Char} (hc : c.isDigit = true) (t : List Char) :
    Scans (scanDigits (c :: t)) (c :: t.takeWhile Char.isDigit) (t.dropWhile Char.isDigit) :=
  ⟨_, if_pos hc, rfl⟩

/-- Digits start with a digit. -/
theorem scanDigits_cases {digits : List Char} (h : Scans (scanDigits s) digits after) :
    ∃ c t, s = c :: t ∧ c.isDigit = true ∧ digits = c :: t.takeWhile Char.isDigit ∧
      after = t.dropWhile Char.isDigit := by
  obtain ⟨r, hr, rfl⟩ := h
  cases s with
  | nil => contradiction
  | cons c t =>
    by_cases hc : c.isDigit
    · rw [scanDigits, if_pos hc] at hr
      obtain ⟨rfl, rfl⟩ := Prod.mk.inj (Except.ok.inj hr)
      exact ⟨c, t, rfl, hc, rfl, rfl⟩
    · rw [scanDigits, if_neg hc] at hr
      contradiction

theorem scanDigits_append {digits : List Char} (h : Scans (scanDigits s) digits after)
    (hrest : Delimits rest) : Scans (scanDigits (s ++ rest)) digits (after ++ rest) := by
  have hstop : ∀ c ∈ rest.head?, c.isDigit = false := fun c hc => (hrest c hc).1
  obtain ⟨c, t, rfl, hc, rfl, rfl⟩ := scanDigits_cases h
  rw [← takeWhile_append_of_head hstop, ← dropWhile_append_of_head hstop]
  exact scanDigits_cons hc (t ++ rest)

theorem scanSign_append (hs : s ≠ []) (rest : List Char) :
    (scanSign (s ++ rest)).1 = (scanSign s).1 ∧
      (scanSign (s ++ rest)).2.1 = (scanSign s).2.1 ++ rest := by
  obtain ⟨c, t, rfl⟩ := List.exists_cons_of_ne_nil hs
  rw [List.cons_append]
  by_cases hminus : c = '-'
  · subst hminus
    exact ⟨rfl, rfl⟩
  · by_cases hplus : c = '+'
    · subst hplus
      exact ⟨rfl, rfl⟩
    · have hsign : ∀ u, scanSign (c :: u) = (false, ⟨c :: u, Nat.le_refl _⟩) := by
        intro u
        rw [scanSign]
        · exact fun r hr => hminus (List.cons.inj hr).1
        · exact fun r hr => hplus (List.cons.inj hr).1
      rw [hsign, hsign]
      exact ⟨rfl, rfl⟩

theorem scanFraction_point {digits : List Char} (h : Scans (scanDigits s) digits after) :
    Scans (scanFraction ('.' :: s)) (some digits) after := by
  obtain ⟨r, hr, rfl⟩ := h
  refine ⟨⟨r.1, Nat.le_succ_of_le (Nat.le_of_lt r.2)⟩, ?_, rfl⟩
  rw [scanFraction, hr]
  rfl

theorem scanFraction_of_ne (hs : ∀ c ∈ s.head?, c ≠ '.') : Scans (scanFraction s) none s := by
  refine ⟨⟨s, Nat.le_refl _⟩, ?_, rfl⟩
  rw [scanFraction]
  · rfl
  · rintro r rfl
    exact hs '.' rfl rfl

theorem scanFraction_append {digits : Option (List Char)}
    (h : Scans (scanFraction s) digits after) (hrest : Delimits rest) :
    Scans (scanFraction (s ++ rest)) digits (after ++ rest) := by
  by_cases hpoint : ∃ t, s = '.' :: t
  · obtain ⟨t, rfl⟩ := hpoint
    obtain ⟨r, hr, rfl⟩ := h
    rw [scanFraction] at hr
    cases hdigits : scanDigits t with
    | error b =>
      rw [hdigits] at hr
      contradiction
    | ok p =>
      obtain ⟨fraction, left⟩ := p
      rw [hdigits] at hr
      obtain ⟨rfl, rfl⟩ := Prod.mk.inj (Except.ok.inj hr)
      exact scanFraction_point (scanDigits_append ⟨left, hdigits, rfl⟩ hrest)
  · have hs : ∀ c ∈ s.head?, c ≠ '.' := by
      rintro c hc rfl
      exact hpoint (List.head?_eq_some_iff.1 hc)
    have happend : ∀ c ∈ (s ++ rest).head?, c ≠ '.' := by
      cases s with
      | nil => exact fun c hc => (hrest c hc).2.1
      | cons d t => exact hs
    obtain ⟨rfl, rfl⟩ := h.unique (scanFraction_of_ne hs)
    exact scanFraction_of_ne happend

theorem scanExponent_letter {c : Char} (hc : c = 'e' ∨ c = 'E') {digits : List Char}
    (h : Scans (scanDigits (scanSign s).2.1) digits after) :
    Scans (scanExponent (c :: s)) (some ((scanSign s).1, digits)) after := by
  obtain ⟨r, hr, rfl⟩ := h
  refine ⟨⟨r.1, Nat.le_succ_of_le (Nat.le_trans (Nat.le_of_lt r.2) (scanSign s).2.2)⟩, ?_, rfl⟩
  rw [scanExponent, if_pos hc]
  simp only [hr]
  rfl

theorem scanExponent_of_ne (hs : ∀ c ∈ s.head?, c ≠ 'e' ∧ c ≠ 'E') :
    Scans (scanExponent s) none s := by
  refine ⟨⟨s, Nat.le_refl _⟩, ?_, rfl⟩
  cases s with
  | nil => rfl
  | cons c t =>
    rw [scanExponent, if_neg (not_or.2 (hs c rfl))]
    rfl

theorem scanExponent_append {exponent : Option (Bool × List Char)}
    (h : Scans (scanExponent s) exponent after) (hrest : Delimits rest) :
    Scans (scanExponent (s ++ rest)) exponent (after ++ rest) := by
  by_cases hletter : ∃ c t, s = c :: t ∧ (c = 'e' ∨ c = 'E')
  · obtain ⟨c, t, rfl, hc⟩ := hletter
    obtain ⟨r, hr, rfl⟩ := h
    rw [scanExponent, if_pos hc] at hr
    cases hdigits : scanDigits (scanSign t).2.1 with
    | error b =>
      simp only [hdigits] at hr
      contradiction
    | ok p =>
      obtain ⟨digits, left⟩ := p
      simp only [hdigits] at hr
      obtain ⟨rfl, rfl⟩ := Prod.mk.inj (Except.ok.inj hr)
      have ht : t ≠ [] := by
        rintro rfl
        contradiction
      obtain ⟨hsign, hsigned⟩ := scanSign_append ht rest
      have hscan := scanDigits_append ⟨left, hdigits, rfl⟩ hrest
      rw [← hsigned] at hscan
      rw [← hsign]
      exact scanExponent_letter hc hscan
  · have hs : ∀ c ∈ s.head?, c ≠ 'e' ∧ c ≠ 'E' := by
      intro c hc
      obtain ⟨t, ht⟩ := List.head?_eq_some_iff.1 hc
      exact not_or.1 fun hletters => hletter ⟨c, t, ht, hletters⟩
    have happend : ∀ c ∈ (s ++ rest).head?, c ≠ 'e' ∧ c ≠ 'E' := by
      cases s with
      | nil => exact fun c hc => (hrest c hc).2.2
      | cons d t => exact hs
    obtain ⟨rfl, rfl⟩ := h.unique (scanExponent_of_ne hs)
    exact scanExponent_of_ne happend

/-- A zero in front is alone. -/
def LeadingZero (digits : List Char) : Prop := digits.head? = some '0' ∧ 1 < digits.length

theorem scanUnsigned_of_scans {negative : Bool} {s s₁ s₂ s₃ whole : List Char}
    {fraction : Option (List Char)} {exponent : Option (Bool × List Char)}
    (hwhole : Scans (scanDigits s) whole s₁) (hzero : ¬LeadingZero whole)
    (hfraction : Scans (scanFraction s₁) fraction s₂)
    (hexponent : Scans (scanExponent s₂) exponent s₃) :
    Scans (scanUnsigned negative s) ⟨negative, whole, fraction, exponent⟩ s₃ := by
  obtain ⟨r₁, hr₁, rfl⟩ := hwhole
  obtain ⟨r₂, hr₂, rfl⟩ := hfraction
  obtain ⟨r₃, hr₃, rfl⟩ := hexponent
  refine ⟨⟨r₃.1, Nat.lt_of_le_of_lt (Nat.le_trans r₃.2 r₂.2) r₁.2⟩, ?_, rfl⟩
  rw [scanUnsigned, hr₁]
  refine (if_neg hzero).trans ?_
  simp only [hr₂, bind, Except.bind, hr₃]
  rfl

theorem scanUnsigned_cases {negative : Bool} {n : Numeral}
    (h : Scans (scanUnsigned negative s) n after) : ∃ s₁ s₂,
    n.negative = negative ∧ Scans (scanDigits s) n.whole s₁ ∧ ¬LeadingZero n.whole ∧
      Scans (scanFraction s₁) n.fraction s₂ ∧ Scans (scanExponent s₂) n.exponent after := by
  obtain ⟨r, hr, rfl⟩ := h
  rw [scanUnsigned] at hr
  cases h₁ : scanDigits s with
  | error b =>
    rw [h₁] at hr
    contradiction
  | ok p₁ =>
    obtain ⟨whole, r₁⟩ := p₁
    rw [h₁] at hr
    by_cases hzero : LeadingZero whole
    · have herror := (if_pos hzero).symm.trans hr
      contradiction
    · replace hr := (if_neg hzero).symm.trans hr
      cases h₂ : scanFraction r₁.1 with
      | error b =>
        simp only [h₂, bind, Except.bind] at hr
        contradiction
      | ok p₂ =>
        obtain ⟨fraction, r₂⟩ := p₂
        simp only [h₂, bind, Except.bind] at hr
        cases h₃ : scanExponent r₂.1 with
        | error b =>
          simp only [h₃] at hr
          contradiction
        | ok p₃ =>
          obtain ⟨exponent, r₃⟩ := p₃
          simp only [h₃] at hr
          obtain ⟨rfl, rfl⟩ := Prod.mk.inj (Except.ok.inj hr)
          exact ⟨r₁.1, r₂.1, rfl, ⟨r₁, rfl, rfl⟩, hzero, ⟨r₂, h₂, rfl⟩, ⟨r₃, h₃, rfl⟩⟩

theorem scanUnsigned_append {negative : Bool} {n : Numeral}
    (h : Scans (scanUnsigned negative s) n after) (hrest : Delimits rest) :
    Scans (scanUnsigned negative (s ++ rest)) n (after ++ rest) := by
  obtain ⟨s₁, s₂, rfl, hwhole, hzero, hfraction, hexponent⟩ := scanUnsigned_cases h
  exact scanUnsigned_of_scans (scanDigits_append hwhole hrest) hzero
    (scanFraction_append hfraction hrest) (scanExponent_append hexponent hrest)

theorem scan_minus {n : Numeral} (h : Scans (scanUnsigned true s) n after) :
    Scans (scan ('-' :: s)) n after := by
  obtain ⟨r, hr, rfl⟩ := h
  refine ⟨Shorter.cons r, ?_, rfl⟩
  rw [scan, hr]
  rfl

theorem scan_of_ne (hs : ∀ c ∈ s.head?, c ≠ '-') : scan s = scanUnsigned false s := by
  rw [scan]
  rintro r rfl
  exact hs '-' rfl rfl

/-- A numeral starts with a minus sign or with a digit. -/
theorem scan_cases {n : Numeral} (h : Scans (scan s) n after) :
    (∃ t, s = '-' :: t ∧ Scans (scanUnsigned true t) n after) ∨
      (∃ c t, s = c :: t ∧ c.isDigit = true ∧ c ≠ '-' ∧ Scans (scanUnsigned false s) n after) := by
  by_cases hminus : ∃ t, s = '-' :: t
  · obtain ⟨t, rfl⟩ := hminus
    obtain ⟨r, hr, rfl⟩ := h
    rw [scan] at hr
    cases hscan : scanUnsigned true t with
    | error b =>
      rw [hscan] at hr
      contradiction
    | ok p =>
      obtain ⟨m, left⟩ := p
      rw [hscan] at hr
      obtain ⟨rfl, rfl⟩ := Prod.mk.inj (Except.ok.inj hr)
      exact .inl ⟨t, rfl, left, hscan, rfl⟩
  · have hs : ∀ c ∈ s.head?, c ≠ '-' := by
      rintro c hc rfl
      exact hminus (List.head?_eq_some_iff.1 hc)
    rw [scan_of_ne hs] at h
    obtain ⟨s₁, s₂, -, hwhole, -⟩ := scanUnsigned_cases h
    obtain ⟨c, t, rfl, hc, -⟩ := scanDigits_cases hwhole
    exact .inr ⟨c, t, rfl, hc, hs c rfl, h⟩

theorem scan_append {n : Numeral} (h : Scans (scan s) n after) (hrest : Delimits rest) :
    Scans (scan (s ++ rest)) n (after ++ rest) := by
  obtain ⟨t, rfl, ht⟩ | ⟨c, t, rfl, -, hc, ht⟩ := scan_cases h
  · exact scan_minus (scanUnsigned_append ht hrest)
  · have hs : ∀ d ∈ (c :: t ++ rest).head?, d ≠ '-' := fun d hd =>
      Option.some.inj hd ▸ hc
    rw [scan_of_ne hs]
    exact scanUnsigned_append ht hrest

end Numeral

/-- A number that is read from its own text. -/
def Number.ReadsBack (n : Number) : Prop :=
  ∃ m, Scans (Numeral.scan n.text.toList) m [] ∧ m.number? = some n

namespace Number.ReadsBack

variable {n : Number} (h : n.ReadsBack)
include h

theorem text_cons : ∃ c t, n.text.toList = c :: t ∧ (c = '-' ∨ c.isDigit = true) := by
  obtain ⟨m, hscan, -⟩ := h
  obtain ⟨t, ht, -⟩ | ⟨c, t, ht, hc, -⟩ := Numeral.scan_cases hscan
  · exact ⟨'-', t, ht, .inl rfl⟩
  · exact ⟨c, t, ht, .inr hc⟩

/-- Behind a number that is read back may stand whatever is no part of it. -/
theorem scan_text {rest : List Char} (hrest : Delimits rest) :
    ∃ m, Scans (Numeral.scan (n.text.toList ++ rest)) m rest ∧ m.number? = some n := by
  obtain ⟨m, hscan, hnumber⟩ := h
  exact ⟨m, Numeral.scan_append hscan hrest, hnumber⟩

end Number.ReadsBack

theorem not_leadingZero_toDigits (n : Nat) : ¬Numeral.LeadingZero (Nat.toDigits 10 n) := by
  rintro ⟨hhead, hlength⟩
  by_cases hn : n = 0
  · subst hn
    exact absurd hlength (by decide)
  · exact Decimal.head?_toDigits_ne_zero (Nat.pos_of_ne_zero hn) hhead

theorem readsBack_natural {n : Nat} (hn : n < Numeral.significandBound) :
    (Number.integer n).ReadsBack := by
  have htext : (Number.integer n).text.toList = Nat.toDigits 10 n := by
    rw [Number.text, Decimal.integerText, if_neg (by omega), Int.natAbs_natCast,
      Decimal.naturalText, String.toList_ofList]
  obtain ⟨c, t, hcons⟩ := List.exists_cons_of_ne_nil (Nat.toDigits_ne_nil (n := n) (b := 10))
  have hdigits : ∀ d ∈ c :: t, d.isDigit = true := fun d hd =>
    Decimal.isDigit_of_mem_toDigits (hcons ▸ hd)
  have hc : c.isDigit = true := hdigits c List.mem_cons_self
  have hwhole : Scans (Numeral.scanDigits (c :: t)) (c :: t) [] := by
    have ht : ∀ d ∈ t, d.isDigit = true := fun d hd => hdigits d (List.mem_cons_of_mem c hd)
    have hscan := Numeral.scanDigits_cons hc t
    rwa [List.takeWhile_eq_self_iff.2 ht, List.dropWhile_eq_nil_iff.2 ht] at hscan
  have hminus : ∀ d ∈ (c :: t).head?, d ≠ '-' := by
    rintro d hd rfl
    obtain rfl : c = '-' := Option.some.inj hd
    exact absurd hc (by decide)
  refine ⟨⟨false, c :: t, none, none⟩, ?_, ?_⟩
  · rw [htext, hcons, Numeral.scan_of_ne hminus]
    exact Numeral.scanUnsigned_of_scans hwhole (hcons ▸ not_leadingZero_toDigits n)
      (Numeral.scanFraction_of_ne fun d hd => by contradiction)
      (Numeral.scanExponent_of_ne fun d hd => by contradiction)
  · have hvalue : Nat.ofDigitChars 10 (c :: t) 0 = n := by
      rw [← hcons, Nat.ofDigitChars_ten_toDigits]
    rw [Numeral.number?]
    simp only [hvalue]
    rw [if_pos ⟨rfl, hn⟩]

/-- A binary64 number is read back if its text spells a numeral with a point whose value it is. -/
theorem readsBack_float {x : Float} {s : String} {m : Numeral} (hs : (Number.float x).text = s)
    (hscan : Scans (Numeral.scan s.toList) m []) (hpoint : m.fraction ≠ none)
    (hvalue : m.float? = some x) : (Number.float x).ReadsBack := by
  refine ⟨m, hs ▸ hscan, ?_⟩
  unfold Numeral.number?
  split
  · contradiction
  · rw [hvalue]
    rfl

/-! ### Strings -/

namespace StringLiteral

theorem hexValue?_digitChar : ∀ n < 16, hexValue? (Nat.digitChar n) = some n := by
  decide

theorem scanFrom_escape {s rest : List Char} {piece : Piece} (done : Except Fault (List Char))
    (h : Scans (scanEscape s) piece rest) :
    scanFrom ('\\' :: s) done = scanFrom rest (extend done piece) := by
  obtain ⟨r, hr, rfl⟩ := h
  rw [scanFrom, hr]

theorem scanEscape_control {c : Char} (hc : c.toNat < 0x20) (rest : List Char) :
    Scans (scanEscape ('u' :: '0' :: '0' :: Nat.digitChar (c.toNat / 16) ::
      Nat.digitChar (c.toNat % 16) :: rest)) (.char c) rest := by
  have hzero : hexValue? '0' = some 0 := rfl
  have hhigh := hexValue?_digitChar (c.toNat / 16) (by omega)
  have hlow := hexValue?_digitChar (c.toNat % 16) (by omega)
  have hvalue : ((0 * 16 + 0) * 16 + c.toNat / 16) * 16 + c.toNat % 16 = c.toNat := by omega
  have hhex : Scans (scanHex ('0' :: '0' :: Nat.digitChar (c.toNat / 16) ::
      Nat.digitChar (c.toNat % 16) :: rest)) c.toNat rest := by
    refine ⟨⟨rest, by simp only [List.length_cons]; omega⟩, ?_, rfl⟩
    simp only [scanHex, hzero, hhigh, hlow, hvalue]
  obtain ⟨r, hr, hrest⟩ := hhex
  refine ⟨Shorter.cons r, ?_, hrest⟩
  have hunit : scanUnit ('0' :: '0' :: Nat.digitChar (c.toNat / 16) ::
      Nat.digitChar (c.toNat % 16) :: rest) = .ok (.char c, r) := by
    rw [scanUnit, hr]
    refine (if_neg (by omega)).trans ((if_neg (by omega)).trans ?_)
    rw [Char.ofNat_toNat]
    rfl
  rw [scanEscape, hunit]
  rfl

theorem scanEscape_short {c letter : Char} (h : shortEscape? letter = some c)
    (hletter : letter ≠ 'u') (rest : List Char) :
    Scans (scanEscape (letter :: rest)) (.char c) rest := by
  refine ⟨⟨rest, Nat.lt_succ_self _⟩, ?_, rfl⟩
  rw [scanEscape]
  · rw [h]
  · exact hletter

/-- A character is escaped by a letter, by its number, or not at all. -/
theorem escapedChar_cases (c : Char) :
    (∃ letter, letter ≠ 'u' ∧ shortEscape? letter = some c ∧ escapedChar c = ['\\', letter]) ∨
      (c.toNat < 0x20 ∧ escapedChar c =
        ['\\', 'u', '0', '0', Nat.digitChar (c.toNat / 16), Nat.digitChar (c.toNat % 16)]) ∨
      (¬c.toNat < 0x20 ∧ c ≠ '"' ∧ c ≠ '\\' ∧ escapedChar c = [c]) := by
  rw [escapedChar]
  split_ifs with hquote hbackslash hnewline hreturn htab hbackspace hfeed hcontrol
  · exact .inl ⟨'"', by decide, by rw [hquote]; rfl, rfl⟩
  · exact .inl ⟨'\\', by decide, by rw [hbackslash]; rfl, rfl⟩
  · exact .inl ⟨'n', by decide, by rw [hnewline]; rfl, rfl⟩
  · exact .inl ⟨'r', by decide, by rw [hreturn]; rfl, rfl⟩
  · exact .inl ⟨'t', by decide, by rw [htab]; rfl, rfl⟩
  · exact .inl ⟨'b', by decide, by rw [hbackspace]; rfl, rfl⟩
  · exact .inl ⟨'f', by decide, by rw [hfeed]; rfl, rfl⟩
  · exact .inr (.inl ⟨hcontrol, rfl⟩)
  · exact .inr (.inr ⟨hcontrol, hquote, hbackslash, rfl⟩)

theorem scanFrom_escapedChar (c : Char) (rest done : List Char) :
    scanFrom (escapedChar c ++ rest) (.ok done) = scanFrom rest (.ok (c :: done)) := by
  obtain ⟨letter, hletter, hshort, h⟩ | ⟨hcontrol, h⟩ | ⟨hplain, hquote, hbackslash, h⟩ :=
    escapedChar_cases c
  · rw [h]
    exact scanFrom_escape (.ok done) (scanEscape_short hshort hletter rest)
  · rw [h]
    exact scanFrom_escape (.ok done) (scanEscape_control hcontrol rest)
  · rw [h, List.singleton_append, scanFrom]
    · exact if_neg hplain
    · exact hquote
    · exact hbackslash

theorem scanFrom_flatMap_escapedChar (cs rest done : List Char) :
    scanFrom (cs.flatMap escapedChar ++ '"' :: rest) (.ok done) =
      .ok (.ok (String.ofList (done.reverse ++ cs)), rest) := by
  induction cs generalizing done with
  | nil =>
    rw [List.flatMap_nil, List.nil_append, List.append_nil, scanFrom]
    rfl
  | cons c cs ih =>
    rw [List.flatMap_cons, List.append_assoc, scanFrom_escapedChar, ih, List.reverse_cons,
      List.append_assoc, List.singleton_append]

/-- What is written between quotes is read as the string. -/
theorem scan_escaped (s : String) (rest : List Char) :
    Scans (scan (s.toList.flatMap escapedChar ++ '"' :: rest)) (.ok s) rest := by
  have hscan := scanFrom_flatMap_escapedChar s.toList rest []
  rw [List.reverse_nil, List.nil_append, String.ofList_toList] at hscan
  rw [scan]
  split
  · rename_i text r h
    obtain ⟨rfl, rfl⟩ := Prod.mk.inj (Except.ok.inj (h.symm.trans hscan))
    exact ⟨_, rfl, rfl⟩
  · rename_i b h
    rw [hscan] at h
    contradiction

end StringLiteral

end TieredCache.Json
