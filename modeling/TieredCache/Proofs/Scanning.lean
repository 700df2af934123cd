import Mathlib.Data.List.TakeWhile
import TieredCache.Decimal.Layout

/-!
# Scanning what was written

A scan takes characters of one kind off the front of a text. Where such characters were written, and
then one of another kind, it takes exactly these.
-/

namespace TieredCache

section

variable {p : Char → Bool} {front rest : List Char}

theorem takeWhile_append_of_head (hrest : ∀ c ∈ rest.head?, p c = false) :
    (front ++ rest).takeWhile p = front.takeWhile p := by
  induction front with
  | nil =>
    cases rest with
    | nil => rfl
    | cons c rest => exact List.takeWhile_cons_of_neg (by simp [hrest c rfl])
  | cons c front ih => rw [List.cons_append, List.takeWhile_cons, List.takeWhile_cons, ih]

theorem dropWhile_append_of_head (hrest : ∀ c ∈ rest.head?, p c = false) :
    (front ++ rest).dropWhile p = front.dropWhile p ++ rest := by
  induction front with
  | nil =>
    cases rest with
    | nil => rfl
    | cons c rest => exact List.dropWhile_cons_of_neg (by simp [hrest c rfl])
  | cons c front ih =>
    rw [List.cons_append, List.dropWhile_cons, List.dropWhile_cons, ih]
    split
    · rfl
    · rfl

theorem takeWhile_append_of_stop (hfront : ∀ c ∈ front, p c = true)
    (hrest : ∀ c ∈ rest.head?, p c = false) : (front ++ rest).takeWhile p = front := by
  rw [takeWhile_append_of_head hrest, List.takeWhile_eq_self_iff.2 hfront]

theorem dropWhile_append_of_stop (hfront : ∀ c ∈ front, p c = true)
    (hrest : ∀ c ∈ rest.head?, p c = false) : (front ++ rest).dropWhile p = rest := by
  rw [dropWhile_append_of_head hrest, List.dropWhile_eq_nil_iff.2 hfront, List.nil_append]

end

/-- No piece of a text holds the character at which the text was split. -/
theorem not_mem_of_mem_splitOn {a : Char} {s piece : List Char} (h : piece ∈ s.splitOn a) :
    a ∉ piece := by
  induction s generalizing piece with
  | nil =>
    rw [List.splitOn_nil, List.mem_singleton] at h
    rw [h]
    exact List.not_mem_nil
  | cons c s ih =>
    rw [List.splitOn_cons_eq_if_modifyHead] at h
    by_cases hc : c = a
    · rw [if_pos (beq_iff_eq.2 hc), List.mem_cons] at h
      rcases h with rfl | h
      · exact List.not_mem_nil
      · exact ih h
    · obtain ⟨first, rest, hcons⟩ := List.exists_cons_of_ne_nil (List.splitOn_ne_nil a s)
      rw [if_neg (by simpa using hc), hcons, List.modifyHead_cons, List.mem_cons] at h
      rcases h with rfl | h
      · exact List.not_mem_cons_of_ne_of_not_mem (Ne.symm hc) (ih (hcons ▸ List.mem_cons_self))
      · exact ih (hcons ▸ List.mem_cons_of_mem first h)

namespace Decimal

theorem isDigit_of_mem_toDigits {n : Nat} {c : Char} (hc : c ∈ Nat.toDigits 10 n) :
    c.isDigit = true :=
  Nat.isDigit_of_mem_toDigits (by decide) (by decide) hc

/-- Only zero is written with a zero in front. -/
theorem head?_toDigits_ne_zero {n : Nat} (hn : 0 < n) : (Nat.toDigits 10 n).head? ≠ some '0' := by
  induction n using Nat.strongRecOn with
  | ind n ih =>
    by_cases hsmall : n < 10
    · rw [Nat.toDigits_of_lt_base hsmall]
      have hdigits : ∀ m < 10, 0 < m → Nat.digitChar m ≠ '0' := by decide
      simpa using hdigits n hsmall hn
    · rw [Nat.toDigits_of_base_le (by decide) (by omega)]
      obtain ⟨c, digits, hcons⟩ := List.exists_cons_of_ne_nil (Nat.toDigits_ne_nil (n := n / 10))
      have hprefix := ih (n / 10) (by omega) (by omega)
      rw [hcons] at hprefix ⊢
      exact hprefix

theorem digitChar_of_isDigit {c : Char} (hc : c.isDigit = true) :
    c.toNat - '0'.toNat < 10 ∧ Nat.digitChar (c.toNat - '0'.toNat) = c := by
  rw [Char.isDigit, Bool.and_eq_true, decide_eq_true_iff, decide_eq_true_iff] at hc
  have hleast : '0'.toNat ≤ c.toNat := hc.1
  have hgreatest : c.toNat ≤ '9'.toNat := hc.2
  have hsmall : c.toNat - '0'.toNat < 10 := by
    simp only [show '0'.toNat = 48 from rfl, show '9'.toNat = 57 from rfl] at *
    omega
  refine ⟨hsmall, Char.toNat_inj.1 ?_⟩
  rw [Nat.toNat_digitChar_of_lt_ten hsmall]
  exact Nat.add_sub_cancel' hleast

/-- Digits behind those of a number that is not zero are the last ones of a greater number. -/
theorem toDigits_append {s : List Char} (hs : ∀ c ∈ s, c.isDigit = true) {n : Nat} (hn : 0 < n) :
    Nat.toDigits 10 n ++ s = Nat.toDigits 10 (Nat.ofDigitChars 10 s n) := by
  induction s generalizing n with
  | nil => rw [List.append_nil, Nat.ofDigitChars_nil]
  | cons c s ih =>
    obtain ⟨hsmall, hchar⟩ := digitChar_of_isDigit (hs c List.mem_cons_self)
    have hlast : Nat.toDigits 10 n ++ [c] = Nat.toDigits 10 (10 * n + (c.toNat - '0'.toNat)) := by
      rw [← Nat.toDigits_append_toDigits (by decide) hn hsmall, Nat.toDigits_of_lt_base hsmall,
        hchar]
    rw [Nat.ofDigitChars_cons, ← ih (fun d hd => hs d (List.mem_cons_of_mem c hd)) (by omega),
      ← hlast, List.append_assoc, List.singleton_append]

/-- A number is written with the digits that it was read from, unless they begin with a zero. -/
theorem toDigits_ofDigitChars {s : List Char} (hs : ∀ c ∈ s, c.isDigit = true) (hne : s ≠ [])
    (hzero : s.head? = some '0' → s = ['0']) : Nat.toDigits 10 (Nat.ofDigitChars 10 s 0) = s := by
  obtain ⟨c, s, rfl⟩ := List.exists_cons_of_ne_nil hne
  by_cases hc : c = '0'
  · rw [hzero (congrArg some hc)]
    rfl
  · obtain ⟨hsmall, hchar⟩ := digitChar_of_isDigit (hs c List.mem_cons_self)
    have hpos : 0 < c.toNat - '0'.toNat := by
      rw [Nat.pos_iff_ne_zero]
      intro h
      rw [h] at hchar
      exact hc hchar.symm
    rw [Nat.ofDigitChars_cons, Nat.mul_zero, Nat.zero_add,
      ← toDigits_append (fun d hd => hs d (List.mem_cons_of_mem c hd)) hpos,
      Nat.toDigits_of_lt_base hsmall, hchar, List.singleton_append]

theorem toList_integerText_ofNat (n : Nat) :
    (integerText (Int.ofNat n)).toList = Nat.toDigits 10 n := by
  rw [integerText, if_neg (by simp), naturalText, String.toList_ofList]
  rfl

theorem toList_integerText_negSucc (n : Nat) :
    (integerText (Int.negSucc n)).toList = '-' :: Nat.toDigits 10 (n + 1) := by
  rw [integerText, if_pos (Int.negSucc_lt_zero n), naturalText, String.toList_append,
    String.toList_ofList, String.toList_ofList]
  rfl

end Decimal

end TieredCache
