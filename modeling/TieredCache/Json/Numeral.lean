import TieredCache.Json.Fault
import TieredCache.Json.Value

/-!
# JSON numerals

A numeral is scanned first and evaluated afterwards. Where the scan stops because the text is no
numeral, one who reads the number and one who only skips it can see different faults.
-/

namespace TieredCache.Json

/-- What is left of a text once something has been read from its front. -/
abbrev Shorter (s : List Char) := { r : List Char // r.length < s.length }

/-- What is left of a text is left of it with one more character in front as well. -/
def Shorter.cons {s : List Char} (rest : Shorter s) {c : Char} : Shorter (c :: s) :=
  ⟨rest.1, Nat.lt_succ_of_lt rest.2⟩

/-- A numeral: sign, whole part, fraction and the exponent with its sign. -/
structure Numeral where
  negative : Bool
  whole : List Char
  fraction : Option (List Char)
  exponent : Option (Bool × List Char)
  deriving DecidableEq, Repr

namespace Numeral

/-- Where a digit is missing. Only a reader tells the end of the text from other characters. -/
def missingDigit (rest : List Char) : Breakage :=
  let invalid := Cause.invalidNumber.on rest
  if rest.isEmpty then ⟨Cause.endInValue.atEnd, invalid⟩ else .both invalid

/-- The digits at the front of a text, at least one, and what follows them. -/
def scanDigits (s : List Char) : Except Breakage (List Char × Shorter s) :=
  match s with
  | [] => .error (missingDigit [])
  | c :: r =>
    if c.isDigit then
      .ok (c :: r.takeWhile Char.isDigit,
        ⟨r.dropWhile Char.isDigit, Nat.lt_succ_of_le (List.dropWhile_sublist _).length_le⟩)
    else .error (missingDigit s)

def scanSign (s : List Char) : Bool × { r : List Char // r.length ≤ s.length } :=
  match s with
  | '-' :: r => (true, ⟨r, Nat.le_succ _⟩)
  | '+' :: r => (false, ⟨r, Nat.le_succ _⟩)
  | r => (false, ⟨r, Nat.le_refl _⟩)

def scanFraction (s : List Char) :
    Except Breakage (Option (List Char) × { r : List Char // r.length ≤ s.length }) :=
  match s with
  | '.' :: r => do
    let (digits, rest) ← scanDigits r
    return (some digits, ⟨rest.1, Nat.le_succ_of_le (Nat.le_of_lt rest.2)⟩)
  | r => return (none, ⟨r, Nat.le_refl _⟩)

def scanExponent (s : List Char) :
    Except Breakage (Option (Bool × List Char) × { r : List Char // r.length ≤ s.length }) :=
  match s with
  | [] => return (none, ⟨[], Nat.le_refl _⟩)
  | c :: r =>
    if c = 'e' ∨ c = 'E' then do
      let (negative, signed) := scanSign r
      let (digits, rest) ← scanDigits signed.1
      return (some (negative, digits),
        ⟨rest.1, Nat.le_succ_of_le (Nat.le_trans (Nat.le_of_lt rest.2) signed.2)⟩)
    else return (none, ⟨c :: r, Nat.le_refl _⟩)

/-- The numeral without its sign. A zero in front is alone. -/
def scanUnsigned (negative : Bool) (s : List Char) : Except Breakage (Numeral × Shorter s) := do
  let (whole, rest) ← scanDigits s
  if whole.head? = some '0' ∧ 1 < whole.length then
    .error (.both (Cause.invalidNumber.on s.tail))
  else
    let (fraction, rest₁) ← scanFraction rest.1
    let (exponent, rest₂) ← scanExponent rest₁.1
    return (⟨negative, whole, fraction, exponent⟩,
      ⟨rest₂.1, Nat.lt_of_le_of_lt (Nat.le_trans rest₂.2 rest₁.2) rest.2⟩)

/-- The numeral at the front of a text, and what follows it. -/
def scan (s : List Char) : Except Breakage (Numeral × Shorter s) :=
  match s with
  | '-' :: r => do
    let (numeral, rest) ← scanUnsigned true r
    return (numeral, rest.cons)
  | r => scanUnsigned false r

/-- One more than the largest significand. -/
def significandBound : Nat := UInt64.size

/-- A significand with one more digit, if it still fits. -/
def appendDigit (n : Nat) (c : Char) : Option Nat :=
  let m := Nat.ofDigitChars 10 [c] n
  if m < significandBound then some m else none

/-- Appends whole digits to a significand. Once one does not fit, it and all after it count only as
places. -/
def gatherWhole : List Char → Nat → Nat × Int
  | [], n => (n, 0)
  | c :: rest, n =>
    match appendDigit n c with
    | some m => gatherWhole rest m
    | none => (n, rest.length + 1)

/-- Appends fraction digits to a significand, one place each. Once one does not fit, it and all
after it are dropped. -/
def gatherFraction : List Char → Nat → Int → Nat × Int
  | [], n, e => (n, e)
  | c :: rest, n, e =>
    match appendDigit n c with
    | some m => gatherFraction rest m (e - 1)
    | none => (n, e)

/-- A power of ten, for exponents up to 308. -/
def powerOfTen (k : Nat) : Float := Float.ofScientific 1 false k

/-- Divides by `10 ^ 308` while the exponent is below `-308`. Two divisions leave nothing of a
significand, so three steps are enough. -/
def scaleDown : Nat → Float → Nat → Float
  | 0, x, _ => x
  | steps + 1, x, k =>
    if k ≤ 308 then x / powerOfTen k
    else if x == 0 then x
    else scaleDown steps (x / powerOfTen 308) (k - 308)

/-- A significand times a power of ten, in binary64 arithmetic; `none` beyond its range. -/
def scale (significand : Nat) (e : Int) : Option Float :=
  let x := significand.toUInt64.toFloat
  if e < 0 then some (scaleDown 3 x e.natAbs)
  else if 308 < e then if significand = 0 then some x else none
  else
    let y := x * powerOfTen e.natAbs
    if y.isInf then none else some y

/-- The exponent of ten, held within 32 bits when it is added to the places of the significand. -/
def saturate (e : Int) : Int := max (-2147483648) (min 2147483647 e)

/-- One more than the greatest exponent that is looked at. -/
def exponentBound : Nat := 2147483648

/-- How many digits of an exponent are left when those before them make it too large to be looked
at. -/
def unreadDigits : List Char → Nat → Nat
  | [], _ => 0
  | c :: rest, n =>
    let m := Nat.ofDigitChars 10 [c] n
    if exponentBound ≤ m then rest.length else unreadDigits rest m

/-- The binary64 value of a numeral, `none` when it is out of range. An exponent of more than 31
bits makes it zero or puts it out of range at once. -/
def float? (n : Numeral) : Option Float :=
  let (m₁, e₁) := gatherWhole n.whole 0
  let (m, e) := gatherFraction (n.fraction.getD []) m₁ e₁
  let magnitude :=
    match n.exponent with
    | none => scale m e
    | some (negative, digits) =>
      let k := Nat.ofDigitChars 10 digits 0
      if exponentBound ≤ k then if negative ∨ m = 0 then some 0.0 else none
      else scale m (saturate (if negative then e - k else e + k))
  magnitude.map fun x => if n.negative then -x else x

/-- The number a numeral stands for. Without fraction and exponent it is an integer if it fits 64
bits, with a sign if it has one; all others are binary64 numbers, negative zero among them. -/
def number? (n : Numeral) : Option Number :=
  let whole := Nat.ofDigitChars 10 n.whole 0
  match n.fraction, n.exponent with
  | none, none =>
    if !n.negative ∧ whole < significandBound then some (.integer whole)
    else if n.negative ∧ 0 < whole ∧ whole ≤ 9223372036854775808 then some (.integer (-whole))
    else n.float?.map .float
  | _, _ => n.float?.map .float

/-- The number a numeral stands for, where `rest` is left behind it. That it is out of range is
noticed behind it, or behind the digit of its exponent that puts it there. -/
def number (n : Numeral) (rest : List Char) : Except Fault Number :=
  match n.number? with
  | some x => .ok x
  | none =>
    let unread := n.exponent.elim 0 fun (_, digits) => unreadDigits digits 0
    .error ⟨.numberOutOfRange, byteLength rest + unread⟩

end Numeral

end TieredCache.Json
