/-!
# Shortest decimals

The shortest decimal of a binary floating-point number is the one on the coarsest decimal grid that
still reads back as the number. All arithmetic is exact, on natural numbers.
-/

namespace TieredCache.Decimal

/-- The positive number `mantissa * 2 ^ exponent` of a binary format. Its neighbours of the same
exponent are one unit of the mantissa away; below a power of two the lower one is half as far. -/
structure Binary where
  mantissa : Nat
  exponent : Int
  closerBelow : Bool
  deriving DecidableEq, Repr

/-- The number `coefficient * 10 ^ exponent`. -/
structure Scientific where
  coefficient : Nat
  exponent : Int
  deriving DecidableEq, Repr

/-- What a binary64 number is: its sign and, unless it is zero, its magnitude. -/
inductive Binary64 where
  | nan
  | infinite (negative : Bool)
  | finite (negative : Bool) (magnitude : Option Binary)
  deriving DecidableEq, Repr

/-- The bit of a normal mantissa that the interchange format leaves out. -/
def hiddenBit : Nat := 1 <<< 52

def Binary64.ofFloat (x : Float) : Binary64 :=
  let bits := x.toBits.toNat
  let negative := bits >>> 63 = 1
  let biased : Nat := (bits >>> 52) % 2048
  let fraction : Nat := bits % hiddenBit
  if biased = 2047 then
    if fraction = 0 then .infinite negative else .nan
  else if biased = 0 then
    if fraction = 0 then .finite negative none
    else .finite negative (some ⟨fraction, -1074, false⟩)
  else
    .finite negative
      (some ⟨hiddenBit + fraction, (biased : Int) - 1075, fraction = 0 && biased ≠ 1⟩)

/-- Which of two multiples is taken when both are equally near. -/
inductive Tie where
  | toEven
  | up
  deriving DecidableEq, Repr

def Tie.takesLower : Tie → Nat → Bool
  | .toEven, c => c % 2 = 0
  | .up, _ => false

/-- The multiple of `10 ^ k` nearest to a number, as a count of `10 ^ k`, if it rounds to that
number. The numbers that do lie at most half a gap away; at exactly half a gap only those next to an
even mantissa count.

The gaps are measured in quarters of the mantissa's unit, and both sides of each comparison are
multiplied by the powers of two and ten that would otherwise divide. -/
def onGrid (tie : Tie) (b : Binary) (k : Int) : Option Nat :=
  let scale := Nat.pow 2 (b.exponent - 2).toNat * Nat.pow 10 (-k).toNat
  let unit := Nat.pow 2 (2 - b.exponent).toNat * Nat.pow 10 k.toNat
  let value := 4 * b.mantissa * scale
  let low := (4 * b.mantissa - (if b.closerBelow then 1 else 2)) * scale
  let high := (4 * b.mantissa + 2) * scale
  let roundsBack (c : Nat) : Bool :=
    if b.mantissa % 2 = 0 then low ≤ c * unit && c * unit ≤ high
    else low < c * unit && c * unit < high
  let c := value / unit
  match roundsBack c, roundsBack (c + 1) with
  | true, true =>
    let below := value - c * unit
    let above := (c + 1) * unit - value
    some (if below < above || (below = above && tie.takesLower c) then c else c + 1)
  | true, false => some c
  | false, true => some (c + 1)
  | false, false => none

/-- The decimal on the coarsest of `n` grids, the first of which has the unit `10 ^ k`. -/
def coarsest (tie : Tie) (b : Binary) : Nat → Int → Scientific
  | 0, k => ⟨(b.mantissa <<< b.exponent.toNat) * Nat.pow 10 (-k).toNat >>> (-b.exponent).toNat, k⟩
  | n + 1, k =>
    match onGrid tie b k with
    | some c => ⟨c, k⟩
    | none => coarsest tie b n (k - 1)

/-- A power of ten above the number: `30103 / 100000` is a little more than the logarithm of two. -/
def firstGrid (b : Binary) : Int :=
  ((Nat.log2 b.mantissa : Int) + 1 + b.exponent) * 30103 / 100000 + 1

/-- The shortest decimal that reads back as the number. Seventeen digits always do, so the grids
searched include one with a hit. -/
def shortest (tie : Tie) (b : Binary) : Scientific :=
  coarsest tie b 40 (firstGrid b)

end TieredCache.Decimal
