import TieredCache.Decimal.Shortest

/-!
# Layouts of decimals

A layout says how a decimal is written: positionally or with an exponent, and whether a whole
number keeps a fraction.
-/

namespace TieredCache.Decimal

/-- How a decimal is written. -/
structure Layout where
  /-- The least and the greatest decimal exponent of the first digit for which the number is written
  positionally; with `none` every number is. -/
  positional : Option (Int × Int)
  /-- Whether a whole number written positionally ends in `.0`. -/
  wholeFraction : Bool
  /-- Which of two equally near decimals of the fewest digits is written. -/
  tie : Tie

/-- Positional at every size, whole numbers without a fraction, ties away from zero. -/
def plain : Layout := ⟨none, false, .up⟩

def naturalText (n : Nat) : String :=
  String.ofList (Nat.toDigits 10 n)

/-- A decimal integer, with a minus sign when it is negative. -/
def integerText (n : Int) : String :=
  if n < 0 then "-" ++ naturalText n.natAbs else naturalText n.natAbs

/-- The digits `digits` times `10 ^ k` without an exponent. -/
def positionalText (wholeFraction : Bool) (digits : List Char) (k : Int) : List Char :=
  if 0 ≤ k then
    digits ++ List.replicate k.toNat '0' ++ (if wholeFraction then ['.', '0'] else [])
  else if (-k).toNat < digits.length then
    let whole := digits.length - (-k).toNat
    digits.take whole ++ '.' :: digits.drop whole
  else
    '0' :: '.' :: List.replicate ((-k).toNat - digits.length) '0' ++ digits

/-- The digits with a point after the first one, then the exponent `e` with its sign. -/
def exponentText (digits : List Char) (e : Int) : List Char :=
  let fraction := if digits.length ≤ 1 then [] else '.' :: digits.drop 1
  digits.take 1 ++ fraction ++ 'e' :: (if e < 0 then '-' else '+') :: Nat.toDigits 10 e.natAbs

/-- A positive decimal in a layout. -/
def Layout.magnitude (l : Layout) (d : Scientific) : List Char :=
  let digits := Nat.toDigits 10 d.coefficient
  let e := d.exponent + digits.length - 1
  match l.positional with
  | none => positionalText l.wholeFraction digits d.exponent
  | some (least, greatest) =>
    if least ≤ e ∧ e ≤ greatest then positionalText l.wholeFraction digits d.exponent
    else exponentText digits e

/-- A finite binary64 number by its shortest decimal; zero keeps its sign. -/
def Layout.finite (l : Layout) (negative : Bool) (magnitude : Option Binary) : String :=
  let sign := if negative then ['-'] else []
  let body :=
    match magnitude with
    | none => if l.wholeFraction then ['0', '.', '0'] else ['0']
    | some b => l.magnitude (shortest l.tie b)
  String.ofList (sign ++ body)

/-- The text of a finite number, and `none` for the others. -/
def Layout.text? (l : Layout) (x : Float) : Option String :=
  match Binary64.ofFloat x with
  | .finite negative magnitude => some (l.finite negative magnitude)
  | _ => none

/-- The positional text of any number. The sign of a number that is not one is not written. -/
def plainText (x : Float) : String :=
  match Binary64.ofFloat x with
  | .nan => "NaN"
  | .infinite negative => if negative then "-inf" else "inf"
  | .finite negative magnitude => plain.finite negative magnitude

end TieredCache.Decimal
