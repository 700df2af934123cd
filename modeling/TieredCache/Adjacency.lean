import TieredCache.Decimal.Layout

/-!
# Adjacent keys

Keys have neighbours: the keys one step away in one coordinate. The neighbours of a key are listed
coordinate by coordinate, the lower one first, and steps beyond the range of a coordinate are left
out.
-/

namespace TieredCache

/-- Keys that have neighbours. -/
class Adjacent (K : Type) where
  adjacent : K → List K

structure Cell where
  x : Int32
  y : Int32
  deriving DecidableEq

structure Voxel where
  x : Int32
  y : Int32
  z : Int32
  deriving DecidableEq

instance : Ord Cell where
  compare a b := (compare a.x.toInt b.x.toInt).then (compare a.y.toInt b.y.toInt)

instance : Ord Voxel where
  compare a b :=
    ((compare a.x.toInt b.x.toInt).then (compare a.y.toInt b.y.toInt)).then
      (compare a.z.toInt b.z.toInt)

namespace Adjacency

def gridMin : Int := -2147483648

def gridMax : Int := 2147483647

/-- The integers one step below and above another, as far as they lie within bounds. -/
def steps (least greatest n : Int) : List Int :=
  [n - 1, n + 1].filter fun m => least ≤ m && m ≤ greatest

theorem mem_steps_iff (least greatest n m : Int) :
    m ∈ steps least greatest n ↔ (m = n - 1 ∨ m = n + 1) ∧ least ≤ m ∧ m ≤ greatest := by
  simp [steps]

theorem pairwise_steps (least greatest n : Int) : (steps least greatest n).Pairwise (· < ·) := by
  apply List.Pairwise.filter
  rw [List.pairwise_pair]
  omega

/-- The coordinates one step below and above another, as far as there are such. -/
def gridSteps (c : Int32) : List Int32 :=
  (steps gridMin gridMax c.toInt).map Int32.ofInt

end Adjacency

open Adjacency

instance : Adjacent Cell where
  adjacent p :=
    (gridSteps p.x).map (fun x => { p with x }) ++
      (gridSteps p.y).map fun y => { p with y }

instance : Adjacent Voxel where
  adjacent p :=
    (gridSteps p.x).map (fun x => { p with x }) ++
      (gridSteps p.y).map (fun y => { p with y }) ++
      (gridSteps p.z).map fun z => { p with z }

namespace Adjacency

/-- The character between the segments of a key. -/
def separator : Char := ':'

def segmentMin : Int := -9223372036854775808

def segmentMax : Int := 9223372036854775807

/-- The number written by some digits, at least one. -/
def natural? (s : List Char) : Option Nat :=
  if s.isEmpty || s.any fun c => !c.isDigit then none
  else some (Nat.ofDigitChars 10 s 0)

def signed? : List Char → Option Int
  | '-' :: digits => (natural? digits).map fun n => -(n : Int)
  | '+' :: digits => (natural? digits).map Int.ofNat
  | digits => (natural? digits).map Int.ofNat

/-- The integer of 64 bits that a segment stands for, if any. -/
def integer? (s : List Char) : Option Int :=
  (signed? s).filter fun n => segmentMin ≤ n && n ≤ segmentMax

/-- The segments next to one that stands for an integer. -/
def segmentSteps (s : List Char) : List (List Char) :=
  match integer? s with
  | none => []
  | some n => (steps segmentMin segmentMax n).map fun m => (Decimal.integerText m).toList

/-- All ways to take one step in one of the segments after `before`. -/
def segmentNeighbours (before : List (List Char)) : List (List Char) → List (List (List Char))
  | [] => []
  | s :: after =>
    (segmentSteps s).map (fun t => before ++ t :: after) ++
      segmentNeighbours (before ++ [s]) after

end Adjacency

instance : Adjacent String where
  adjacent key :=
    (segmentNeighbours [] (key.toList.splitOn separator)).map fun s =>
      String.ofList ([separator].intercalate s)

end TieredCache
