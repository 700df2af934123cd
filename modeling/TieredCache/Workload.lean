import TieredCache.Adjacency

/-!
# The synthetic workload

The workload looks up points of a grid and computes the values that are missing. A few points near
the origin are asked for much more often than the others.
-/

namespace TieredCache.Workload

/-- One round of mixing: a rotation and a multiplication. -/
def mix (h : UInt64) : UInt64 :=
  ((h <<< 13) ||| (h >>> 51)) * 0xBF58476D1CE4E5B9

/-- The rounds of mixing that make a value expensive. -/
def rounds : Nat := 64

/-- The value of a point, in arithmetic of 64 bits on its sign-extended coordinates. -/
def compute (x z : Int32) : UInt64 :=
  rounds.repeat mix (x.toInt64.toUInt64 * 0x9E3779B97F4A7C15 ^^^ z.toInt64.toUInt64)

/-- The side length of the grid that is sampled, at least one. -/
def side (keySpace : Int) : Nat := max 1 keySpace.toNat

/-- The side length of the part near the origin that most samples come from. -/
def hotSide (keySpace : Int) : Nat := max 1 (side keySpace / 16)

/-- A point of the grid made of three random numbers: four out of five times near the origin. -/
def sample (keySpace : Int) (choice x y : Nat) : Cell :=
  let bound := if choice % 5 < 4 then hotSide keySpace else side keySpace
  ⟨Int32.ofNat (x % bound), Int32.ofNat (y % bound)⟩

end TieredCache.Workload
