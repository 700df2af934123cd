import Mathlib.Data.List.FinRange
import Mathlib.Data.List.Nodup
import TieredCache.Adjacency

/-!
# Neighbours of points of a grid

A cell has two coordinates and a voxel has three. What is said of their neighbours holds in any
number of dimensions: a step moves one coordinate by one and leaves the others, so a neighbour shows
the axis along which it lies, and the way back is a step as well.
-/

namespace TieredCache

namespace Adjacency

/-- A point of a grid, with a coordinate for each axis. -/
abbrev Point (axes : Nat) := Fin axes → Int32

/-! ### Steps of a coordinate -/

theorem gridMin_le_toInt (c : Int32) : gridMin ≤ c.toInt :=
  c.le_toInt

theorem toInt_le_gridMax (c : Int32) : c.toInt ≤ gridMax :=
  Int.lt_add_one_iff.1 c.toInt_lt

/-- Seen as integers, the steps of a coordinate are not wrapped around. -/
theorem map_toInt_gridSteps (c : Int32) :
    (gridSteps c).map Int32.toInt = steps gridMin gridMax c.toInt := by
  have hback : ∀ n ∈ steps gridMin gridMax c.toInt, (Int32.toInt ∘ Int32.ofInt) n = id n := by
    intro n hn
    obtain ⟨-, hleast, hgreatest⟩ := (mem_steps_iff _ _ _ n).1 hn
    exact Int32.toInt_ofInt_of_le hleast (Int.lt_add_one_of_le hgreatest)
  rw [gridSteps, List.map_map, List.map_congr_left hback, List.map_id]

theorem mem_gridSteps_iff (c d : Int32) :
    d ∈ gridSteps c ↔ (d.toInt - c.toInt).natAbs = 1 := by
  have hinjective : Function.Injective Int32.toInt := fun _ _ => Int32.toInt_inj.1
  have hleast := gridMin_le_toInt d
  have hgreatest := toInt_le_gridMax d
  rw [← List.mem_map_of_injective hinjective, map_toInt_gridSteps, mem_steps_iff]
  omega

theorem pairwise_gridSteps (c : Int32) :
    (gridSteps c).Pairwise fun d e => d.toInt < e.toInt := by
  rw [← List.pairwise_map, map_toInt_gridSteps]
  exact pairwise_steps _ _ _

/-! ### Steps of a point -/

variable {axes : Nat} {i j : Fin axes} {p q r : Point axes}

/-- Two points that differ along one axis only, and there by one. -/
structure StepsAlong (i : Fin axes) (p q : Point axes) : Prop where
  by_one : ((q i).toInt - (p i).toInt).natAbs = 1
  beside : ∀ j, j ≠ i → q j = p j

theorem StepsAlong.symm (h : StepsAlong i p q) : StepsAlong i q p where
  by_one := by
    have := h.by_one
    omega
  beside j hj := (h.beside j hj).symm

theorem StepsAlong.axis_unique (hi : StepsAlong i p q) (hj : StepsAlong j p q) : i = j := by
  by_contra hne
  have hone := hi.by_one
  rw [hj.beside i hne, Int.sub_self] at hone
  exact absurd hone (by decide)

/-- From a limit a step leads away, and not to the other limit. -/
theorem StepsAlong.from_limit (h : StepsAlong i p q) :
    ((p i).toInt = gridMin → (q i).toInt = gridMin + 1) ∧
      ((p i).toInt = gridMax → (q i).toInt = gridMax - 1) := by
  have hone := h.by_one
  have hleast := gridMin_le_toInt (q i)
  have hgreatest := toInt_le_gridMax (q i)
  omega

theorem stepsAlong_update {c : Int32} (hc : c ∈ gridSteps (p i)) :
    StepsAlong i p (Function.update p i c) where
  by_one := by
    rw [Function.update_self]
    exact (mem_gridSteps_iff _ c).1 hc
  beside j hj := Function.update_of_ne hj c p

namespace Point

/-- The points one step away, axis by axis and the lower one first. -/
def neighbours (p : Point axes) : List (Point axes) :=
  (List.finRange axes).flatMap fun i => (gridSteps (p i)).map (Function.update p i)

/-- Two points one step away from a third one, the first along an earlier axis, or along the same
one and lower. -/
def Precedes (p q r : Point axes) : Prop :=
  ∃ i j, StepsAlong i p q ∧ StepsAlong j p r ∧ (i < j ∨ i = j ∧ (q i).toInt < (r i).toInt)

theorem Precedes.ne (h : p.Precedes q r) : q ≠ r := by
  rintro rfl
  obtain ⟨i, j, hi, hj, hlt | ⟨-, hlt⟩⟩ := h
  · exact absurd (hi.axis_unique hj) hlt.ne
  · exact absurd hlt (Int.lt_irrefl _)

theorem mem_neighbours_iff (p q : Point axes) : q ∈ p.neighbours ↔ ∃ i, StepsAlong i p q := by
  simp only [neighbours, List.mem_flatMap, List.mem_finRange, true_and, List.mem_map]
  refine exists_congr fun i => ⟨?_, fun h => ?_⟩
  · rintro ⟨c, hc, rfl⟩
    exact stepsAlong_update hc
  · refine ⟨q i, (mem_gridSteps_iff _ _).2 h.by_one, ?_⟩
    rw [Function.update_eq_iff]
    exact ⟨rfl, fun j hj => (h.beside j hj).symm⟩

theorem pairwise_neighbours (p : Point axes) : p.neighbours.Pairwise p.Precedes := by
  rw [neighbours, List.pairwise_flatMap]
  -- Along one axis the coordinates decide, and between two axes their order does.
  constructor
  · intro i _
    rw [List.pairwise_map]
    refine (pairwise_gridSteps (p i)).imp_of_mem fun {c d} hc hd hlt => ?_
    refine ⟨i, i, stepsAlong_update hc, stepsAlong_update hd, .inr ⟨rfl, ?_⟩⟩
    rwa [Function.update_self, Function.update_self]
  · refine (List.pairwise_lt_finRange axes).imp fun {i j} hlt q hq r hr => ?_
    obtain ⟨c, hc, rfl⟩ := List.mem_map.1 hq
    obtain ⟨d, hd, rfl⟩ := List.mem_map.1 hr
    exact ⟨i, j, stepsAlong_update hc, stepsAlong_update hd, .inl hlt⟩

theorem nodup_neighbours (p : Point axes) : p.neighbours.Nodup :=
  p.pairwise_neighbours.imp Precedes.ne

end Point

/-! ### Keys with coordinates -/

/-- Keys that are known by their coordinates, with neighbours that have one of these replaced. -/
structure OnGrid {K : Type} [Adjacent K] (coordinates : K → Point axes)
    (replace : K → Fin axes → Int32 → K) : Prop where
  injective : Function.Injective coordinates
  coordinates_replace : ∀ k i c, coordinates (replace k i c) = Function.update (coordinates k) i c
  adjacent_eq : ∀ k, Adjacent.adjacent k =
    (List.finRange axes).flatMap fun i => (gridSteps (coordinates k i)).map (replace k i)

/-- The neighbours of a key are the keys that differ from it along one axis, and there by one as
integers. Each is listed once, axis by axis and the lower one first, and the key is a neighbour of
all of them. -/
structure UnitSteps {K : Type} [Adjacent K] (coordinates : K → Point axes) (k : K) : Prop where
  mem_iff : ∀ n, n ∈ Adjacent.adjacent k ↔ ∃ i, StepsAlong i (coordinates k) (coordinates n)
  limits : ∀ n ∈ Adjacent.adjacent k, ∀ i, StepsAlong i (coordinates k) (coordinates n) →
    ((coordinates k i).toInt = gridMin → (coordinates n i).toInt = gridMin + 1) ∧
      ((coordinates k i).toInt = gridMax → (coordinates n i).toInt = gridMax - 1)
  nodup : (Adjacent.adjacent k).Nodup
  sorted : (Adjacent.adjacent k).Pairwise fun m n =>
    (coordinates k).Precedes (coordinates m) (coordinates n)
  symmetric : ∀ n, n ∈ Adjacent.adjacent k ↔ k ∈ Adjacent.adjacent n

namespace OnGrid

variable {K : Type} [Adjacent K] {coordinates : K → Point axes} {replace : K → Fin axes → Int32 → K}

theorem map_adjacent (h : OnGrid coordinates replace) (k : K) :
    (Adjacent.adjacent k).map coordinates = (coordinates k).neighbours := by
  rw [h.adjacent_eq, List.map_flatMap]
  simp only [List.map_map, Function.comp_def, h.coordinates_replace]
  rfl

theorem mem_adjacent_iff (h : OnGrid coordinates replace) (k n : K) :
    n ∈ Adjacent.adjacent k ↔ ∃ i, StepsAlong i (coordinates k) (coordinates n) := by
  rw [← List.mem_map_of_injective h.injective, h.map_adjacent, Point.mem_neighbours_iff]

theorem unitSteps (h : OnGrid coordinates replace) (k : K) : UnitSteps coordinates k where
  mem_iff := h.mem_adjacent_iff k
  limits _ _ _ hstep := hstep.from_limit
  nodup := by
    apply List.Nodup.of_map coordinates
    rw [h.map_adjacent]
    exact Point.nodup_neighbours _
  sorted := by
    rw [← List.pairwise_map, h.map_adjacent]
    exact Point.pairwise_neighbours _
  symmetric n := by
    rw [h.mem_adjacent_iff, h.mem_adjacent_iff]
    exact exists_congr fun i => ⟨StepsAlong.symm, StepsAlong.symm⟩

end OnGrid

end Adjacency

open Adjacency

namespace Cell

def coordinates (k : Cell) : Point 2
  | 0 => k.x
  | 1 => k.y

def replace (k : Cell) : Fin 2 → Int32 → Cell
  | 0, c => { k with x := c }
  | 1, c => { k with y := c }

theorem onGrid : OnGrid coordinates replace where
  injective := by
    rintro ⟨x, y⟩ ⟨x', y'⟩ h
    obtain rfl : x = x' := congrFun h 0
    obtain rfl : y = y' := congrFun h 1
    rfl
  coordinates_replace k
    | 0, c => funext fun | 0 => rfl | 1 => rfl
    | 1, c => funext fun | 0 => rfl | 1 => rfl
  adjacent_eq k := by
    change _ ++ _ = _ ++ (_ ++ [])
    rw [List.append_nil]
    rfl

end Cell

namespace Voxel

def coordinates (k : Voxel) : Point 3
  | 0 => k.x
  | 1 => k.y
  | 2 => k.z

def replace (k : Voxel) : Fin 3 → Int32 → Voxel
  | 0, c => { k with x := c }
  | 1, c => { k with y := c }
  | 2, c => { k with z := c }

theorem onGrid : OnGrid coordinates replace where
  injective := by
    rintro ⟨x, y, z⟩ ⟨x', y', z'⟩ h
    obtain rfl : x = x' := congrFun h 0
    obtain rfl : y = y' := congrFun h 1
    obtain rfl : z = z' := congrFun h 2
    rfl
  coordinates_replace k
    | 0, c => funext fun | 0 => rfl | 1 => rfl | 2 => rfl
    | 1, c => funext fun | 0 => rfl | 1 => rfl | 2 => rfl
    | 2, c => funext fun | 0 => rfl | 1 => rfl | 2 => rfl
  adjacent_eq k := by
    change (_ ++ _) ++ _ = _ ++ (_ ++ (_ ++ []))
    rw [List.append_nil, List.append_assoc]
    rfl

end Voxel

namespace Adjacency

/-- Cells and voxels have the neighbours that lie one step away along one axis, and no others. -/
theorem neighbours_by_unit_steps :
    (∀ k : Cell, UnitSteps Cell.coordinates k) ∧ ∀ k : Voxel, UnitSteps Voxel.coordinates k :=
  ⟨Cell.onGrid.unitSteps, Voxel.onGrid.unitSteps⟩

/-- Beyond a limit there is no neighbour. -/
example : Adjacent.adjacent (⟨-2147483648, 7, 2147483647⟩ : Voxel) =
    [⟨-2147483647, 7, 2147483647⟩, ⟨-2147483648, 6, 2147483647⟩, ⟨-2147483648, 8, 2147483647⟩,
      ⟨-2147483648, 7, 2147483646⟩] := by
  decide

end Adjacency

end TieredCache
