/-!
# The three levels of the cache

A level names one tier of the hierarchy. `PerLevel` holds one value for each of them.
-/

namespace TieredCache

/-- The levels, from the smallest and most used tier to the largest and least used one. -/
inductive Level where
  /-- Small and short-lived, for keys that are hit often. -/
  | hot
  /-- For keys with some reuse. -/
  | warm
  /-- Everything else, speculative loads included. -/
  | cold
  deriving DecidableEq, Repr

namespace Level

/-- All levels, hottest first. A lookup probes them in this order. -/
def all : List Level := [.hot, .warm, .cold]

/-- Zero for the hottest level. -/
def index : Level → Nat
  | .hot => 0
  | .warm => 1
  | .cold => 2

def colder : Level → Option Level
  | .hot => some .warm
  | .warm => some .cold
  | .cold => none

def hotter : Level → Option Level
  | .hot => none
  | .warm => some .hot
  | .cold => some .warm

/-- The levels a displaced entry falls through, nearest first. -/
def below : Level → List Level
  | .hot => [.warm, .cold]
  | .warm => [.cold]
  | .cold => []

/-- The levels that a lookup served by this level has probed, itself included. -/
def probed : Level → List Level
  | .hot => [.hot]
  | .warm => [.hot, .warm]
  | .cold => [.hot, .warm, .cold]

/-- Whether the first level lies strictly above the second. -/
def isHotterThan (a b : Level) : Bool :=
  a.index < b.index

instance : Ord Level where
  compare a b := compare a.index b.index

/-- The name used in labels and messages. -/
def name : Level → String
  | .hot => "hot"
  | .warm => "warm"
  | .cold => "cold"

theorem mem_all (l : Level) : l ∈ all := by
  cases l <;> simp [all]

theorem below_eq (l : Level) : l.below = (l.colder.map fun c => c :: c.below).getD [] := by
  cases l <;> rfl

end Level

structure PerLevel (α : Type) where
  hot : α
  warm : α
  cold : α
  deriving DecidableEq, Repr

namespace PerLevel

def get {α : Type} (p : PerLevel α) : Level → α
  | .hot => p.hot
  | .warm => p.warm
  | .cold => p.cold

def set {α : Type} (p : PerLevel α) (l : Level) (a : α) : PerLevel α :=
  match l with
  | .hot => { p with hot := a }
  | .warm => { p with warm := a }
  | .cold => { p with cold := a }

def modify {α : Type} (p : PerLevel α) (l : Level) (f : α → α) : PerLevel α :=
  p.set l (f (p.get l))

def replicate {α : Type} (a : α) : PerLevel α := ⟨a, a, a⟩

def map {α β : Type} (f : α → β) (p : PerLevel α) : PerLevel β :=
  ⟨f p.hot, f p.warm, f p.cold⟩

/-- The values, hottest first. -/
def toList {α : Type} (p : PerLevel α) : List α :=
  [p.hot, p.warm, p.cold]

def sum (p : PerLevel Nat) : Nat :=
  p.hot + p.warm + p.cold

@[simp] theorem get_set_self {α : Type} (p : PerLevel α) (l : Level) (a : α) :
    (p.set l a).get l = a := by
  cases l <;> rfl

theorem get_set_of_ne {α : Type} (p : PerLevel α) {l m : Level} (a : α) (h : m ≠ l) :
    (p.set l a).get m = p.get m := by
  cases l <;> cases m <;> simp_all [get, set]

@[simp] theorem get_map {α β : Type} (f : α → β) (p : PerLevel α) (l : Level) :
    (p.map f).get l = f (p.get l) := by
  cases l <;> rfl

@[simp] theorem get_replicate {α : Type} (a : α) (l : Level) : (replicate a).get l = a := by
  cases l <;> rfl

end PerLevel

end TieredCache
