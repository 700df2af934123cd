import TieredCache.Hierarchy

/-!
# The auto-tuner

Each pass looks at the lookups since the previous one. A tier that serves a large part of its probes
grows by one step, a tier that serves few of them shrinks by one, always within the bounds of its
configuration.
-/

namespace TieredCache

/-- A change of capacity, with the hit rate that called for it. -/
structure CapacityChange where
  level : Level
  before : Nat
  after : Nat
  hitRate : Float

/-- A tuner, with the counters as they were at its last pass. -/
structure Tuner where
  settings : AutoTuneSettings
  marks : PerLevel TierCounters

namespace Tuner

variable {K V : Type}

/-- A tuner whose first window starts now. -/
def new (settings : AutoTuneSettings) (h : Hierarchy K V) : Tuner :=
  ⟨settings, h.counters.tiers⟩

/-- The number of entries by which a capacity changes in one pass: a fraction of it, rounded up, and
at least one. -/
def step (fraction : Float) (capacity : Nat) : Nat :=
  max 1 (Float.ofNat capacity * fraction).ceil.toUInt64.toNat

/-- The capacity to change to, if any. -/
def target? (s : AutoTuneSettings) (limits : TierLimits) (step capacity : Nat) (hitRate : Float) :
    Option Nat :=
  if s.expandThreshold < hitRate ∧ capacity < limits.maxCapacity then
    some (min (capacity + step) limits.maxCapacity)
  else if hitRate < s.shrinkThreshold ∧ limits.minCapacity < capacity then
    some (max (capacity - step) limits.minCapacity)
  else none

variable [DecidableEq K]

/-- Looks at one tier: its window ends, and its capacity may change. -/
def tuneTier (u : Tuner) (h : Hierarchy K V) (l : Level) (now : Int) :
    Option CapacityChange × Tuner × Hierarchy K V :=
  let counters := h.counters.tiers.get l
  let window := counters.since (u.marks.get l)
  let u := { u with marks := u.marks.set l counters }
  if window.probes < u.settings.minSamples then (none, u, h)
  else
    let hitRate := window.hitRate
    let before := (h.tier l).capacity.value
    let target := target? u.settings (h.config.tiers.get l) (step u.settings.stepFraction before)
      before hitRate
    match target.bind Capacity.ofNat? with
    | none => (none, u, h)
    | some after => (some ⟨l, before, after.value, hitRate⟩, u, (h.resizeTier l after now).2)

def tuneTiers (now : Int) : List Level → Tuner → Hierarchy K V →
    List CapacityChange × Tuner × Hierarchy K V
  | [], u, h => ([], u, h)
  | l :: rest, u, h =>
    let (change, u, h) := u.tuneTier h l now
    let (changes, u, h) := tuneTiers now rest u h
    (change.toList ++ changes, u, h)

/-- One pass over all tiers, hottest first. Returns the changes. -/
def tune (u : Tuner) (h : Hierarchy K V) (now : Int) :
    List CapacityChange × Tuner × Hierarchy K V :=
  tuneTiers now Level.all u h

end Tuner

end TieredCache
