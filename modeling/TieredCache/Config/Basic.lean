import TieredCache.Level
import TieredCache.Time

/-!
# Configuration

The settings of a cache, with their defaults. Counts are natural numbers of 64 bits, fractions and
thresholds are binary64 numbers.
-/

namespace TieredCache

structure TierLimits where
  /-- The capacity below which the tier is never tuned. -/
  minCapacity : Nat
  /-- The capacity at the start. -/
  capacity : Nat
  /-- The capacity above which the tier is never tuned. -/
  maxCapacity : Nat
  /-- Entries of a greater age count as absent. -/
  ttl : Nat
  deriving DecidableEq, Repr

/-- Limits that leave nothing to tune. -/
def TierLimits.fixed (capacity : Nat) (ttl : Nat) : TierLimits :=
  ⟨capacity, capacity, capacity, ttl⟩

def TierLimits.standard : Level → TierLimits
  | .hot => ⟨256, 1000, 4096, Duration.ofSeconds 30⟩
  | .warm => ⟨2000, 10000, 40000, Duration.ofSeconds (5 * 60)⟩
  | .cold => ⟨20000, 100000, 400000, Duration.ofSeconds (30 * 60)⟩

/-- When a key earns a tier: it must have been accessed more often than the least frequency, and at
most the recency ago. -/
structure Migration where
  hotMinFrequency : Nat := 10
  hotRecency : Nat := Duration.ofSeconds 60
  warmMinFrequency : Nat := 2
  warmRecency : Nat := Duration.ofSeconds 300
  deriving DecidableEq, Repr

/-- How often expired entries are swept, and how long unused access histories are kept. -/
structure JanitorSettings where
  interval : Nat := Duration.ofSeconds 10
  accessStaleness : Nat := Duration.ofSeconds (60 * 60)
  deriving DecidableEq, Repr

structure AutoTuneSettings where
  enabled : Bool := true
  interval : Nat := Duration.ofSeconds 60
  /-- The part of its capacity that a tier gains or loses at most in one pass. -/
  stepFraction : Float := 0.10
  /-- Tiers with a greater hit rate grow. -/
  expandThreshold : Float := 0.80
  /-- Tiers with a smaller hit rate shrink. -/
  shrinkThreshold : Float := 0.05
  /-- Tiers with fewer probes since the last pass are left alone. -/
  minSamples : Nat := 100

structure PrefetchSettings where
  enabled : Bool := false
  interval : Nat := Duration.ofSeconds 5
  minFrequency : Nat := 5
  hotWindow : Nat := Duration.ofSeconds 30
  maxHotKeys : Nat := 32
  maxLoadsPerPass : Nat := 128
  deriving DecidableEq, Repr

structure Config where
  tiers : PerLevel TierLimits := ⟨.standard .hot, .standard .warm, .standard .cold⟩
  migration : Migration := {}
  janitor : JanitorSettings := {}
  autoTune : AutoTuneSettings := {}
  prefetch : PrefetchSettings := {}

/-- A tier section that may leave fields out. -/
structure TierOverrides where
  minCapacity : Option Nat := none
  capacity : Option Nat := none
  maxCapacity : Option Nat := none
  ttl : Option Nat := none
  deriving DecidableEq, Repr

/-- Fills in the fields that are left out. Bounds that are left out widen to include the
capacity. -/
def TierOverrides.apply (o : TierOverrides) (standard : TierLimits) : TierLimits :=
  let capacity := o.capacity.getD standard.capacity
  { minCapacity := o.minCapacity.getD (min standard.minCapacity capacity)
    capacity
    maxCapacity := o.maxCapacity.getD (max standard.maxCapacity capacity)
    ttl := o.ttl.getD standard.ttl }

end TieredCache
