import TieredCache.Json.Value
import TieredCache.Level

/-!
# Counters and statistics

Counters only ever grow. The number of lookups is not counted: it is the sum of the hits and misses.
-/

namespace TieredCache

/-- How often a tier was probed by lookups, and how often it served them. -/
structure TierCounters where
  probes : Nat := 0
  hits : Nat := 0
  deriving DecidableEq, Repr

/-- The quotient of two counts as a binary64 number, zero if the second one is. -/
def ratio (part whole : Nat) : Float :=
  if whole = 0 then 0 else Float.ofNat part / Float.ofNat whole

namespace TierCounters

/-- What has been counted since an earlier reading. -/
def since (later earlier : TierCounters) : TierCounters :=
  ⟨later.probes - earlier.probes, later.hits - earlier.hits⟩

def hitRate (c : TierCounters) : Float :=
  ratio c.hits c.probes

end TierCounters

structure Counters where
  tiers : PerLevel TierCounters := .replicate {}
  misses : Nat := 0
  evictions : Nat := 0
  demotions : Nat := 0
  promotions : Nat := 0
  prefetched : Nat := 0
  deriving DecidableEq, Repr

namespace Counters

/-- Counts one probe of each of some tiers. -/
def probe (c : Counters) (levels : List Level) : Counters :=
  { c with tiers := levels.foldl (fun t l =>
      t.modify l fun n => { n with probes := n.probes + 1 }) c.tiers }

/-- Counts a lookup that a tier has served: all tiers down to it were probed. -/
def hit (c : Counters) (level : Level) : Counters :=
  let c := c.probe level.probed
  { c with tiers := c.tiers.modify level fun n => { n with hits := n.hits + 1 } }

/-- Counts a lookup that no tier could serve. -/
def miss (c : Counters) : Counters :=
  let c := c.probe Level.all
  { c with misses := c.misses + 1 }

end Counters

structure Statistics where
  totalRequests : Nat := 0
  hits : PerLevel Nat := .replicate 0
  misses : Nat := 0
  evictions : Nat := 0
  demotions : Nat := 0
  promotions : Nat := 0
  expirations : Nat := 0
  prefetched : Nat := 0
  sizes : PerLevel Nat := .replicate 0
  capacities : PerLevel Nat := .replicate 0
  hitRates : PerLevel Float := .replicate 0

namespace Statistics

/-- The lookups served by any tier. -/
def totalHits (s : Statistics) : Nat := s.hits.sum

/-- The part of all lookups that some tier served. -/
def overallHitRate (s : Statistics) : Float :=
  ratio s.totalHits s.totalRequests

/-- The snapshot of some counters, of a hierarchy without tiers. -/
def ofCounters (c : Counters) : Statistics where
  totalRequests := (c.tiers.map TierCounters.hits).sum + c.misses
  hits := c.tiers.map TierCounters.hits
  misses := c.misses
  evictions := c.evictions
  demotions := c.demotions
  promotions := c.promotions
  prefetched := c.prefetched
  hitRates := c.tiers.map TierCounters.hitRate

/-- Counts of all levels, hottest first. -/
def countsDocument (p : PerLevel Nat) : Json.Value :=
  .array (p.toList.map fun n => .nat n)

def document (s : Statistics) : Json.Value :=
  .object [
    ("total_requests", .nat s.totalRequests),
    ("hits_per_tier", countsDocument s.hits),
    ("misses", .nat s.misses),
    ("evictions", .nat s.evictions),
    ("demotions", .nat s.demotions),
    ("promotions", .nat s.promotions),
    ("expirations", .nat s.expirations),
    ("prefetched", .nat s.prefetched),
    ("tier_sizes", countsDocument s.sizes),
    ("tier_capacities", countsDocument s.capacities),
    ("hit_rate_per_tier", .array (s.hitRates.toList.map Json.Value.float))]

end Statistics

end TieredCache
