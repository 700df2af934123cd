import TieredCache.Statistics
import TieredCache.Store

/-!
# Text exposition of statistics

Statistics are published as gauges. A gauge family has one gauge, or one for each tier, and a gauge
keeps the last value it was set to. Families are listed by name and gauges by label; a family none
of whose gauges has been set is left out.
-/

namespace TieredCache

/-- The gauge families, in the order of their names. -/
inductive Family where
  | demotions
  | evictions
  | expirations
  | hits
  | misses
  | prefetched
  | promotions
  | requests
  | tierCapacity
  | tierHitRate
  | tierSize
  deriving DecidableEq, Repr

namespace Family

def all : List Family :=
  [.demotions, .evictions, .expirations, .hits, .misses, .prefetched, .promotions, .requests,
    .tierCapacity, .tierHitRate, .tierSize]

def name : Family → String
  | .demotions => "tiercache_demotions_total"
  | .evictions => "tiercache_evictions_total"
  | .expirations => "tiercache_expirations_total"
  | .hits => "tiercache_hits_total"
  | .misses => "tiercache_misses_total"
  | .prefetched => "tiercache_prefetched_total"
  | .promotions => "tiercache_promotions_total"
  | .requests => "tiercache_requests_total"
  | .tierCapacity => "tiercache_tier_capacity"
  | .tierHitRate => "tiercache_tier_hit_rate"
  | .tierSize => "tiercache_tier_size"

def help : Family → String
  | .demotions => "Entries moved to a colder tier"
  | .evictions => "Entries dropped for lack of space"
  | .expirations => "Entries dropped for exceeding TTL"
  | .hits => "Lookups served by a tier"
  | .misses => "Lookups no tier could serve"
  | .prefetched => "Entries inserted by the prefetcher"
  | .promotions => "Entries moved to a hotter tier"
  | .requests => "Lookups served or missed"
  | .tierCapacity => "Current capacity of a tier"
  | .tierHitRate => "Hits over lookups that reached a tier"
  | .tierSize => "Resident entries in a tier"

/-- Whether a family has a gauge for each tier. -/
def perTier : Family → Bool
  | .hits | .tierCapacity | .tierHitRate | .tierSize => true
  | _ => false

/-- The labels of a family's gauges, in the order of their text. -/
def labels (f : Family) : List (Option Level) :=
  if f.perTier then [some .cold, some .hot, some .warm] else [none]

end Family

inductive Reading where
  | count (n : Nat)
  | rate (x : Float)

/-- The greatest count a gauge shows. -/
def Reading.countLimit : Nat := 9223372036854775807

/-- The text of a value. Counts are shown as binary64 numbers. -/
def Reading.text : Reading → String
  | .count n => Decimal.plainText (Float.ofNat (min n countLimit))
  | .rate x => Decimal.plainText x

/-- The gauges, each with the last value it was set to. -/
structure Exposition where
  gauges : Store (Family × Option Level) Reading

namespace Exposition

def set (x : Exposition) (gauge : Family × Option Level) (r : Reading) : Exposition :=
  ⟨x.gauges.insert gauge r⟩

def setAll (x : Exposition) (readings : List ((Family × Option Level) × Reading)) : Exposition :=
  readings.foldl (fun x r => x.set r.1 r.2) x

/-- Gauges before the first observation: those without a label are zero, the others are not set. -/
def new : Exposition :=
  setAll ⟨Store.empty⟩
    ((Family.all.filter fun f => !f.perTier).map fun f => ((f, none), .count 0))

/-- The values that some statistics give to the gauges. -/
def readings (s : Statistics) : List ((Family × Option Level) × Reading) :=
  [((.requests, none), .count s.totalRequests),
    ((.misses, none), .count s.misses),
    ((.evictions, none), .count s.evictions),
    ((.demotions, none), .count s.demotions),
    ((.promotions, none), .count s.promotions),
    ((.expirations, none), .count s.expirations),
    ((.prefetched, none), .count s.prefetched)] ++
  Level.all.flatMap fun l =>
    [((.hits, some l), .count (s.hits.get l)),
      ((.tierSize, some l), .count (s.sizes.get l)),
      ((.tierCapacity, some l), .count (s.capacities.get l)),
      ((.tierHitRate, some l), .rate (s.hitRates.get l))]

/-- Sets all gauges from some statistics. -/
def observe (x : Exposition) (s : Statistics) : Exposition :=
  x.setAll (readings s)

def sampleLine (f : Family) (label : Option Level) (r : Reading) : String :=
  let labels :=
    match label with
    | none => ""
    | some l => "\x7btier=\"" ++ l.name ++ "\"\x7d"
  f.name ++ labels ++ " " ++ r.text ++ "\n"

/-- The lines of the gauges of a family that have been set. -/
def sampleLines (x : Exposition) (f : Family) : List String :=
  f.labels.filterMap fun label => (x.gauges.get? (f, label)).map (sampleLine f label)

def familyText (x : Exposition) (f : Family) : String :=
  match x.sampleLines f with
  | [] => ""
  | lines =>
    "# HELP " ++ f.name ++ " " ++ f.help ++ "\n" ++ "# TYPE " ++ f.name ++ " gauge\n" ++
      String.join lines

def render (x : Exposition) : String :=
  String.join (Family.all.map x.familyText)

end Exposition

end TieredCache
