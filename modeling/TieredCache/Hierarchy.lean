import TieredCache.Moves
import TieredCache.Placement
import TieredCache.Statistics
import TieredCache.Tier

/-!
# The tier hierarchy

Three tiers share an access tracker and counters. A lookup probes them hottest first; a write goes
to the tier that the key's history has earned. An entry displaced from a tier falls to the next
colder one, where it may displace another, until one finds room or leaves the coldest tier.

Each operation takes the instant at which it happens.
-/

namespace TieredCache

structure Hierarchy (K V : Type) where
  config : Config
  tiers : PerLevel (Tier K V)
  tracker : Tracker K
  counters : Counters
  stripe : K → Nat
  moves : Moves

namespace Hierarchy

variable {K V : Type}

/-- An empty hierarchy, if the configuration is valid. -/
def new (config : Config) (stripe : K → Nat) : Except Config.Error (Hierarchy K V) := do
  Config.validate config
  let hot ← Tier.ofLimits .hot config.tiers.hot
  let warm ← Tier.ofLimits .warm config.tiers.warm
  let cold ← Tier.ofLimits .cold config.tiers.cold
  return {
    config
    tiers := ⟨hot, warm, cold⟩
    tracker := Tracker.empty
    counters := {}
    stripe
    moves := {} }

def tier (h : Hierarchy K V) (l : Level) : Tier K V := h.tiers.get l

def setTier (h : Hierarchy K V) (l : Level) (t : Tier K V) : Hierarchy K V :=
  { h with tiers := h.tiers.set l t }

@[simp] theorem tier_setTier_self (h : Hierarchy K V) (l : Level) (t : Tier K V) :
    (h.setTier l t).tier l = t := by
  simp [setTier, tier]

theorem tier_setTier_of_ne (h : Hierarchy K V) {l m : Level} (t : Tier K V) (hm : m ≠ l) :
    (h.setTier l t).tier m = h.tier m := by
  simp [setTier, tier, PerLevel.get_set_of_ne _ t hm]

def startMove (h : Hierarchy K V) (k : K) : Hierarchy K V :=
  { h with moves := h.moves.start (h.stripe k) }

def finishMove (h : Hierarchy K V) (k : K) : Hierarchy K V :=
  { h with moves := h.moves.finish (h.stripe k) }

/-- Whether a removal of a key is complete: no move is open on the key's stripe, so none of its
entries is on the way. -/
def isQuiet (h : Hierarchy K V) (k : K) : Bool :=
  h.moves.openOn (h.stripe k) = 0

/-- Takes over a tier that entries have left, with a move open for each announced key. -/
def takeOver (h : Hierarchy K V) (l : Level) (d : Displacement K V) : Hierarchy K V :=
  d.announced.foldl startMove (h.setTier l d.tier)

/-- Drops all entries and histories. The counters are kept. -/
def clear (h : Hierarchy K V) : Hierarchy K V :=
  { h with tiers := h.tiers.map Tier.clear, tracker := Tracker.empty }

def statistics (h : Hierarchy K V) : Statistics :=
  { Statistics.ofCounters h.counters with
    expirations := (h.tiers.map Tier.expirations).sum
    sizes := h.tiers.map Tier.size
    capacities := h.tiers.map fun t => t.capacity.value }

variable [DecidableEq K]

/-- Whether any tier holds a key unexpired. -/
def contains (h : Hierarchy K V) (k : K) (now : Int) : Bool :=
  Level.all.any fun l => (h.tier l).contains k now

/-- The hottest tier that holds a key unexpired. -/
def levelOf? (h : Hierarchy K V) (k : K) (now : Int) : Option Level :=
  Level.all.find? fun l => (h.tier l).contains k now

/-- Takes a key out of all tiers but one. -/
def removeOthers (h : Hierarchy K V) (k : K) (keep : Level) : Hierarchy K V :=
  Level.all.foldl (fun h l => if l = keep then h else h.setTier l ((h.tier l).remove k).2) h

/-- Counts an entry that leaves the cache for lack of room. -/
def countEviction (h : Hierarchy K V) : Hierarchy K V :=
  { h with counters := { h.counters with evictions := h.counters.evictions + 1 } }

/-- Counts an entry that moves to a colder tier. -/
def countDemotion (h : Hierarchy K V) : Hierarchy K V :=
  { h with counters := { h.counters with demotions := h.counters.demotions + 1 } }

/-- Carries a displaced entry down some levels, nearest first, and closes its move. It ends there if
it is too old for the next level, or if there is none. It is dropped silently if its key has been
written anew in the meantime. What it displaces is carried on from there. -/
def settle (now : Int) : List Level → Hierarchy K V → K × Entry V → Hierarchy K V
  | [], h, (k, _) => h.countEviction.finishMove k
  | next :: colder, h, (k, e) =>
    if e.expired (h.tier next).ttl now then h.countEviction.finishMove k
    else if h.contains k now then h.finishMove k
    else
      let d := (h.tier next).put k e
      let h := (h.countDemotion.takeOver next d).finishMove k
      d.evicted.foldl (settle now colder) h

/-- Carries all entries that have left a tier down from there. -/
def settleAll (h : Hierarchy K V) (l : Level) (evicted : List (K × Entry V)) (now : Int) :
    Hierarchy K V :=
  evicted.foldl (settle now l.below) h

/-- Puts an entry in a tier and takes its key out of the others, as one move. Returns the entries
this displaces, which are still to be settled. -/
def place (h : Hierarchy K V) (l : Level) (k : K) (e : Entry V) :
    List (K × Entry V) × Hierarchy K V :=
  let d := (h.tier l).put k e
  (d.evicted, (((h.startMove k).takeOver l d).removeOthers k l).finishMove k)

/-- Puts an entry in a tier as its key's only one, and settles what this displaces. -/
def insertAt (h : Hierarchy K V) (l : Level) (k : K) (e : Entry V) (now : Int) : Hierarchy K V :=
  let (evicted, h) := h.place l k e
  h.settleAll l evicted now

/-- The first of some tiers that holds a key unexpired, with the entry. Expired entries on the way
are dropped. -/
def probe (k : K) (now : Int) : List Level → Hierarchy K V →
    Option (Level × Entry V) × Hierarchy K V
  | [], h => (none, h)
  | l :: colder, h =>
    let (found, t) := (h.tier l).lookup k now
    let h := h.setTier l t
    match found with
    | some e => (some (l, e), h)
    | none => probe k now colder h

/-- Records an access to a key. Returns the history on which it is judged. -/
def recordAccess (h : Hierarchy K V) (k : K) (now : Int) : History × Hierarchy K V :=
  let (history, tracker) := h.tracker.record k now
  (history, { h with tracker })

/-- Moves a key up from one tier to another, unless its entry is too old for that one. -/
def promote (h : Hierarchy K V) (k : K) (source target : Level) (now : Int) : Hierarchy K V :=
  let (found, t) := (h.tier source).lookup k now
  let h := h.setTier source t
  match found with
  | none => h
  | some e =>
    if e.expired (h.tier target).ttl now then h
    else
      let (evicted, h) := h.place target k e
      let h := { h with counters := { h.counters with promotions := h.counters.promotions + 1 } }
      h.settleAll target evicted now

/-- Counts and records a lookup that a tier has served, and promotes the key if it has earned
that. -/
def serve (h : Hierarchy K V) (k : K) (l : Level) (now : Int) : Hierarchy K V :=
  let h := h.setTier l ((h.tier l).touch k)
  let h := { h with counters := h.counters.hit l }
  let (history, h) := h.recordAccess k now
  match h.config.migration.promotion? history l now with
  | none => h
  | some target => h.promote k l target now

def get (h : Hierarchy K V) (k : K) (now : Int) : Option V × Hierarchy K V :=
  let (found, h) := probe k now Level.all h
  match found with
  | some (l, e) => (some e.value, h.serve k l now)
  | none => (none, { h with counters := h.counters.miss })

/-- Writes a value to the tier that the key's history earns, or the tier that holds the key if that
is hotter. -/
def put (h : Hierarchy K V) (k : K) (v : V) (now : Int) : Hierarchy K V :=
  let (history, h) := h.recordAccess k now
  let earned := h.config.migration.placement history now
  let target :=
    match h.levelOf? k now with
    | some current => if current.isHotterThan earned then current else earned
    | none => earned
  h.insertAt target k ⟨v, now⟩ now

/-- Writes a value that was loaded ahead of use to the coldest tier, unless the key is resident.
This counts as no access. Returns whether the value was written. -/
def putSpeculative (h : Hierarchy K V) (k : K) (v : V) (now : Int) : Bool × Hierarchy K V :=
  if h.contains k now then (false, h)
  else
    let d := (h.tier .cold).put k ⟨v, now⟩
    let h := h.takeOver .cold d
    let h := { h with counters := { h.counters with prefetched := h.counters.prefetched + 1 } }
    (true, h.settleAll .cold d.evicted now)

/-- Takes a key out of all tiers and forgets its history. -/
def remove (h : Hierarchy K V) (k : K) : Hierarchy K V :=
  { h with
    tiers := h.tiers.map fun t => (t.remove k).2
    tracker := h.tracker.remove k }

/-- Drops the expired entries of all tiers. Returns how many were dropped. -/
def purgeExpired (h : Hierarchy K V) (now : Int) : Nat × Hierarchy K V :=
  let purged := h.tiers.map fun t => t.purge now
  ((purged.map Prod.fst).sum, { h with tiers := purged.map Prod.snd })

/-- Drops the histories of keys that no tier holds unexpired and that have been idle for longer than
`staleness`. Returns how many were dropped. -/
def pruneHistories (h : Hierarchy K V) (staleness : Nat) (now : Int) :
    Nat × Hierarchy K V :=
  let (dropped, tracker) := h.tracker.prune staleness now fun k => h.contains k now
  (dropped, { h with tracker })

/-- Changes the capacity of a tier and settles the entries that no longer fit. Returns how many left
the tier. -/
def resizeTier (h : Hierarchy K V) (l : Level) (capacity : Capacity) (now : Int) :
    Nat × Hierarchy K V :=
  let d := (h.tier l).resize capacity
  (d.evicted.length, (h.takeOver l d).settleAll l d.evicted now)

end Hierarchy

end TieredCache
