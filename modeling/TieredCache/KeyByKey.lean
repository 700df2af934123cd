import TieredCache.Janitor

/-!
# Key by key

A sweep goes through each map twice. First it collects the keys that are due, in whatever order the
map lists them, and then it takes out one after the other, each only if it still is due. Here that
order is given by a list of the keys. What a sweep does is the same for all of them.
-/

namespace TieredCache

/-- Takes out a key whose value meets a condition. Returns whether it did. -/
def Store.removeIf {K α : Type} [DecidableEq K] (s : Store K α) (p : K → α → Bool) (k : K) :
    Bool × Store K α :=
  if (s.get? k).any (p k) then (true, s.erase k) else (false, s)

/-- Goes through some keys, with a step that returns whether it has removed its key. Returns how
often that was so. -/
def removeEach {σ K : Type} (step : σ → K → Bool × σ) : List K → σ → Nat × σ
  | [], state => (0, state)
  | k :: keys, state =>
    let (removed, state) := step state k
    let (others, state) := removeEach step keys state
    (removed.toNat + others, state)

namespace Tier

variable {K V : Type} [DecidableEq K]

/-- Drops the entry of a key if it has expired, and counts it. -/
def expire (now : Int) (t : Tier K V) (k : K) : Bool × Tier K V :=
  let (removed, store) := t.store.removeIf (fun _ e => e.expired t.ttl now) k
  if removed then
    (true, { t with
      store
      recency := t.recency.erase k
      expirations := t.expirations + 1 })
  else (false, t)

/-- Drops all expired entries, in the order in which the store lists its keys. -/
def purgeAlong (t : Tier K V) (keys : List K) (now : Int) : Nat × Tier K V :=
  removeEach (expire now) (keys.filter (t.isExpired now)) t

end Tier

namespace Tracker

variable {K : Type} [DecidableEq K]

/-- Whether a key has a history that has been idle for longer than `staleness`. -/
def isIdle (t : Tracker K) (staleness : Nat) (now : Int) (k : K) : Bool :=
  (t.get? k).any fun h => staleness < h.idle now

/-- Drops the history of a key that is not resident if it has been idle for longer than
`staleness`. -/
def forget (staleness : Nat) (now : Int) (resident : K → Bool) (t : Tracker K) (k : K) :
    Bool × Tracker K :=
  if resident k then (false, t)
  else
    let (removed, histories) := t.histories.removeIf (fun _ h => staleness < h.idle now) k
    (removed, ⟨histories⟩)

/-- Drops the idle histories of keys that are not resident, in the order in which the keys are
listed. -/
def pruneAlong (t : Tracker K) (keys : List K) (staleness : Nat) (now : Int)
    (resident : K → Bool) : Nat × Tracker K :=
  removeEach (forget staleness now resident) (keys.filter (t.isIdle staleness now)) t

end Tracker

namespace Hierarchy

variable {K V : Type} [DecidableEq K]

def purgeAlong (h : Hierarchy K V) (keys : PerLevel (List K)) (now : Int) :
    Nat × Hierarchy K V :=
  let hot := h.tiers.hot.purgeAlong keys.hot now
  let warm := h.tiers.warm.purgeAlong keys.warm now
  let cold := h.tiers.cold.purgeAlong keys.cold now
  (hot.1 + warm.1 + cold.1, { h with tiers := ⟨hot.2, warm.2, cold.2⟩ })

def pruneAlong (h : Hierarchy K V) (keys : List K) (staleness : Nat) (now : Int) :
    Nat × Hierarchy K V :=
  let (dropped, tracker) := h.tracker.pruneAlong keys staleness now fun k => h.contains k now
  (dropped, { h with tracker })

/-- A sweep, with the orders in which the tiers and the tracker list their keys. -/
def sweepAlong (h : Hierarchy K V) (stored : PerLevel (List K)) (tracked : List K)
    (staleness : Nat) (now : Int) : SweepReport × Hierarchy K V :=
  let (expired, h) := h.purgeAlong stored now
  let (pruned, h) := h.pruneAlong tracked staleness now
  (⟨expired, pruned⟩, h)

end Hierarchy

end TieredCache
