import TieredCache.Store
import TieredCache.Time

/-!
# Access histories

The tracker counts the accesses to each key and remembers the last one, whichever tier holds the key
and also after it has left the cache.
-/

namespace TieredCache

/-- How often a key has been accessed, and when last. -/
structure History where
  frequency : Nat
  lastAccess : Int
  deriving DecidableEq, Repr

def History.idle (h : History) (now : Int) : Nat :=
  elapsed h.lastAccess now

/-- The access histories of all keys. -/
structure Tracker (K : Type) where
  histories : Store K History

namespace Tracker

variable {K : Type}

def empty : Tracker K := ⟨Store.empty⟩

def size (t : Tracker K) : Nat := t.histories.size

/-- Counts stay at this value once they reach it. -/
def frequencyLimit : Nat := UInt64.size - 1

variable [DecidableEq K]

def get? (t : Tracker K) (k : K) : Option History :=
  t.histories.get? k

def remove (t : Tracker K) (k : K) : Tracker K :=
  ⟨t.histories.erase k⟩

/-- Records an access. Together with the tracker this returns the history on which the access is
judged: it counts the access, and its last access is the one before, so that its idle time is the
gap between the two. The first access has no gap. -/
def record (t : Tracker K) (k : K) (now : Int) : History × Tracker K :=
  let before := (t.get? k).getD ⟨0, now⟩
  let frequency := min (before.frequency + 1) frequencyLimit
  (⟨frequency, before.lastAccess⟩, ⟨t.histories.insert k ⟨frequency, now⟩⟩)

/-- After an access the history counts it, up to the limit, and it is the last one. -/
theorem get?_record_self (t : Tracker K) (k : K) (now : Int) :
    (t.record k now).2.get? k = some ⟨(t.record k now).1.frequency, now⟩ := by
  simp [record, get?]

/-- An access leaves the histories of the other keys alone. -/
theorem get?_record_of_ne (t : Tracker K) {j k : K} (now : Int) (h : j ≠ k) :
    (t.record k now).2.get? j = t.get? j := by
  simp [record, get?, Store.get?_insert_of_ne _ _ h]

/-- Whether a history is dropped by pruning: its key has been idle for longer than `staleness` and
is not resident. -/
def isStale (staleness : Nat) (now : Int) (resident : K → Bool) (k : K) (h : History) :
    Bool :=
  staleness < h.idle now && !resident k

/-- Drops the histories of keys that have been idle for longer than `staleness` and are not
resident. Returns how many were dropped. -/
def prune (t : Tracker K) (staleness : Nat) (now : Int) (resident : K → Bool) :
    Nat × Tracker K :=
  (t.histories.count (isStale staleness now resident),
    ⟨t.histories.filter fun k h => !isStale staleness now resident k h⟩)

/-- The order in which hot keys are listed: most frequent first, equal frequencies by key. -/
def listedBefore [Ord K] (a b : K × History) : Bool :=
  if a.2.frequency = b.2.frequency then (compare a.1 b.1).isLE
  else b.2.frequency < a.2.frequency

/-- At most `limit` keys that were accessed at least `minFrequency` times, the last time no longer
than `window` ago, most frequent first. -/
def hottest [Ord K] (t : Tracker K) (limit minFrequency : Nat) (window : Nat) (now : Int) :
    List (K × History) :=
  let hot := t.histories.entries.filter fun e =>
    minFrequency ≤ e.2.frequency && e.2.idle now ≤ window
  (hot.mergeSort listedBefore).take limit

end Tracker

end TieredCache
