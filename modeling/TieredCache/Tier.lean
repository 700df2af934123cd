import TieredCache.Config.Validate
import TieredCache.Entry
import TieredCache.Store

/-!
# Tiers

A tier stores entries up to a capacity and a time to live. Beside the store it keeps its keys in
the order in which they were last touched, and gives up the least recently touched entry when it
runs out of room. Expired entries stay until something finds them: a lookup, a sweep, or a shortage
of room.
-/

namespace TieredCache

/-- The number of entries a tier has room for, at least one. -/
structure Capacity where
  value : Nat
  positive : 0 < value
  deriving DecidableEq, Repr

/-- The capacity of a given size, unless that is zero. -/
def Capacity.ofNat? (n : Nat) : Option Capacity :=
  if h : 0 < n then some ⟨n, h⟩ else none

structure Tier (K V : Type) where
  level : Level
  capacity : Capacity
  ttl : Nat
  store : Store K (Entry V)
  /-- The keys, most recently touched first. -/
  recency : List K
  /-- How many entries have been dropped because they had expired. -/
  expirations : Nat

/-- A tier after entries had to leave it for lack of room. Each key is announced before its entry
leaves. -/
structure Displacement (K V : Type) where
  tier : Tier K V
  announced : List K
  evicted : List (K × Entry V)

namespace Tier

variable {K V : Type}

def empty (level : Level) (capacity : Capacity) (ttl : Nat) : Tier K V :=
  ⟨level, capacity, ttl, Store.empty, [], 0⟩

/-- A tier without entries, as configured. -/
def ofLimits (level : Level) (limits : TierLimits) : Except Config.Error (Tier K V) :=
  match Capacity.ofNat? limits.capacity with
  | none => .error (.capacityBounds level limits)
  | some capacity =>
    if limits.ttl = 0 then .error (.zeroTtl level) else .ok (empty level capacity limits.ttl)

/-- The number of entries, expired ones included. -/
def size (t : Tier K V) : Nat := t.store.size

def clear (t : Tier K V) : Tier K V :=
  { t with store := Store.empty, recency := [] }

variable [DecidableEq K]

/-- The entry of a key, unless it has expired. -/
def find? (t : Tier K V) (k : K) (now : Int) : Option (Entry V) :=
  (t.store.get? k).filter fun e => !e.expired t.ttl now

/-- Whether the tier holds a key unexpired. -/
def contains (t : Tier K V) (k : K) (now : Int) : Bool :=
  (t.find? k now).isSome

/-- Whether the tier stores an expired entry of a key. -/
def isExpired (t : Tier K V) (now : Int) (k : K) : Bool :=
  (t.store.get? k).any fun e => e.expired t.ttl now

/-- Takes a key out of store and order. -/
def discard (t : Tier K V) (k : K) : Tier K V :=
  { t with store := t.store.erase k, recency := t.recency.erase k }

/-- The unexpired entry of a key. An expired one is dropped and counted. A lookup does not touch. -/
def lookup (t : Tier K V) (k : K) (now : Int) : Option (Entry V) × Tier K V :=
  match t.store.get? k with
  | none => (none, t)
  | some e =>
    if e.expired t.ttl now then
      (none, { t.discard k with expirations := t.expirations + 1 })
    else (some e, t)

/-- Makes a key the most recently touched one, if the tier has it. -/
def touch (t : Tier K V) (k : K) : Tier K V :=
  if k ∈ t.recency then { t with recency := k :: t.recency.erase k } else t

/-- From keys with the least recently touched first, the first one that is stored, its entry, and
the keys behind it. -/
def leastRecent (store : Store K (Entry V)) : List K → Option (K × Entry V) × List K
  | [] => (none, [])
  | k :: newer =>
    match store.get? k with
    | some e => (some (k, e), newer)
    | none => leastRecent store newer

/-- Gives up the least recently touched entry. -/
def evict (t : Tier K V) : Displacement K V :=
  let (victim, newer) := leastRecent t.store t.recency.reverse
  let order := newer.reverse
  match victim with
  | none => ⟨{ t with recency := order }, [], []⟩
  | some (k, e) => ⟨{ t with recency := order, store := t.store.erase k }, [k], [(k, e)]⟩

/-- Stores an entry and makes its key the most recently touched one. A new key in a full tier
displaces the least recently touched entry first. -/
def put (t : Tier K V) (k : K) (e : Entry V) : Displacement K V :=
  let d := if k ∉ t.recency ∧ t.capacity.value ≤ t.recency.length then t.evict else ⟨t, [], []⟩
  { d with tier := { d.tier with
      recency := k :: d.tier.recency.erase k
      store := d.tier.store.insert k e } }

/-- Takes out a key, expired or not. -/
def remove (t : Tier K V) (k : K) : Option (Entry V) × Tier K V :=
  match t.store.get? k with
  | none => (none, t)
  | some e => (some e, t.discard k)

/-- Gives up entries until no more than `bound` keys are left, or `rounds` times. -/
def evictTo (bound : Nat) : Nat → Tier K V → Displacement K V
  | 0, t => ⟨t, [], []⟩
  | rounds + 1, t =>
    if t.recency.length ≤ bound then ⟨t, [], []⟩
    else
      let first := t.evict
      let others := evictTo bound rounds first.tier
      ⟨others.tier, first.announced ++ others.announced, first.evicted ++ others.evicted⟩

/-- Changes the capacity. The entries that do not fit leave in the order in which they are given
up. -/
def resize (t : Tier K V) (capacity : Capacity) : Displacement K V :=
  evictTo capacity.value t.recency.length { t with capacity := capacity }

/-- Drops all expired entries. Returns how many were dropped. -/
def purge (t : Tier K V) (now : Int) : Nat × Tier K V :=
  let dropped := t.store.count fun _ e => e.expired t.ttl now
  (dropped,
    { t with
      store := t.store.filter fun _ e => !e.expired t.ttl now
      recency := t.recency.filter fun k => !t.isExpired now k
      expirations := t.expirations + dropped })

end Tier

end TieredCache
