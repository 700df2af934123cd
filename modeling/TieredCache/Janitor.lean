import TieredCache.Hierarchy

/-!
# The janitor

Lookups drop the expired entries they meet. The janitor sweeps out the others, and the histories of
keys that left the cache long ago.
-/

namespace TieredCache

structure SweepReport where
  /-- Entries that had expired. -/
  expired : Nat
  /-- Histories of keys that were idle and not resident. -/
  pruned : Nat
  deriving DecidableEq, Repr

/-- Drops all expired entries, then the histories that are idle for longer than `staleness`. -/
def Hierarchy.sweep {K V : Type} [DecidableEq K] (h : Hierarchy K V) (staleness : Nat)
    (now : Int) : SweepReport × Hierarchy K V :=
  let (expired, h) := h.purgeExpired now
  let (pruned, h) := h.pruneHistories staleness now
  (⟨expired, pruned⟩, h)

end TieredCache
