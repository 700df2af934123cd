import TieredCache.Adjacency
import TieredCache.Hierarchy

/-!
# Loading ahead of use

The keys next to hot keys are loaded before anyone asks for them. What is loaded enters the coldest
tier and counts as no access, so a wrong guess displaces nothing that has proved useful.
-/

namespace TieredCache

/-- What a source of values answers for a key. -/
inductive LoadResult (V : Type) where
  | value (v : V)
  /-- There is no value. -/
  | absent
  /-- The value could not be loaded. -/
  | failed

structure PrefetchReport where
  requested : Nat := 0
  inserted : Nat := 0
  failed : Nat := 0
  deriving DecidableEq, Repr

namespace Hierarchy

variable {K V : Type} [DecidableEq K]

/-- Adds those of some keys to `found` that are not resident and not in it, as long as it has fewer
than `limit` elements. -/
def collect (h : Hierarchy K V) (limit : Nat) (now : Int) (found : List K) :
    List K → List K
  | [] => found
  | k :: rest =>
    if limit ≤ found.length then found
    else if h.contains k now ∨ k ∈ found then h.collect limit now found rest
    else h.collect limit now (found ++ [k]) rest

/-- The keys to load: the neighbours of the hottest keys that are not resident, each once. -/
def candidates [Ord K] [Adjacent K] (h : Hierarchy K V) (s : PrefetchSettings) (now : Int) :
    List K :=
  let seeds := h.tracker.hottest s.maxHotKeys s.minFrequency s.hotWindow now
  h.collect s.maxLoadsPerPass now [] (seeds.flatMap fun e => Adjacent.adjacent e.1)

def loadOne (load : K → LoadResult V) (now : Int) (state : PrefetchReport × Hierarchy K V)
    (k : K) : PrefetchReport × Hierarchy K V :=
  let (report, h) := state
  let report := { report with requested := report.requested + 1 }
  match load k with
  | .value v =>
    let (inserted, h) := h.putSpeculative k v now
    (if inserted then { report with inserted := report.inserted + 1 } else report, h)
  | .absent => (report, h)
  | .failed => ({ report with failed := report.failed + 1 }, h)

def loadAll (h : Hierarchy K V) (load : K → LoadResult V) (keys : List K) (now : Int) :
    PrefetchReport × Hierarchy K V :=
  keys.foldl (loadOne load now) ({}, h)

/-- One pass: loads all candidates. -/
def prefetch [Ord K] [Adjacent K] (h : Hierarchy K V) (s : PrefetchSettings)
    (load : K → LoadResult V) (now : Int) : PrefetchReport × Hierarchy K V :=
  h.loadAll load (h.candidates s now) now

end Hierarchy

end TieredCache
