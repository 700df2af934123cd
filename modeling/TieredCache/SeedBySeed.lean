import TieredCache.Session

/-!
# Seed by seed

The tracker lists its keys in some order that has no meaning. It decides which of several equally
frequent keys come first, and so which of them are seeds. The neighbours of the seeds are looked at
in two loops, over the seeds and over the neighbours of each, and as soon as there are enough
candidates both of them end. Here the order is given by a list of the keys, and each check whether a
neighbour is resident is an operation on a session.
-/

namespace TieredCache

namespace Tracker

variable {K : Type}

/-- Whether a history makes its key a seed. -/
def isHot (minFrequency window : Nat) (now : Int) (h : History) : Bool :=
  minFrequency ≤ h.frequency && h.idle now ≤ window

def byFrequency (a b : K × History) : Bool :=
  b.2.frequency ≤ a.2.frequency

variable [DecidableEq K]

/-- At most `limit` hot keys, most frequent first. Equally frequent ones stay in the order in which
the keys are listed. -/
def hottestAlong (t : Tracker K) (keys : List K) (limit minFrequency window : Nat) (now : Int) :
    List (K × History) :=
  let listed := keys.filterMap fun k => (t.get? k).map fun h => (k, h)
  let hot := listed.filter fun e => isHot minFrequency window now e.2
  (hot.mergeSort byFrequency).take limit

end Tracker

namespace Session

variable {K V : Type} [DecidableEq K]

/-- Adds those of the neighbours of a seed to `found` that are not resident and not in it. Returns
whether it had enough elements before it came to the last neighbour. -/
def gatherBeside (limit : Nat) : List K → List K → Session K V → Bool × List K × Session K V
  | [], found, s => (false, found, s)
  | k :: rest, found, s =>
    if limit ≤ found.length then (true, found, s)
    else
      match s.step (.contains k) with
      | (.truth false, s) =>
        if k ∈ found then gatherBeside limit rest found s
        else gatherBeside limit rest (found ++ [k]) s
      | (_, s) => gatherBeside limit rest found s

/-- Goes through the seeds until `found` has enough elements. -/
def gatherFrom [Adjacent K] (limit : Nat) : List (K × History) → List K → Session K V →
    List K × Session K V
  | [], found, s => (found, s)
  | seed :: seeds, found, s =>
    match gatherBeside limit (Adjacent.adjacent seed.1) found s with
    | (true, found, s) => (found, s)
    | (false, found, s) => gatherFrom limit seeds found s

/-- The candidates next to some seeds. -/
def gather [Adjacent K] (s : Session K V) (limit : Nat) (seeds : List (K × History)) :
    List K × Session K V :=
  gatherFrom limit seeds [] s

end Session

end TieredCache
