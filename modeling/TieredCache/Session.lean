import TieredCache.Janitor
import TieredCache.Prefetch
import TieredCache.Tuner

/-!
# Sessions

A session is a hierarchy in use. Operations are applied to it one after the other, each at the
instant that the session's clock shows, and the clock moves only when an operation lets time pass.
-/

namespace TieredCache

inductive Operation (K V : Type) where
  | get (k : K)
  | put (k : K) (v : V)
  | putSpeculative (k : K) (v : V)
  | remove (k : K)
  | clear
  | contains (k : K)
  | levelOf (k : K)
  | resizeTier (l : Level) (capacity : Capacity)
  | purgeExpired
  | pruneHistories (staleness : Nat)
  | sweep (staleness : Nat)
  | tune
  /-- Loads some keys ahead of use. -/
  | loadAhead (keys : List K) (load : K → LoadResult V)
  | advance (time : Nat)

inductive Answer (V : Type) where
  | done
  | found (v : Option V)
  | truth (b : Bool)
  | level (l : Option Level)
  | count (n : Nat)
  | swept (r : SweepReport)
  | tuned (changes : List CapacityChange)
  | loaded (r : PrefetchReport)

/-- A hierarchy with its tuner and a clock. -/
structure Session (K V : Type) where
  hierarchy : Hierarchy K V
  tuner : Tuner
  now : Int

namespace Session

variable {K V : Type}

/-- A session whose tuner starts its first window now. -/
def start (h : Hierarchy K V) (settings : AutoTuneSettings) (now : Int) : Session K V :=
  ⟨h, Tuner.new settings h, now⟩

def setHierarchy (s : Session K V) (h : Hierarchy K V) : Session K V :=
  { s with hierarchy := h }

variable [DecidableEq K]

def step (s : Session K V) : Operation K V → Answer V × Session K V
  | .get k =>
    let (v, h) := s.hierarchy.get k s.now
    (.found v, s.setHierarchy h)
  | .put k v => (.done, s.setHierarchy (s.hierarchy.put k v s.now))
  | .putSpeculative k v =>
    let (b, h) := s.hierarchy.putSpeculative k v s.now
    (.truth b, s.setHierarchy h)
  | .remove k => (.done, s.setHierarchy (s.hierarchy.remove k))
  | .clear => (.done, s.setHierarchy s.hierarchy.clear)
  | .contains k => (.truth (s.hierarchy.contains k s.now), s)
  | .levelOf k => (.level (s.hierarchy.levelOf? k s.now), s)
  | .resizeTier l capacity =>
    let (n, h) := s.hierarchy.resizeTier l capacity s.now
    (.count n, s.setHierarchy h)
  | .purgeExpired =>
    let (n, h) := s.hierarchy.purgeExpired s.now
    (.count n, s.setHierarchy h)
  | .pruneHistories staleness =>
    let (n, h) := s.hierarchy.pruneHistories staleness s.now
    (.count n, s.setHierarchy h)
  | .sweep staleness =>
    let (r, h) := s.hierarchy.sweep staleness s.now
    (.swept r, s.setHierarchy h)
  | .tune =>
    let (changes, tuner, h) := s.tuner.tune s.hierarchy s.now
    (.tuned changes, { s with tuner, hierarchy := h })
  | .loadAhead keys load =>
    let (r, h) := s.hierarchy.loadAll load keys s.now
    (.loaded r, s.setHierarchy h)
  | .advance time => (.done, { s with now := s.now + time })

def run (s : Session K V) : List (Operation K V) → List (Answer V) × Session K V
  | [] => ([], s)
  | op :: rest =>
    let (answer, s) := s.step op
    let (answers, s) := s.run rest
    (answer :: answers, s)

@[simp] theorem run_nil (s : Session K V) : s.run [] = ([], s) := rfl

theorem run_cons (s : Session K V) (op : Operation K V) (rest : List (Operation K V)) :
    s.run (op :: rest) =
      ((s.step op).1 :: ((s.step op).2.run rest).1, ((s.step op).2.run rest).2) := rfl

/-- A run of two parts is a run of the second part from where the first one ends. -/
theorem run_append (s : Session K V) (first second : List (Operation K V)) :
    s.run (first ++ second) =
      ((s.run first).1 ++ ((s.run first).2.run second).1, ((s.run first).2.run second).2) := by
  induction first generalizing s with
  | nil => rfl
  | cons op rest ih => rw [List.cons_append, run_cons, ih, run_cons, List.cons_append]

end Session

end TieredCache
