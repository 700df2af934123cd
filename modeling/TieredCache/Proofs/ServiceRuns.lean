import TieredCache.Proofs.PassTimes
import TieredCache.Service

/-!
# A service is a run of its session

Between calls the background jobs of a service run the passes that fall due while time passes, each
at its time and in the order of these. So a service goes through a run of its session, in which each
pass that has started is an operation like the calls.
-/

namespace TieredCache.Service

variable {K V : Type} [DecidableEq K]

variable [Ord K] [Adjacent K]

/-! ### Use -/

/-- One call, or time that passes. Returns the answer and what the background jobs did. -/
def use (s : Service K V) : Operation K V → Answer V × List (Event Job) × Service K V
  | .advance time =>
    let (events, s) := s.advance (s.session.now + time)
    (.done, events, s)
  | op =>
    let (answer, s) := s.apply op
    (answer, [], s)

/-- One call after the other. Returns all answers and all that the background jobs did. -/
def useAll (s : Service K V) :
    List (Operation K V) → List (Answer V) × List (Event Job) × Service K V
  | [] => ([], [], s)
  | op :: rest =>
    let (answer, events, s) := s.use op
    let (answers, later, s) := s.useAll rest
    (answer :: answers, events ++ later, s)

/-- The operations that the passes that start in some events are, each at its time, and the time
that is left up to an instant. -/
def passesUntil (s : Service K V) (horizon : Int) : List (Event Job) → List (Operation K V)
  | [] => [.advance (horizon - s.session.now).toNat]
  | e :: rest =>
    if e.kind = .started then
      .advance (e.time - s.session.now).toNat :: (s.setNow e.time).passOf e.name ::
        passesUntil (s.perform e.name e.time) horizon rest
    else passesUntil s horizon rest

/-- The calls of a use, and among them the passes that the background jobs have started. -/
def operations (s : Service K V) : List (Operation K V) → List (Operation K V)
  | [] => []
  | op :: rest =>
    let (_, events, after) := s.use op
    match op with
    | .advance time => s.passesUntil (s.session.now + time) events ++ after.operations rest
    | op => op :: after.operations rest

end TieredCache.Service
