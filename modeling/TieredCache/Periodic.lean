import TieredCache.Time

/-!
# Periodic tasks

A periodic task runs one pass one period after it was spawned, and then one each period. A pass that
fails does not stop the schedule. A pass that is noticed late, because the one before it took so
long, keeps the schedule if it is only a little late and moves it otherwise. Once the task is
signalled to stop, a pass in progress is completed and no other one starts.
-/

namespace TieredCache

/-- How a pass ends. -/
inductive Outcome where
  | succeeded
  | failed
  | panicked
  deriving DecidableEq, Repr

/-- One pass: how long it takes and how it ends. -/
structure Pass where
  duration : Nat
  outcome : Outcome
  deriving DecidableEq, Repr

/-- What happens to a pass. -/
inductive EventKind where
  | started
  | ended (o : Outcome)
  deriving DecidableEq, Repr

/-- An event in the life of a task; passes are numbered from one. -/
structure Event (N : Type) where
  time : Int
  name : N
  pass : Nat
  kind : EventKind
  deriving DecidableEq, Repr

/-- A schedule: the next pass is due at `due`. -/
structure Ticker where
  period : Nat
  positive : 0 < period
  due : Int

/-- A pass may be noticed this much too late without moving the schedule. -/
def Ticker.tolerance : Nat := 5 * Duration.millisecond

/-- The schedule after a pass that was due has been noticed. -/
def Ticker.tick (t : Ticker) (noticed : Int) : Ticker :=
  { t with due := (if t.due + tolerance < noticed then noticed else t.due) + t.period }

theorem Ticker.due_lt_due_tick (t : Ticker) {noticed : Int} (h : t.due ≤ noticed) :
    t.due < (t.tick noticed).due := by
  have := t.positive
  simp only [tick]
  split <;> omega

/-- What a task is doing. -/
inductive Phase where
  /-- It was spawned at some instant and has not begun yet. -/
  | spawned (period : Nat) (since : Int)
  /-- It has been waiting for its next pass since some instant. -/
  | waiting (ticker : Ticker) (since : Int)
  /-- A pass is in progress and will end at `finish`. -/
  | running (ticker : Ticker) (pass : Nat) (finish : Int) (outcome : Outcome)
  | over

/-- A task that runs passes at a period. -/
structure PeriodicTask (N : Type) where
  name : N
  /-- What each pass will be like. -/
  script : Nat → Pass
  /-- The number of passes that have started. -/
  started : Nat
  /-- Whether it has been signalled to stop. -/
  stopping : Bool
  phase : Phase

namespace PeriodicTask

variable {N : Type}

/-- A task that is to begin now. -/
def spawn (name : N) (period : Nat) (script : Nat → Pass) (stopping : Bool) (now : Int) :
    PeriodicTask N where
  name
  script
  started := 0
  stopping
  phase := .spawned period now

/-- What a task does when it begins. Without a period there is no schedule, and the task ends at
once; so does one that finds itself signalled. -/
def firstPhase (period : Nat) (stopping : Bool) (now : Int) : Phase :=
  if h : 0 < period then
    if stopping then .over else .waiting ⟨period, h, now + period⟩ now
  else .over

/-- Whether the task has ended. -/
def isOver (t : PeriodicTask N) : Bool :=
  match t.phase with
  | .over => true
  | _ => false

/-- Signals the task to stop. While it waits it ends at once. -/
def signal (t : PeriodicTask N) : PeriodicTask N :=
  match t.phase with
  | .waiting _ _ => { t with stopping := true, phase := .over }
  | _ => { t with stopping := true }

/-- Stops the task at once. A pass in progress is cut off. -/
def abort (t : PeriodicTask N) : PeriodicTask N :=
  { t with phase := .over }

/-- When a task that has been signalled ends; `now` if it has ended already. -/
def endTime (t : PeriodicTask N) (now : Int) : Int :=
  match t.phase with
  | .spawned _ since => max now since
  | .running _ _ finish _ => max now finish
  | _ => now

/-- Bounds the steps up to `horizon`: two for each instant at which a pass may still be due, and one
for the beginning or for a pass in progress. -/
def remaining (horizon : Int) : Phase → Nat
  | .spawned period since => 2 * (horizon + 1 - (since + period)).toNat + 1
  | .waiting ticker _ => 2 * (horizon + 1 - ticker.due).toNat
  | .running ticker _ _ _ => 2 * (horizon + 1 - ticker.due).toNat + 1
  | .over => 0

/-- Everything that happens up to `horizon`, and the task after it. -/
def advance (horizon : Int) (t : PeriodicTask N) : List (Event N) × PeriodicTask N :=
  match h : t.phase with
  | .over => ([], t)
  | .spawned period since =>
    if horizon < since then ([], t)
    else
      let next : PeriodicTask N := { t with phase := firstPhase period t.stopping since }
      have : remaining horizon next.phase < remaining horizon t.phase := by
        simp only [h, next, firstPhase]
        split
        · split <;> simp [remaining]
        · simp [remaining]
      advance horizon next
  | .waiting ticker since =>
    let noticed := max since ticker.due
    if hn : horizon < noticed then ([], t)
    else
      let n := t.started + 1
      let pass := t.script n
      let next : PeriodicTask N := { t with
        started := n
        phase := .running (ticker.tick noticed) n (noticed + pass.duration) pass.outcome }
      have : remaining horizon next.phase < remaining horizon t.phase := by
        have hdue : ticker.due ≤ noticed := Int.le_max_right ..
        have := ticker.due_lt_due_tick hdue
        simp only [h, next, remaining]
        omega
      let (events, t) := advance horizon next
      (⟨noticed, t.name, n, .started⟩ :: events, t)
  | .running ticker n finish outcome =>
    if horizon < finish then ([], t)
    else
      let next : PeriodicTask N :=
        { t with phase := if t.stopping then .over else .waiting ticker finish }
      have : remaining horizon next.phase < remaining horizon t.phase := by
        simp only [h, next]
        cases t.stopping <;> simp [remaining]
      let (events, t) := advance horizon next
      (⟨finish, t.name, n, .ended outcome⟩ :: events, t)
termination_by remaining horizon t.phase

end PeriodicTask

end TieredCache
