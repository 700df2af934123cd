import TieredCache.Periodic

/-!
# Groups of periodic tasks

The tasks of a group run side by side. Of two tasks with something to do at one instant, the one
that has waited longer goes first. A log lists events by time, events at one instant by the name of
the task, and those of one name as they happened.
-/

namespace TieredCache

/-- Whether of two tasks the first goes first, by the instants at which they have done something,
last first. The earlier instant decides; at one instant the longer wait does, and between equal
waits what went first when they began. A task that begins at an instant does so behind all others.
-/
def goesFirst : List Int → List Int → Bool
  | _, [] => true
  | [], _ :: _ => false
  | a :: as, b :: bs => if a = b then goesFirst as bs else a < b

/-- An event with the instants at which its task has done something, last first. -/
structure Occurrence (N : Type) where
  event : Event N
  instants : List Int
  deriving DecidableEq, Repr

namespace Occurrence

variable {N : Type}

/-- Adds an instant, unless it is the last one already. -/
def note (instants : List Int) (time : Int) : List Int :=
  if instants.head? = some time then instants else time :: instants

/-- The occurrences that the events of a task are, behind what it has done before. -/
def trace : List Int → List (Event N) → List (Occurrence N)
  | _, [] => []
  | instants, e :: rest => ⟨e, note instants e.time⟩ :: trace (note instants e.time) rest

/-- Whether of two occurrences the first happens first. -/
def precedes (a b : Occurrence N) : Bool :=
  goesFirst a.instants b.instants

end Occurrence

structure Member (N : Type) where
  task : PeriodicTask N
  /-- The instants at which it has done something, last first; at the first of them it began. -/
  instants : List Int

namespace Member

variable {N : Type}

def signal (m : Member N) : Member N :=
  { m with task := m.task.signal }

/-- Everything that happens up to `horizon`, and the member after it. -/
def advance (horizon : Int) (m : Member N) : List (Occurrence N) × Member N :=
  let (events, task) := m.task.advance horizon
  (Occurrence.trace m.instants events,
    ⟨task, events.foldl (fun instants e => Occurrence.note instants e.time) m.instants⟩)

end Member

/-- Tasks that are signalled together, and the instant they have reached. -/
structure TaskGroup (N : Type) where
  members : List (Member N)
  now : Int

namespace TaskGroup

variable {N : Type}

def empty (now : Int) : TaskGroup N := ⟨[], now⟩

/-- The names of the tasks, in the order in which they were added. -/
def names (g : TaskGroup N) : List N :=
  g.members.map fun m => m.task.name

/-- Adds a task that starts now. -/
def schedule (g : TaskGroup N) (name : N) (period : Nat) (script : Nat → Pass) : TaskGroup N :=
  { g with members := g.members ++ [⟨PeriodicTask.spawn name period script false g.now, [g.now]⟩] }

/-- Lets time pass up to an instant. Returns what happened, in the order in which it did. -/
def advance (horizon : Int) (g : TaskGroup N) : List (Event N) × TaskGroup N :=
  let advanced := g.members.map (Member.advance horizon)
  let occurrences := (advanced.flatMap Prod.fst).mergeSort Occurrence.precedes
  (occurrences.map Occurrence.event, ⟨advanced.map Prod.snd, horizon⟩)

/-- When the last of the tasks ends, if all have been signalled. -/
def finish (g : TaskGroup N) : Int :=
  (g.members.map fun m => m.task.endTime g.now).foldr max g.now

/-- Signals all tasks and waits for them. Returns what happened meanwhile, and the tasks that have
not ended. -/
def shutdown (g : TaskGroup N) : List (Event N) × TaskGroup N :=
  let signalled : TaskGroup N := { g with members := g.members.map Member.signal }
  let (events, waited) := signalled.advance signalled.finish
  (events, { waited with members := waited.members.filter fun m => !m.task.isOver })

/-- Stops all tasks at once. -/
def drop (g : TaskGroup N) : TaskGroup N :=
  empty g.now

def listedBefore [Ord N] (a b : Event N) : Bool :=
  if a.time = b.time then (compare a.name b.name).isLE else a.time < b.time

def listed [Ord N] (events : List (Event N)) : List (Event N) :=
  events.mergeSort listedBefore

end TaskGroup

/-- A task with the flag that tells it to stop. -/
structure WatchedTask (N : Type) where
  flag : Bool
  task : PeriodicTask N
  now : Int

namespace WatchedTask

variable {N : Type}

/-- Starts a task whose flag has a value already. -/
def spawn (name : N) (period : Nat) (script : Nat → Pass) (flag : Bool) (now : Int) :
    WatchedTask N :=
  ⟨flag, PeriodicTask.spawn name period script flag now, now⟩

/-- Lets time pass up to an instant. Returns what happened. -/
def advance (horizon : Int) (w : WatchedTask N) : List (Event N) × WatchedTask N :=
  let (events, task) := w.task.advance horizon
  (events, { w with task, now := horizon })

/-- Lets happen what is due by now. -/
def settle (w : WatchedTask N) : List (Event N) × WatchedTask N :=
  w.advance w.now

/-- Sets the flag. Setting it to any value, even the one it has, is a signal. Returns the value it
had before. -/
def signal (w : WatchedTask N) (flag : Bool) : Bool × WatchedTask N :=
  (w.flag, { w with flag, task := w.task.signal })

/-- Gives up the flag, which is a signal too. -/
def release (w : WatchedTask N) : WatchedTask N :=
  { w with task := w.task.signal }

def abort (w : WatchedTask N) : WatchedTask N :=
  { w with task := w.task.abort }

/-- Waits until a task that has been signalled has ended. Returns what happened meanwhile. -/
def join (w : WatchedTask N) : List (Event N) × WatchedTask N :=
  w.advance (w.task.endTime w.now)

end WatchedTask

end TieredCache
