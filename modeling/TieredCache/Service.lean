import TieredCache.Session
import TieredCache.TaskGroup

/-!
# The cache service

A session with background jobs: the janitor, the auto-tuner unless it is disabled, and the
prefetcher if it is enabled and there is a source of values. The passes of a job take no time.
-/

namespace TieredCache

/-- The background jobs of a cache. -/
inductive Job where
  | janitor
  | tuner
  | prefetcher
  deriving DecidableEq, Repr

/-- Why a service cannot be started. -/
inductive ServiceError where
  | config (e : Config.Error)
  /-- There is nothing to run background jobs on. -/
  | noRuntime

def ServiceError.message : ServiceError → String
  | .config e => e.report
  | .noRuntime =>
    "background maintenance needs a Tokio runtime: there is no reactor running, must be " ++
      "called from the context of a Tokio 1.x runtime"

/-- A session with a source of values and background jobs. -/
structure Service (K V : Type) where
  session : Session K V
  load : K → LoadResult V
  /-- The jobs that have not ended. -/
  jobs : TaskGroup Job
  /-- Whether there are jobs to stop. -/
  attached : Bool

namespace Service

variable {K V : Type}

/-- A cache without background jobs. -/
def new (config : Config) (stripe : K → Nat) (now : Int) : Except Config.Error (Service K V) := do
  let hierarchy ← Hierarchy.new config stripe
  return ⟨Session.start hierarchy config.autoTune now, fun _ => .absent, .empty now, false⟩

/-- A pass that takes no time. -/
def instantly (_ : Nat) : Pass := ⟨0, .succeeded⟩

/-- The jobs of a configuration, in the order in which they start, with their periods. -/
def jobsOf (config : Config) (loads : Bool) : List (Job × Nat) :=
  [(.janitor, config.janitor.interval)] ++
    (if config.autoTune.enabled then [(.tuner, config.autoTune.interval)] else []) ++
    (if loads && config.prefetch.enabled then [(.prefetcher, config.prefetch.interval)] else [])

/-- Starts a cache with background jobs; with a source of values these may include loads ahead of
use. Without anything to run them on this fails before anything else is looked at. -/
def spawn (config : Config) (stripe : K → Nat) (source : Option (K → LoadResult V))
    (runtime : Bool) (now : Int) : Except ServiceError (Service K V) :=
  if !runtime then .error .noRuntime
  else
    match new config stripe now with
    | .error e => .error (.config e)
    | .ok s =>
      let jobs := (jobsOf config source.isSome).foldl
        (fun g (job, period) => g.schedule job period instantly) s.jobs
      .ok { s with load := source.getD s.load, jobs, attached := true }

/-- Whether background jobs are attached. -/
def isRunning (s : Service K V) : Bool := s.attached

def hierarchy (s : Service K V) : Hierarchy K V := s.session.hierarchy

/-- Moves the clock to an instant. -/
def setNow (s : Service K V) (now : Int) : Service K V :=
  { s with session := { s.session with now } }

variable [DecidableEq K]

def apply (s : Service K V) (op : Operation K V) : Answer V × Service K V :=
  let (answer, session) := s.session.step op
  (answer, { s with session })

variable [Ord K] [Adjacent K]

/-- The operation that one pass of a job is. -/
def passOf (s : Service K V) : Job → Operation K V
  | .janitor => .sweep s.hierarchy.config.janitor.accessStaleness
  | .tuner => .tune
  | .prefetcher =>
    .loadAhead (s.hierarchy.candidates s.hierarchy.config.prefetch s.session.now) s.load

/-- One pass of a job at an instant. -/
def perform (s : Service K V) (job : Job) (time : Int) : Service K V :=
  let s := s.setNow time
  (s.apply (s.passOf job)).2

/-- Performs the passes that start in some events. -/
def performAll (s : Service K V) (events : List (Event Job)) : Service K V :=
  events.foldl (fun s e => if e.kind = .started then s.perform e.name e.time else s) s

/-- Lets time pass up to an instant. The passes that fall due happen at their times. Returns what
the background jobs did. -/
def advance (s : Service K V) (horizon : Int) : List (Event Job) × Service K V :=
  let (events, jobs) := s.jobs.advance horizon
  (events, { (s.performAll events).setNow horizon with jobs })

/-- Lets time pass up to an instant. -/
def run (s : Service K V) (horizon : Int) : Service K V :=
  (s.advance horizon).2

/-- Detaches the background jobs, stops them and waits until they have ended. Returns what they did
meanwhile. -/
def stopJobs (s : Service K V) : List (Event Job) × Service K V :=
  if s.attached then
    let (events, jobs) := s.jobs.shutdown
    (events, { (s.performAll events).setNow jobs.now with jobs, attached := false })
  else ([], s)

/-- Stops the background jobs, if they are attached, and drops all entries and histories. -/
def shutdown (s : Service K V) : Service K V :=
  (s.stopJobs.2.apply .clear).2

end Service

end TieredCache
