import TieredCache.CommandLine
import TieredCache.Config.File
import TieredCache.Exposition
import TieredCache.Service
import TieredCache.Workload

/-!
# Soak runs

The program starts a cache over grid points as its configuration file says, drives it with the
workload, and reports its statistics.
-/

namespace TieredCache.Soak

structure Result where
  /-- The exit code, which a run that is aborted does not have. -/
  exitCode : Option Nat
  output : String
  /-- The first line of what is reported as an error. -/
  errors : String
  deriving DecidableEq, Repr

/-- The source of values for loads ahead of use. -/
def load (p : Cell) : LoadResult UInt64 :=
  .value (Workload.compute p.x p.y)

/-- All moves of a run without concurrency may share one stripe. -/
def stripe (_ : Cell) : Nat := 0

/-- The end of a run whose command line is not followed. -/
def refused : CommandLine.Error → Result
  | .help => ⟨some 0, CommandLine.helpText, ""⟩
  | e => ⟨some 2, "", e.report⟩

/-- The end of a run whose configuration is refused. A duration that overflows stops the program,
which puts an empty line in front of its message then. -/
def failed : ServiceError → Result
  | .config (.read .durationOverflow _) => ⟨some 101, "", ""⟩
  | e => ⟨some 1, "", "Error: " ++ e.message⟩

/-- The cache of a run. The command line can enable loads ahead of use. -/
def start (options : CommandLine.Options) (file : Config.File) (now : Int) :
    Except ServiceError (Service Cell UInt64) :=
  match Config.load file with
  | .error e => .error (.config e)
  | .ok config =>
    let enabled := config.prefetch.enabled || options.prefetch
    let config := { config with prefetch := { config.prefetch with enabled } }
    Service.spawn config stripe (some load) true now

/-- The most bytes that a sequence may take. -/
def greatestSize : Nat := 9223372036854775807

/-- The most bytes that are to be had. -/
def memory : Nat := 1099511627776

/-- The end of a run whose handles on its workers, of eight bytes each, find no place. -/
def crowded? (workers : Nat) : Option Result :=
  let size := 8 * workers
  if greatestSize < size then some ⟨some 101, "", ""⟩
  else if memory < size then
    some ⟨none, "", "memory allocation of " ++ Decimal.naturalText size ++ " bytes failed"⟩
  else none

/-- One step of the workload: a lookup, and a write if it finds nothing. -/
def drive (s : Service Cell UInt64) (p : Cell) : Service Cell UInt64 :=
  match s.apply (.get p) with
  | (.found none, s) => (s.apply (.put p (Workload.compute p.x p.y))).2
  | (_, s) => s

def report (options : CommandLine.Options) (s : Service Cell UInt64) : Result :=
  let statistics := s.hierarchy.statistics
  let metrics := if options.metrics then (Exposition.new.observe statistics).render else ""
  ⟨some 0, statistics.document.indented ++ "\n" ++ metrics, ""⟩

/-- A run that has no time for any work. -/
def idleRun (arguments : List String) (file : Config.File) : Result :=
  match CommandLine.parse arguments with
  | .error e => refused e
  | .ok options =>
    match start options file 0 with
    | .error e => failed e
    | .ok s => (crowded? options.workers).getD (report options s)

end TieredCache.Soak
