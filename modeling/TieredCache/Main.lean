import TieredCache.Soak

/-!
# The program

Reads the configuration file, drives the cache until the time is up, and prints the report.
-/

namespace TieredCache

def readConfigFile (path : String) : IO Config.File := do
  try
    return .content (← IO.FS.readBinFile path)
  catch e =>
    match e with
    | .noFileOrDirectory .. => return .missing
    | _ => return .directory

/-- Time since `origin`, in nanoseconds. -/
def clock (origin : Nat) : IO Int := do
  return (← IO.monoNanosNow) - origin

/-- Drives the cache with random points until `deadline`. -/
def driveUntil (keySpace : Int) (origin : Nat) (deadline : Int)
    (s : Service Cell UInt64) : IO (Service Cell UInt64) := do
  let mut s := s
  let mut now ← clock origin
  while now < deadline do
    let p := Workload.sample keySpace (← IO.rand 0 4) (← IO.rand 0 0x7fffffff)
      (← IO.rand 0 0x7fffffff)
    s := Soak.drive (s.run now) p
    now ← clock origin
  return s

/-- Prints the end of a run. A run that is aborted ends as one does by the signal for that. -/
def finish (r : Soak.Result) : IO UInt32 := do
  IO.print r.output
  if !r.errors.isEmpty then IO.eprintln r.errors
  return (r.exitCode.getD 134).toUInt32

end TieredCache

open TieredCache in
def main (arguments : List String) : IO UInt32 := do
  match CommandLine.parse arguments with
  | .error e => finish (Soak.refused e)
  | .ok options =>
    let origin ← IO.monoNanosNow
    match Soak.start options (← readConfigFile options.config) 0 with
    | .error e => finish (Soak.failed e)
    | .ok s =>
      match Soak.crowded? options.workers with
      | some r => finish r
      | none =>
        let deadline := Duration.ofSeconds options.durationSecs
        finish (Soak.report options (← driveUntil options.keySpace origin deadline s))
