import TieredCache.Config.Basic
import TieredCache.Decimal.Layout
import TieredCache.Json.Reading

/-!
# Valid configurations

A configuration is checked in a fixed order, and the first violation is reported.
-/

namespace TieredCache.Config

/-- The tasks that run at an interval. -/
inductive Task where
  | janitor
  | autoTune
  | prefetch
  deriving DecidableEq, Repr

def Task.label : Task → String
  | .janitor => "janitor"
  | .autoTune => "auto-tune"
  | .prefetch => "prefetch"

/-- The hit rates that tuning compares with. -/
inductive Threshold where
  | expand
  | shrink
  deriving DecidableEq, Repr

def Threshold.name : Threshold → String
  | .expand => "expand_threshold"
  | .shrink => "shrink_threshold"

/-- Why a configuration file cannot be read as text. -/
inductive FileError where
  | isDirectory
  | notUtf8
  deriving DecidableEq, Repr

def FileError.message : FileError → String
  | .isDirectory => "Is a directory (os error 21)"
  | .notUtf8 => "stream did not contain valid UTF-8"

/-- Why a configuration is refused. -/
inductive Error where
  /-- The capacities of a tier are not in order, or its least one is zero. -/
  | capacityBounds (level : Level) (limits : TierLimits)
  /-- A tier whose entries would be expired at once. -/
  | zeroTtl (level : Level)
  /-- A task that would run without pause. -/
  | zeroInterval (task : Task)
  /-- A step that is not a positive part of the capacity. -/
  | stepFraction (value : Float)
  /-- A threshold that is no rate. -/
  | threshold (which : Threshold) (value : Float)
  | file (e : FileError)
  /-- The text does not describe a configuration, which is noticed at a position in it. -/
  | read (e : Json.ReadError) (p : Json.Position)

/-- The message of an error, without its position in a text. -/
def Error.message : Error → String
  | .capacityBounds level limits =>
    level.name ++ " tier: capacity bounds must satisfy 0 < min (" ++
      Decimal.naturalText limits.minCapacity ++ ") <= capacity (" ++
      Decimal.naturalText limits.capacity ++ ") <= max (" ++
      Decimal.naturalText limits.maxCapacity ++ ")"
  | .zeroTtl level => level.name ++ " tier: ttl must be greater than zero"
  | .zeroInterval task => task.label ++ " interval must be greater than zero"
  | .stepFraction value =>
    "auto-tune step fraction must be within (0, 1], got " ++ Decimal.plainText value
  | .threshold which value =>
    which.name ++ " must be within [0, 1], got " ++ Decimal.plainText value
  | .file e => "failed to read config: " ++ e.message
  | .read .durationOverflow _ => Json.ReadError.durationOverflow.message
  | .read e _ => "failed to parse config: " ++ e.message

/-- The message of an error, with its position if it has one. -/
def Error.report (e : Error) : String :=
  match e with
  | .read .durationOverflow _ => e.message
  | .read _ p => e.message ++ " at " ++ p.text
  | _ => e.message

def checkTier (level : Level) (limits : TierLimits) : Except Error Unit :=
  if limits.minCapacity = 0 ∨ limits.capacity < limits.minCapacity ∨
      limits.maxCapacity < limits.capacity then
    .error (.capacityBounds level limits)
  else if limits.ttl = 0 then .error (.zeroTtl level)
  else .ok ()

def checkInterval (task : Task) (interval : Nat) : Except Error Unit :=
  if interval = 0 then .error (.zeroInterval task) else .ok ()

/-- Checks the part by which tiers are tuned. What is not a number fails. -/
def checkStep (value : Float) : Except Error Unit :=
  if 0 < value && value <= 1 then .ok () else .error (.stepFraction value)

/-- Checks a threshold. What is not a number fails. -/
def checkThreshold (which : Threshold) (value : Float) : Except Error Unit :=
  if 0 <= value && value <= 1 then .ok () else .error (.threshold which value)

/-- Checks a configuration: the tiers from hot to cold, the intervals, the step, the thresholds. -/
def validate (c : Config) : Except Error Unit := do
  checkTier .hot c.tiers.hot
  checkTier .warm c.tiers.warm
  checkTier .cold c.tiers.cold
  checkInterval .janitor c.janitor.interval
  checkInterval .autoTune c.autoTune.interval
  checkInterval .prefetch c.prefetch.interval
  checkStep c.autoTune.stepFraction
  checkThreshold .expand c.autoTune.expandThreshold
  checkThreshold .shrink c.autoTune.shrinkThreshold

end TieredCache.Config
