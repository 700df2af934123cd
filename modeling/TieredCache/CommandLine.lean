import TieredCache.Decimal.Layout
import TieredCache.Text.Terminal

/-!
# The command line

Options are read from left to right. The value of an option that stands in an argument of its own is
looked at only once the next known option is met or the arguments end, so an unknown argument behind
it is reported first.
-/

namespace TieredCache.CommandLine

open Text.Terminal (Interruption shown)

/-- The options of the program. -/
inductive Switch where
  | config
  | durationSecs
  | workers
  | keySpace
  | prefetch
  | metrics
  | verbose
  | help
  deriving DecidableEq, Repr

namespace Switch

def all : List Switch :=
  [.config, .durationSecs, .workers, .keySpace, .prefetch, .metrics, .verbose, .help]

def long : Switch → String
  | .config => "config"
  | .durationSecs => "duration-secs"
  | .workers => "workers"
  | .keySpace => "key-space"
  | .prefetch => "prefetch"
  | .metrics => "metrics"
  | .verbose => "verbose"
  | .help => "help"

def short? : Switch → Option Char
  | .config => some 'c'
  | .durationSecs => some 'd'
  | .workers => some 'w'
  | .verbose => some 'v'
  | .help => some 'h'
  | _ => none

/-- The name of the option's value, if it takes one. -/
def valueName? : Switch → Option String
  | .config => some "CONFIG"
  | .durationSecs => some "DURATION_SECS"
  | .workers => some "WORKERS"
  | .keySpace => some "KEY_SPACE"
  | _ => none

def text (s : Switch) : String :=
  match s.valueName? with
  | some v => "--" ++ s.long ++ " <" ++ v ++ ">"
  | none => "--" ++ s.long

def ofLong? (name : List Char) : Option Switch :=
  all.find? fun s => s.long.toList = name

def ofShort? (c : Char) : Option Switch :=
  all.find? fun s => s.short? = some c

end Switch

structure Options where
  config : String := "tiercache.json"
  durationSecs : Nat := 10
  workers : Nat := 8
  keySpace : Int := 256
  prefetch : Bool := false
  metrics : Bool := false
  verbose : Bool := false
  deriving DecidableEq, Repr

/-- Why a text is no integer of the wanted range. -/
inductive IntegerError where
  | empty
  | invalidDigit
  | tooLarge
  | tooSmall
  | outOfRange (n least greatest : Int)
  deriving DecidableEq, Repr

def IntegerError.message : IntegerError → String
  | .empty => "cannot parse integer from empty string"
  | .invalidDigit => "invalid digit found in string"
  | .tooLarge => "number too large to fit in target type"
  | .tooSmall => "number too small to fit in target type"
  | .outOfRange n least greatest =>
    Decimal.integerText n ++ " is not in " ++ Decimal.integerText least ++ "..=" ++
      Decimal.integerText greatest

/-- Why a command line is not followed. -/
inductive Error where
  | unknownArgument (argument : String)
  | missingValue (s : Switch)
  | invalidValue (value : String) (s : Switch) (e : IntegerError)
  | repeated (s : Switch)
  | unexpectedValue (value : String) (s : Switch)
  /-- The command line asks for help instead. -/
  | help
  deriving DecidableEq, Repr

def about : String :=
  "Drive a tiered cache with a synthetic workload and report its statistics"

def firstLine (text : String) : String :=
  let line := text.toList.takeWhile (· ≠ '\n')
  String.ofList
    (if line.length < text.length ∧ line.getLast? = some '\r' then line.dropLast else line)

/-- The message of an error. Arguments are shown without terminal controls, as `i` says. -/
def Error.messageWith (i : Interruption) : Error → String
  | .unknownArgument a => "error: unexpected argument '" ++ shown i a ++ "' found"
  | .missingValue s =>
    "error: a value is required for '" ++ s.text ++ "' but none was supplied"
  | .invalidValue v s e =>
    "error: invalid value '" ++ shown i v ++ "' for '" ++ s.text ++ "': " ++ e.message
  | .repeated s => "error: the argument '" ++ s.text ++ "' cannot be used multiple times"
  | .unexpectedValue v s =>
    "error: unexpected value '" ++ shown i v ++ "' for '" ++ s.text ++
      "' found; no more were expected"
  | .help => about

/-- The message of an error. A blank ends a control sequence in an argument. -/
def Error.message (e : Error) : String :=
  e.messageWith .ends

/-- The line of an error that the program reports. A blank only suspends a control sequence in an
argument. -/
def Error.report (e : Error) : String :=
  firstLine (e.messageWith .suspends)

/-- The number written by digits that fit below a bound. The first character that is no digit, or
that makes the number too large, decides. -/
def digitsBelow (bound : Nat) (overflow : IntegerError) : List Char → Nat → Except IntegerError Nat
  | [], n => .ok n
  | c :: rest, n =>
    if !c.isDigit then .error .invalidDigit
    else
      let m := Nat.ofDigitChars 10 [c] n
      if bound ≤ m then .error overflow else digitsBelow bound overflow rest m

def natural (s : List Char) : Except IntegerError Nat :=
  match s with
  | [] => .error .empty
  | ['+'] => .error .invalidDigit
  | '+' :: digits => digitsBelow UInt64.size .tooLarge digits 0
  | digits => digitsBelow UInt64.size .tooLarge digits 0

def signedBound : Nat := 9223372036854775808

def integer (s : List Char) : Except IntegerError Int :=
  match s with
  | [] => .error .empty
  | ['+'] => .error .invalidDigit
  | ['-'] => .error .invalidDigit
  | '+' :: digits => (digitsBelow signedBound .tooLarge digits 0).map Int.ofNat
  | '-' :: digits => (digitsBelow (signedBound + 1) .tooSmall digits 0).map fun n => -(n : Int)
  | digits => (digitsBelow signedBound .tooLarge digits 0).map Int.ofNat

def integer32 (s : List Char) : Except IntegerError Int := do
  let n ← integer s
  if -2147483648 ≤ n ∧ n ≤ 2147483647 then return n
  else throw (.outOfRange n (-2147483648) 2147483647)

/-- The command line so far: the options with their values, and the last option if its value has not
been looked at yet or is still to come. -/
structure State where
  options : Options := {}
  seen : List Switch := []
  pending : Option (Switch × Option String) := none

namespace State

/-- Notes that an option has been used, which each may be once. -/
def mark (st : State) (s : Switch) : Except Error State :=
  if s ∈ st.seen then .error (.repeated s) else .ok { st with seen := s :: st.seen }

def assign (st : State) (s : Switch) (value : String) : Except Error State := do
  let st ← st.mark s
  let invalid (e : IntegerError) : Except Error State := .error (.invalidValue value s e)
  match s with
  | .config =>
    if value.isEmpty then .error (.missingValue s)
    else .ok { st with options := { st.options with config := value } }
  | .durationSecs =>
    match natural value.toList with
    | .error e => invalid e
    | .ok n => .ok { st with options := { st.options with durationSecs := n } }
  | .workers =>
    match natural value.toList with
    | .error e => invalid e
    | .ok n => .ok { st with options := { st.options with workers := n } }
  | .keySpace =>
    match integer32 value.toList with
    | .error e => invalid e
    | .ok n => .ok { st with options := { st.options with keySpace := n } }
  | _ => .ok st

/-- Looks at the value of the last option, if that is still to be done. -/
def resolve (st : State) : Except Error State :=
  match st.pending with
  | none => .ok st
  | some (s, none) => .error (.missingValue s)
  | some (s, some value) => { st with pending := none }.assign s value

/-- Uses an option with a value in the same argument. -/
def attach (st : State) (s : Switch) (value : String) : Except Error State := do
  let st ← st.resolve
  st.assign s value

def await (st : State) (s : Switch) : Except Error State := do
  let st ← st.resolve
  return { st with pending := some (s, none) }

def flag (st : State) (s : Switch) : Except Error State := do
  let st ← st.resolve
  match s with
  | .help => .error .help
  | _ =>
    let st ← st.mark s
    match s with
    | .prefetch => return { st with options := { st.options with prefetch := true } }
    | .metrics => return { st with options := { st.options with metrics := true } }
    | .verbose => return { st with options := { st.options with verbose := true } }
    | _ => return st

/-- An argument behind two dashes. -/
def long (st : State) (argument : List Char) : Except Error State :=
  let name := argument.takeWhile (· ≠ '=')
  let value? := (argument.dropWhile (· ≠ '=')).tail?.map String.ofList
  match Switch.ofLong? name with
  | none => .error (.unknownArgument ("--" ++ String.ofList name))
  | some s =>
    match s.valueName?, value? with
    | some _, some value => st.attach s value
    | some _, none => st.await s
    | none, some value => .error (.unexpectedValue value s)
    | none, none => st.flag s

/-- One-letter options behind one dash. The first one that takes a value takes the rest of the
argument, without an equals sign in front. -/
def short (st : State) : List Char → Except Error State
  | [] => .ok st
  | c :: rest =>
    match Switch.ofShort? c with
    | none => .error (.unknownArgument (String.ofList ['-', c]))
    | some s =>
      match s.valueName?, rest with
      | some _, [] => st.await s
      | some _, '=' :: value => st.attach s (String.ofList value)
      | some _, value => st.attach s (String.ofList value)
      | none, _ =>
        match st.flag s with
        | .error e => .error e
        | .ok st => st.short rest

/-- An argument that is no option: the value of the last one, if that is to come. -/
def plain (st : State) (argument : String) : Except Error State :=
  match st.pending with
  | some (s, none) => .ok { st with pending := some (s, some argument) }
  | _ => .error (.unknownArgument argument)

/-- Any argument. Behind a lone pair of dashes no argument is known. -/
def read (st : State) : List String → Except Error State
  | [] => st.resolve
  | argument :: rest =>
    match argument.toList with
    | ['-', '-'] =>
      match rest with
      | [] => st.resolve
      | next :: _ => .error (.unknownArgument next)
    | '-' :: '-' :: name =>
      match st.long name with
      | .error e => .error e
      | .ok st => st.read rest
    | '-' :: c :: letters =>
      match st.short (c :: letters) with
      | .error e => .error e
      | .ok st => st.read rest
    | _ =>
      match st.plain argument with
      | .error e => .error e
      | .ok st => st.read rest

end State

def parse (arguments : List String) : Except Error Options :=
  (State.read {} arguments).map State.options

def Switch.purpose : Switch → String
  | .config => "Path to configuration file (JSON)"
  | .durationSecs => "How long to run the workload, in seconds"
  | .workers => "Number of concurrent worker tasks issuing get/put"
  | .keySpace => "Side length of the square key grid the workload samples from"
  | .prefetch => "Enable speculative prefetch of adjacent grid keys"
  | .metrics => "Print Prometheus text exposition after the run"
  | .verbose => "Enable verbose logging"
  | .help => "Print help"

/-- The value of an option that is not used, if it takes one. -/
def Switch.default? (s : Switch) : Option String :=
  let standard : Options := {}
  match s with
  | .config => some standard.config
  | .durationSecs => some (Decimal.naturalText standard.durationSecs)
  | .workers => some (Decimal.naturalText standard.workers)
  | .keySpace => some (Decimal.integerText standard.keySpace)
  | _ => none

def Switch.usage (s : Switch) : String :=
  match s.short? with
  | some c => String.ofList ['-', c, ',', ' '] ++ s.text
  | none => "    " ++ s.text

/-- The line on an option. What the options are for begins in one column. -/
def Switch.helpLine (s : Switch) : String :=
  let column := (all.map fun s => s.usage.length).foldl max 0 + 2
  let gap := String.ofList (List.replicate (column - s.usage.length) ' ')
  let value := s.default?.elim "" fun v => " [default: " ++ v ++ "]"
  "  " ++ s.usage ++ gap ++ s.purpose ++ value ++ "\n"

def helpText : String :=
  about ++ "\n\nUsage: tiercache-soak [OPTIONS]\n\nOptions:\n" ++
    String.join (Switch.all.map Switch.helpLine)

end TieredCache.CommandLine
