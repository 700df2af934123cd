import TieredCache.Json.Reading
import TieredCache.Level

/-!
# Levels as JSON

A level is written as its name. It is read from its name, or from an object whose one field has that
name and holds `null`.
-/

namespace TieredCache.Level

open Json

def variant : Level → String
  | .hot => "Hot"
  | .warm => "Warm"
  | .cold => "Cold"

/-- The level of a name, behind which `rest` is left. -/
def ofVariant (name : String) (rest : List Char) : Except ReadError Level :=
  match all.find? fun l => l.variant = name with
  | some l => .ok l
  | none => .error (.mismatch (.unknownVariant name (all.map variant)) (byteLength rest))

/-- Demands a colon, after blanks. -/
def expectColon (s : List Char) : Except ReadError (List Char) :=
  match skipGap s with
  | [] => .error (.fault Cause.endInObject.atEnd)
  | c :: rest => if c = ':' then .ok rest else .error (.fault (Cause.expectedColon.on (c :: rest)))

/-- Demands a closing brace, after blanks. -/
def expectBrace (s : List Char) : Except ReadError (List Char) :=
  match skipGap s with
  | [] => .error (.fault Cause.endInObject.atEnd)
  | c :: rest =>
    if c = '\x7d' then .ok rest else .error (.fault (Cause.expectedValue.before (c :: rest)))

/-- What is left after a value that has been read without fault. -/
def restOf {s : List Char} {α : Type} (front : Front s α) : Except ReadError (List Char) :=
  match front.rest with
  | some rest => .ok rest.1
  | none => .error (.fault Cause.endInValue.atEnd)

/-- A name at the front of a text that begins with a quote. -/
def readName (s : List Char) : Except ReadError (Level × List Char) := do
  let front := readValue s
  match front.head with
  | .string (.ok name) _ =>
    let rest ← restOf front
    return (← ofVariant name rest, rest)
  | o => throw (o.mismatch "variant identifier")

/-- A name as the key of an object, which must be a string. -/
def readKey (s : List Char) : Except ReadError (Level × List Char) :=
  match skipGap s with
  | [] => .error (.fault Cause.endInValue.atEnd)
  | '"' :: r => readName ('"' :: r)
  | r => .error (.fault (Cause.nameNotString.on r))

def readNull (s : List Char) : Except ReadError (List Char) := do
  let front := readValue s
  match front.head with
  | .null _ => restOf front
  | o => throw (o.mismatch "unit")

/-- The level at the front of a text: a name, or an object with one field. -/
def readFront (s : List Char) : Except ReadError (Level × List Char) :=
  match skipGap s with
  | [] => .error (.fault Cause.endInValue.atEnd)
  | '"' :: r => readName ('"' :: r)
  | '\x7b' :: r => do
    let (l, r) ← readKey r
    let r ← expectColon r
    let r ← readNull r
    let r ← expectBrace r
    return (l, r)
  | r => .error (.fault (Cause.expectedValue.on r))

/-- Reads a text that holds a level and nothing else. -/
def parse (text : String) : Except ReadError Level := do
  let (l, rest) ← readFront text.toList
  match endFault rest with
  | some f => throw (.fault f)
  | none => return l

end TieredCache.Level
