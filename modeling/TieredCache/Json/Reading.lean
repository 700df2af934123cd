import TieredCache.DurationText.Reader
import TieredCache.Json.Outline
import TieredCache.Text.Quoted

/-!
# Reading typed values from outlines

An outline is read from left to right, and the first error decides. A section, that is a record of
named fields, may be written as an object or as an array of its fields in their order.
-/

namespace TieredCache.Json

/-- What stands where a value of another kind is expected. -/
inductive Found where
  | null
  | bool (b : Bool)
  | number (n : Number)
  | string (s : String)
  | sequence
  | map

def Found.text : Found → String
  | .null => "null"
  | .bool b => "boolean `" ++ (if b then "true" else "false") ++ "`"
  | .number (.integer n) => "integer `" ++ Decimal.integerText n ++ "`"
  | .number (.float x) => "floating point `" ++ (Number.float x).text ++ "`"
  | .string s => "string " ++ Text.quoted s
  | .sequence => "sequence"
  | .map => "map"

/-- How a value differs from the one that is wanted. -/
inductive Mismatch where
  /-- A value of another kind. -/
  | invalidType (found : Found) (expected : String)
  /-- A value of the right kind that is not allowed. -/
  | invalidValue (found : Found) (expected : String)
  | missingField (name : String)
  | duplicateField (name : String)
  /-- An array that ends before the last field. -/
  | invalidLength (length : Nat) (expected : String)
  | unknownVariant (name : String) (expected : List String)

def Mismatch.message : Mismatch → String
  | .invalidType found expected => "invalid type: " ++ found.text ++ ", expected " ++ expected
  | .invalidValue found expected => "invalid value: " ++ found.text ++ ", expected " ++ expected
  | .missingField name => "missing field `" ++ name ++ "`"
  | .duplicateField name => "duplicate field `" ++ name ++ "`"
  | .invalidLength length expected =>
    "invalid length " ++ Decimal.naturalText length ++ ", expected " ++ expected
  | .unknownVariant name expected =>
    "unknown variant `" ++ name ++ "`, expected one of " ++
      String.intercalate ", " (expected.map fun v => "`" ++ v ++ "`")

/-- Why a text does not describe a value of the wanted type. -/
inductive ReadError where
  /-- The text is not JSON. -/
  | fault (f : Fault)
  /-- A value is not as wanted, which is noticed where `left` bytes of the text are left. -/
  | mismatch (m : Mismatch) (left : Nat)
  /-- A duration whose sum overflows. -/
  | durationOverflow

namespace ReadError

def message : ReadError → String
  | .fault f => f.cause.message
  | .mismatch m _ => m.message
  | .durationOverflow => "overflow in Duration::new"

/-- The number of bytes of the text behind the place of an error. -/
def left : ReadError → Nat
  | .fault f => f.left
  | .mismatch _ left => left
  | .durationOverflow => 0

end ReadError

namespace Outline

/-- The error of a value of another kind, noticed behind the value. -/
def otherKind (found : Found) (expected : String) (p : Place) : ReadError :=
  .mismatch (.invalidType found expected) (byteLength p.behind)

/-- The error where something else was expected: a fault of the value itself comes first. An array
or an object is not looked into. -/
def mismatch (expected : String) : Outline → ReadError
  | .null p => otherKind .null expected p
  | .bool b p => otherKind (.bool b) expected p
  | .number (.ok n) p => otherKind (.number n) expected p
  | .number (.error f) _ => .fault f
  | .string (.ok s) p => otherKind (.string s) expected p
  | .string (.error f) _ => .fault f
  | .array _ _ p => .mismatch (.invalidType .sequence expected) (byteLength p.start)
  | .object _ _ p => .mismatch (.invalidType .map expected) (byteLength p.start)
  | .broken b _ => .fault b.read

/-- A natural number of 64 bits; `expected` names its type. -/
def natural (expected : String) : Outline → Except ReadError Nat
  | .number (.ok (.integer n)) p =>
    if 0 ≤ n then .ok n.toNat
    else .error (.mismatch (.invalidValue (.number (.integer n)) expected) (byteLength p.behind))
  | o => .error (o.mismatch expected)

def float : Outline → Except ReadError Float
  | .number (.ok (.integer n)) _ => .ok (Float.ofInt n)
  | .number (.ok (.float x)) _ => .ok x
  | o => .error (o.mismatch "f64")

def bool? : Outline → Except ReadError Bool
  | .bool b _ => .ok b
  | o => .error (o.mismatch "a boolean")

def duration : Outline → Except ReadError Nat
  | .string (.ok s) p =>
    match DurationText.read s with
    | .ok d => .ok d
    | .error .invalid =>
      let m : Mismatch := .invalidValue (.string s) "a duration"
      .error (.mismatch m (byteLength p.behind))
    | .error .overflow => .error .durationOverflow
  | o => .error (o.mismatch "a duration")

/-- Nothing, where `null` stands, and a value otherwise. -/
def optional {α : Type} (read : Outline → Except ReadError α) :
    Outline → Except ReadError (Option α)
  | .null _ => .ok none
  | o => (read o).map some

/-- The fault of a value behind the last item that is wanted. -/
def surplus (o : Outline) : Fault :=
  (if o.start.head? = some ']' then Cause.trailingComma else .trailingCharacters).on o.start

end Outline

/-- The fault of an open end behind the last item that is wanted, where no comma is expected. -/
def Breakage.atLast (b : Breakage) : Fault :=
  if b.read.cause = .expectedCommaOrBracket then { b.read with cause := .trailingCharacters }
  else b.read

/-- What is left behind a second use of a name: an object that ends there is left. -/
def leftBehindName (s : List Char) : Nat :=
  match skipGap s with
  | '\x7d' :: rest => byteLength rest
  | rest => byteLength rest

/-- A named field of a record: how its value is read into the record. -/
structure FieldReader (σ : Type) where
  name : String
  read : Outline → σ → Except ReadError σ

/-- A field that holds what `decode` makes of its value. -/
def FieldReader.of {σ α : Type} (name : String) (decode : Outline → Except ReadError α)
    (put : α → σ → σ) : FieldReader σ :=
  ⟨name, fun o s => (decode o).map fun a => put a s⟩

/-- A record that can be read: its name in messages, its fields in their order, and the error for an
array that ends before the last field, if that is one. -/
structure Section (σ : Type) where
  expected : String
  fields : List (FieldReader σ)
  tooShort : Option (Nat → Mismatch)

namespace Section

variable {σ : Type}

/-- Reads named fields in the order of the text. A field twice is an error; unknown fields are
skipped. -/
def readNamed (fields : List (FieldReader σ)) (seen : List String) (s : σ) :
    List (FieldName × Outline) → Except ReadError σ
  | [] => .ok s
  | (⟨.error f, _⟩, _) :: _ => .error (.fault f)
  | (⟨.ok name, behind⟩, value) :: rest =>
    match fields.find? fun field => field.name = name with
    | none =>
      match value.skipFault with
      | some f => .error (.fault f)
      | none => readNamed fields seen s rest
    | some field =>
      if name ∈ seen then .error (.mismatch (.duplicateField name) (leftBehindName behind))
      else
        match field.read value s with
        | .error e => .error e
        | .ok s => readNamed fields (name :: seen) s rest

/-- Reads fields by their position, the first of which is `position`. Another item behind the last
one is a fault of the text; `behind` is what is left behind the array. -/
def readPositional (tooShort : Option (Nat → Mismatch)) (openEnd : Option Breakage)
    (behind : List Char) : List (FieldReader σ) → Nat → List Outline → σ → Except ReadError σ
  | [], _, [], s =>
    match openEnd with
    | none => .ok s
    | some b => .error (.fault b.atLast)
  | [], _, o :: _, _ => .error (.fault o.surplus)
  | _ :: _, position, [], s =>
    match openEnd, tooShort with
    | some b, _ => .error (.fault b.read)
    | none, some m => .error (.mismatch (m position) (byteLength behind))
    | none, none => .ok s
  | field :: fields, position, value :: values, s =>
    match field.read value s with
    | .error e => .error e
    | .ok s => readPositional tooShort openEnd behind fields (position + 1) values s

/-- Reads a record; fields that are not written keep their value in `start`. -/
def read (record : Section σ) (start : σ) : Outline → Except ReadError σ
  | .object fields openEnd _ =>
    match readNamed record.fields [] start fields with
    | .error e => .error e
    | .ok s =>
      match openEnd with
      | none => .ok s
      | some b => .error (.fault b.read)
  | .array items openEnd p =>
    readPositional record.tooShort openEnd p.behind record.fields 0 items start
  | o => .error (o.mismatch record.expected)

end Section

/-- Reads a text that holds one value and nothing else. -/
def readText {α : Type} (decode : Outline → Except ReadError α) (text : String) :
    Except ReadError α :=
  let front := readValue text.toList
  match decode front.head with
  | .error e => .error e
  | .ok a =>
    match front.rest with
    | none => .error (.fault Cause.endInValue.atEnd)
    | some rest =>
      match endFault rest.1 with
      | some f => .error (.fault f)
      | none => .ok a

mutual

/-- The value an outline stands for, if its whole text is JSON. -/
def Outline.value? : Outline → Except Fault Value
  | .null _ => .ok .null
  | .bool b _ => .ok (.bool b)
  | .number n _ => n.map .number
  | .string s _ => s.map .string
  | .array items openEnd _ =>
    match itemValues? items, openEnd with
    | .ok values, none => .ok (.array values)
    | .ok _, some b => .error b.read
    | .error f, _ => .error f
  | .object fields openEnd _ =>
    match fieldValues? fields, openEnd with
    | .ok values, none => .ok (.object values)
    | .ok _, some b => .error b.read
    | .error f, _ => .error f
  | .broken b _ => .error b.read

def itemValues? : List Outline → Except Fault (List Value)
  | [] => .ok []
  | o :: rest =>
    match o.value? with
    | .error f => .error f
    | .ok v => (itemValues? rest).map (v :: ·)

def fieldValues? : List (FieldName × Outline) → Except Fault (List (String × Value))
  | [] => .ok []
  | (⟨.error f, _⟩, _) :: _ => .error f
  | (⟨.ok name, _⟩, o) :: rest =>
    match o.value? with
    | .error f => .error f
    | .ok v => (fieldValues? rest).map ((name, v) :: ·)

end

end TieredCache.Json
