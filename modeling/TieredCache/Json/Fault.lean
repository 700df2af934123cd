import TieredCache.Decimal.Layout

/-!
# Faults of JSON texts

A fault has a cause and a place. While a text is read, the place is kept as the number of bytes that
are left behind it, since what is left is all that a scan has before its eyes; lines and columns are
counted only when a fault is reported.
-/

namespace TieredCache.Json

/-- Why a text is not JSON. -/
inductive Cause where
  | endInArray
  | endInObject
  | endInString
  | endInValue
  | expectedColon
  | expectedCommaOrBracket
  | expectedCommaOrBrace
  | expectedWord
  | expectedValue
  | nameNotString
  | invalidEscape
  | invalidNumber
  | numberOutOfRange
  | controlCharacter
  | loneSurrogate
  | unfinishedPair
  | trailingComma
  | trailingCharacters
  deriving DecidableEq, Repr

namespace Cause

/-- Whether a text ends too early, rather than going on in a way it must not. -/
def isEnd : Cause → Bool
  | .endInArray | .endInObject | .endInString | .endInValue => true
  | _ => false

def message : Cause → String
  | .endInArray => "EOF while parsing a list"
  | .endInObject => "EOF while parsing an object"
  | .endInString => "EOF while parsing a string"
  | .endInValue => "EOF while parsing a value"
  | .expectedColon => "expected `:`"
  | .expectedCommaOrBracket => "expected `,` or `]`"
  | .expectedCommaOrBrace => "expected `,` or `\x7d`"
  | .expectedWord => "expected ident"
  | .expectedValue => "expected value"
  | .nameNotString => "key must be a string"
  | .invalidEscape => "invalid escape"
  | .invalidNumber => "invalid number"
  | .numberOutOfRange => "number out of range"
  | .controlCharacter =>
    "control character (\\u0000-\\u001F) found while parsing a string"
  | .loneSurrogate => "lone leading surrogate in hex escape"
  | .unfinishedPair => "unexpected end of hex escape"
  | .trailingComma => "trailing comma"
  | .trailingCharacters => "trailing characters"

end Cause

/-- The number of bytes of a text in UTF-8. -/
def byteLength (s : List Char) : Nat :=
  s.foldl (fun n c => n + c.utf8Size) 0

/-- A cause, and the number of bytes of the text behind the place where it is noticed. -/
structure Fault where
  cause : Cause
  left : Nat
  deriving DecidableEq, Repr

/-- A fault noticed in front of `rest`. -/
def Cause.before (cause : Cause) (rest : List Char) : Fault :=
  ⟨cause, byteLength rest⟩

/-- A fault noticed on the first byte of `rest`, or at the end of the text. -/
def Cause.on (cause : Cause) (rest : List Char) : Fault :=
  ⟨cause, byteLength rest - 1⟩

/-- A fault noticed at the end of the text. -/
def Cause.atEnd (cause : Cause) : Fault :=
  ⟨cause, 0⟩

/-- The fault at a place where a text stops being JSON, for one who reads the value there and for
one who skips it. -/
structure Breakage where
  read : Fault
  skipped : Fault
  deriving DecidableEq, Repr

def Breakage.both (f : Fault) : Breakage := ⟨f, f⟩

/-- A place in a text: its line, counted from one, and the number of bytes in front of it on that
line. -/
structure Position where
  line : Nat
  column : Nat
  deriving DecidableEq, Repr

namespace Position

/-- The position behind the next `bytes` bytes of a text, which begins at `start`. -/
def advance (start : Position) : Nat → List Char → Position
  | _, [] => start
  | 0, _ => start
  | bytes@(_ + 1), c :: rest =>
    let next : Position :=
      if c = '\n' then ⟨start.line + 1, 0⟩
      else ⟨start.line, start.column + min bytes c.utf8Size⟩
    next.advance (bytes - c.utf8Size) rest

/-- The position in a text behind which `left` bytes are left. -/
def ofLeft (text : String) (left : Nat) : Position :=
  advance ⟨1, 0⟩ (text.utf8ByteSize - left) text.toList

def text (p : Position) : String :=
  "line " ++ Decimal.naturalText p.line ++ " column " ++ Decimal.naturalText p.column

end Position

end TieredCache.Json
