import TieredCache.Decimal.Layout

/-!
# JSON values and their text

`Value.compact` writes a value without blanks, `Value.indented` over several lines. An object's
fields are written in the order in which they are listed.
-/

namespace TieredCache.Json

/-- A JSON number: an integer, or a binary64 number. -/
inductive Number where
  | integer (n : Int)
  | float (x : Float)

inductive Value where
  | null
  | bool (b : Bool)
  | number (n : Number)
  | string (s : String)
  | array (items : List Value)
  | object (fields : List (String × Value))

/-- Floating-point numbers always show a fraction or an exponent. Those from `0.00001` on and below
`10 ^ 16` are positional. Of two equally near decimals the one with the even last digit is taken. -/
def numberLayout : Decimal.Layout := ⟨some (-5, 15), true, .toEven⟩

/-- A number's text. What is not finite has none and is written as `null`. -/
def Number.text : Number → String
  | .integer n => Decimal.integerText n
  | .float x => (numberLayout.text? x).getD "null"

/-- A character inside a string: the quote, the backslash and the control characters are escaped,
all others stand for themselves. -/
def escapedChar (c : Char) : List Char :=
  if c = '"' then ['\\', '"']
  else if c = '\\' then ['\\', '\\']
  else if c = '\n' then ['\\', 'n']
  else if c = '\r' then ['\\', 'r']
  else if c = '\t' then ['\\', 't']
  else if c = '\x08' then ['\\', 'b']
  else if c = '\x0c' then ['\\', 'f']
  else if c.toNat < 0x20 then
    ['\\', 'u', '0', '0', Nat.digitChar (c.toNat / 16), Nat.digitChar (c.toNat % 16)]
  else [c]

def stringText (s : String) : List Char :=
  '"' :: s.toList.flatMap escapedChar ++ ['"']

namespace Value

def int (n : Int) : Value := .number (.integer n)

def nat (n : Nat) : Value := .number (.integer n)

def float (x : Float) : Value := .number (.float x)

mutual

/-- A value without blanks. -/
def chars : Value → List Char
  | .null => "null".toList
  | .bool b => (if b then "true" else "false").toList
  | .number n => n.text.toList
  | .string s => stringText s
  | .array items => '[' :: itemChars items ++ [']']
  | .object fields => '\x7b' :: fieldChars fields ++ ['\x7d']

/-- Items separated by commas. -/
def itemChars : List Value → List Char
  | [] => []
  | [v] => chars v
  | v :: w :: rest => chars v ++ ',' :: itemChars (w :: rest)

/-- Fields separated by commas. -/
def fieldChars : List (String × Value) → List Char
  | [] => []
  | [(name, v)] => stringText name ++ ':' :: chars v
  | (name, v) :: f :: rest => stringText name ++ ':' :: chars v ++ ',' :: fieldChars (f :: rest)

end

/-- The text of a value without blanks. -/
def compact (v : Value) : String :=
  String.ofList v.chars

/-- The start of a line at a depth: two blanks for each level. -/
def newLine (depth : Nat) : List Char :=
  '\n' :: List.replicate (2 * depth) ' '

mutual

/-- A value whose items and fields each have a line of their own. -/
def lines (depth : Nat) : Value → List Char
  | .array (v :: rest) =>
    '[' :: itemLines (depth + 1) (v :: rest) ++ newLine depth ++ [']']
  | .object (f :: rest) =>
    '\x7b' :: fieldLines (depth + 1) (f :: rest) ++ newLine depth ++ ['\x7d']
  | .array [] => ['[', ']']
  | .object [] => ['\x7b', '\x7d']
  | .null => "null".toList
  | .bool b => (if b then "true" else "false").toList
  | .number n => n.text.toList
  | .string s => stringText s

/-- Items, each on a line. -/
def itemLines (depth : Nat) : List Value → List Char
  | [] => []
  | [v] => newLine depth ++ lines depth v
  | v :: w :: rest => newLine depth ++ lines depth v ++ ',' :: itemLines depth (w :: rest)

/-- Fields, each on a line. -/
def fieldLines (depth : Nat) : List (String × Value) → List Char
  | [] => []
  | [(name, v)] => newLine depth ++ stringText name ++ ':' :: ' ' :: lines depth v
  | (name, v) :: f :: rest =>
    newLine depth ++ stringText name ++ ':' :: ' ' :: lines depth v ++ ',' ::
      fieldLines depth (f :: rest)

end

/-- The text of a value over several lines, two blanks deeper at each level. -/
def indented (v : Value) : String :=
  String.ofList (v.lines 0)

end Value

end TieredCache.Json
