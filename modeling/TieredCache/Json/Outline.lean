import TieredCache.Json.StringLiteral

/-!
# Outlines of JSON texts

The outline of a text is the value it spells, as far as it is JSON, with the places of all values in
it. Where the text stops being JSON the outline has a broken leaf or an open end, and nothing
follows. Whoever reads an outline from left to right meets the first error of the text, be it a
fault of the text or a value of the wrong kind.
-/

namespace TieredCache.Json

/-- The place of a value: what is left of the text from its first character on, and what is left
behind it. -/
structure Place where
  start : List Char
  behind : List Char

/-- The name of a field, with a fault if it has half of a surrogate pair, and what is left of the
text behind it. -/
structure FieldName where
  text : Except Fault String
  behind : List Char

/-- The value a text spells, as far as it is JSON. -/
inductive Outline where
  | null (place : Place)
  | bool (b : Bool) (place : Place)
  /-- A numeral, with a fault if no binary64 number is that large. -/
  | number (n : Except Fault Number) (place : Place)
  /-- A string literal, with a fault if it has half of a surrogate pair. -/
  | string (s : Except Fault String) (place : Place)
  /-- The items; `openEnd` is what is wrong where the closing bracket is missing. -/
  | array (items : List Outline) (openEnd : Option Breakage) (place : Place)
  /-- The fields; `openEnd` is what is wrong where a field or the closing brace is missing. -/
  | object (fields : List (FieldName × Outline)) (openEnd : Option Breakage) (place : Place)
  /-- No value starts here, or it breaks off. -/
  | broken (b : Breakage) (start : List Char)

/-- What is left of the text from a value on. -/
def Outline.start : Outline → List Char
  | .null p | .bool _ p | .number _ p | .string _ p | .array _ _ p | .object _ _ p => p.start
  | .broken _ s => s

/-- What is left of the text behind a value; nothing if it breaks off. -/
def Outline.behind : Outline → List Char
  | .null p | .bool _ p | .number _ p | .string _ p | .array _ _ p | .object _ _ p => p.behind
  | .broken _ _ => []

/-- Blanks between tokens. -/
def isGap (c : Char) : Bool :=
  c = ' ' || c = '\n' || c = '\t' || c = '\r'

/-- A text without its leading blanks. -/
def skipGap (s : List Char) : List Char := s.dropWhile isGap

theorem length_skipGap_le (s : List Char) : (skipGap s).length ≤ s.length :=
  (List.dropWhile_sublist _).length_le

theorem length_lt_of_skipGap {s r : List Char} {c : Char} (h : skipGap s = c :: r) :
    r.length < s.length := by
  have := length_skipGap_le s
  rw [h, List.length_cons] at this
  omega

/-- Something read from the front of a text. Nothing follows if the text broke off in it. -/
structure Front (s : List Char) (α : Type) where
  head : α
  rest : Option (Shorter s)

namespace Front

variable {s t : List Char} {α β : Type}

/-- Something read from behind some of the text. -/
def widen (h : t.length ≤ s.length) (f : Front t α) : Front s α :=
  ⟨f.head, f.rest.map fun r => ⟨r.1, Nat.lt_of_lt_of_le r.2 h⟩⟩

end Front

/-- The rest of a fixed word, whose first letter has been read. -/
def scanWord (word : List Char) (s : List Char) :
    Except Fault { r : List Char // r.length ≤ s.length } :=
  match word, s with
  | [], s => .ok ⟨s, Nat.le_refl _⟩
  | _ :: _, [] => .error Cause.endInValue.atEnd
  | w :: ws, c :: r =>
    if c = w then
      match scanWord ws r with
      | .ok rest => .ok ⟨rest.1, Nat.le_succ_of_le rest.2⟩
      | .error f => .error f
    else .error (Cause.expectedWord.on (c :: r))

/-- A fixed word that stands for a value. -/
def readWord (word : List Char) (v : Place → Outline) (c : Char) (s : List Char) :
    Front (c :: s) Outline :=
  match scanWord word s with
  | .ok rest => ⟨v ⟨c :: s, rest.1⟩, some ⟨rest.1, Nat.lt_succ_of_le rest.2⟩⟩
  | .error f => ⟨.broken (.both f) (c :: s), none⟩

def readNumeral (s : List Char) : Front s Outline :=
  match Numeral.scan s with
  | .ok (n, rest) => ⟨.number (n.number rest.1) ⟨s, rest.1⟩, some rest⟩
  | .error b => ⟨.broken b s, none⟩

/-- What encloses several values: its last character, and what is wrong where the text ends in it or
goes on otherwise than with a comma or that character. -/
structure Enclosure where
  closing : Char
  atEnd : Cause
  otherwise : Cause

def Enclosure.brackets : Enclosure := ⟨']', .endInArray, .expectedCommaOrBracket⟩

def Enclosure.braces : Enclosure := ⟨'\x7d', .endInObject, .expectedCommaOrBrace⟩

/-- What follows an opening character: the closing one, a first item or field, or the end of the
text. -/
inductive Opening (s : List Char) where
  | empty (rest : Shorter s)
  | filled
  | stop (b : Breakage)

/-- Looks for the closing character. -/
def scanOpening (e : Enclosure) (s : List Char) : Opening s :=
  match h : skipGap s with
  | [] => .stop (.both e.atEnd.atEnd)
  | c :: r => if c = e.closing then .empty ⟨r, length_lt_of_skipGap h⟩ else .filled

/-- What follows an item or a field: a comma and more, the closing character, or an open end. -/
inductive After (s : List Char) where
  | comma (rest : Shorter s)
  | close (rest : Shorter s)
  | stop (b : Breakage)

/-- Looks for a comma or the closing character. -/
def scanAfter (e : Enclosure) (s : List Char) : After s :=
  match h : skipGap s with
  | [] => .stop (.both e.atEnd.atEnd)
  | c :: r =>
    have hr : r.length < s.length := length_lt_of_skipGap h
    if c = ',' then .comma ⟨r, hr⟩
    else if c = e.closing then .close ⟨r, hr⟩
    else .stop (.both (e.otherwise.on (c :: r)))

/-- A field's name with the colon behind it. Without a name the object has an open end; without a
colon the field's value is broken. -/
inductive FieldStart (s : List Char) where
  | named (name : FieldName) (rest : Shorter s)
  | brokenOff (name : FieldName) (b : Breakage) (start : List Char)
  | stop (b : Breakage)

/-- What is wrong where no field's name stands. Only a reader sees a comma too many. -/
def missingName (s : List Char) : Breakage :=
  match s with
  | [] => ⟨Cause.endInValue.atEnd, Cause.endInObject.atEnd⟩
  | c :: _ =>
    let skipped := Cause.nameNotString.on s
    if c = '\x7d' then ⟨Cause.trailingComma.on s, skipped⟩ else .both skipped

/-- Looks for a field's name and the colon. -/
def scanFieldStart (s : List Char) : FieldStart s :=
  match h : skipGap s with
  | '"' :: r =>
    have hr : r.length < s.length := length_lt_of_skipGap h
    match StringLiteral.scan r with
    | .error b => .brokenOff ⟨.error b.read, []⟩ b []
    | .ok (text, rest) =>
      let name : FieldName := ⟨text, rest.1⟩
      match h' : skipGap rest.1 with
      | [] => .brokenOff name (.both Cause.endInObject.atEnd) []
      | c :: r' =>
        if c = ':' then
          .named name ⟨r', by
            have := length_lt_of_skipGap h'
            have := rest.2
            omega⟩
        else .brokenOff name (.both (Cause.expectedColon.on (c :: r'))) (c :: r')
  | r => .stop (missingName r)

/-- A value as an item of an array. A closing bracket in its place follows a comma too many, which
only a reader sees. -/
def Outline.asItem : Outline → Outline
  | .broken b start =>
    if start.head? = some ']' then .broken { b with read := Cause.trailingComma.on start } start
    else .broken b start
  | o => o

mutual

/-- The value at the front of a text. -/
def readValue (s : List Char) : Front s Outline :=
  match h : skipGap s with
  | [] => ⟨.broken (.both Cause.endInValue.atEnd) [], none⟩
  | c :: r =>
    have hr : r.length < s.length := length_lt_of_skipGap h
    have hs : (c :: r).length ≤ s.length := hr
    if c = 'n' then (readWord ['u', 'l', 'l'] .null c r).widen hs
    else if c = 't' then (readWord ['r', 'u', 'e'] (.bool true) c r).widen hs
    else if c = 'f' then (readWord ['a', 'l', 's', 'e'] (.bool false) c r).widen hs
    else if c = '-' ∨ c.isDigit then (readNumeral (c :: r)).widen hs
    else if c = '"' then
      match StringLiteral.scan r with
      | .ok (text, rest) =>
        ⟨.string text ⟨c :: r, rest.1⟩, some ⟨rest.1, Nat.lt_trans rest.2 hr⟩⟩
      | .error b => ⟨.broken b (c :: r), none⟩
    else if c = '[' then
      match scanOpening .brackets r with
      | .stop b => ⟨.array [] (some b) ⟨c :: r, []⟩, none⟩
      | .empty rest => ⟨.array [] none ⟨c :: r, rest.1⟩, some ⟨rest.1, Nat.lt_trans rest.2 hr⟩⟩
      | .filled =>
        let front := readItems r
        ⟨.array front.head.1 front.head.2 ⟨c :: r, front.rest.elim [] Subtype.val⟩,
          front.rest.map fun rest => ⟨rest.1, Nat.lt_trans rest.2 hr⟩⟩
    else if c = '\x7b' then
      match scanOpening .braces r with
      | .stop b => ⟨.object [] (some b) ⟨c :: r, []⟩, none⟩
      | .empty rest => ⟨.object [] none ⟨c :: r, rest.1⟩, some ⟨rest.1, Nat.lt_trans rest.2 hr⟩⟩
      | .filled =>
        let front := readFields r
        ⟨.object front.head.1 front.head.2 ⟨c :: r, front.rest.elim [] Subtype.val⟩,
          front.rest.map fun rest => ⟨rest.1, Nat.lt_trans rest.2 hr⟩⟩
    else ⟨.broken (.both (Cause.expectedValue.on (c :: r))) (c :: r), none⟩
termination_by (s.length, 0)
decreasing_by
  · exact Prod.Lex.left _ _ hr
  · exact Prod.Lex.left _ _ hr

/-- The items from here on, where one must stand, and the end of the array. -/
def readItems (s : List Char) : Front s (List Outline × Option Breakage) :=
  let front := readValue s
  let item := front.head.asItem
  match front.rest with
  | none => ⟨([item], none), none⟩
  | some rest =>
    match scanAfter .brackets rest.1 with
    | .stop b => ⟨([item], some b), none⟩
    | .close rest' => ⟨([item], none), some ⟨rest'.1, Nat.lt_trans rest'.2 rest.2⟩⟩
    | .comma rest' =>
      let more := readItems rest'.1
      ⟨(item :: more.head.1, more.head.2),
        more.rest.map fun r => ⟨r.1, Nat.lt_trans r.2 (Nat.lt_trans rest'.2 rest.2)⟩⟩
termination_by (s.length, 1)
decreasing_by
  · exact Prod.Lex.right _ (by omega)
  · exact Prod.Lex.left _ _ (Nat.lt_trans rest'.2 rest.2)

/-- The fields from here on, where one must stand, and the end of the object. -/
def readFields (s : List Char) : Front s (List (FieldName × Outline) × Option Breakage) :=
  match scanFieldStart s with
  | .stop b => ⟨([], some b), none⟩
  | .brokenOff name b start => ⟨([(name, .broken b start)], none), none⟩
  | .named name start =>
    let front := readValue start.1
    match front.rest with
    | none => ⟨([(name, front.head)], none), none⟩
    | some rest =>
      match scanAfter .braces rest.1 with
      | .stop b => ⟨([(name, front.head)], some b), none⟩
      | .close rest' =>
        ⟨([(name, front.head)], none),
          some ⟨rest'.1, Nat.lt_trans rest'.2 (Nat.lt_trans rest.2 start.2)⟩⟩
      | .comma rest' =>
        let more := readFields rest'.1
        ⟨((name, front.head) :: more.head.1, more.head.2),
          more.rest.map fun r =>
            ⟨r.1, Nat.lt_trans r.2 (Nat.lt_trans rest'.2 (Nat.lt_trans rest.2 start.2))⟩⟩
termination_by (s.length, 1)
decreasing_by
  · exact Prod.Lex.left _ _ start.2
  · exact Prod.Lex.left _ _ (Nat.lt_trans rest'.2 (Nat.lt_trans rest.2 start.2))

end

/-- What stands behind the value at the front of a text: nothing but blanks, or a fault. -/
def endFault (rest : List Char) : Option Fault :=
  match skipGap rest with
  | [] => none
  | r => some (Cause.trailingCharacters.on r)

mutual

/-- The first fault for one who skips a value. -/
def Outline.skipFault : Outline → Option Fault
  | .array items openEnd _ => (skipItems items).or (openEnd.map Breakage.skipped)
  | .object fields openEnd _ => (skipFields fields).or (openEnd.map Breakage.skipped)
  | .broken b _ => some b.skipped
  | _ => none

/-- The first fault for one who skips some items. -/
def skipItems : List Outline → Option Fault
  | [] => none
  | v :: rest => v.skipFault.or (skipItems rest)

/-- The first fault for one who skips some fields. -/
def skipFields : List (FieldName × Outline) → Option Fault
  | [] => none
  | (_, v) :: rest => v.skipFault.or (skipFields rest)

end

end TieredCache.Json
