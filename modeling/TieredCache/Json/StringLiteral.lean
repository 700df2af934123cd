import TieredCache.Json.Numeral

/-!
# JSON string literals

A literal is scanned once for both uses: to read its text, where halves of a surrogate pair must
stand together, and to skip it, where only its escapes must be well formed.
-/

namespace TieredCache.Json.StringLiteral

def hexValue? (c : Char) : Option Nat :=
  if c.isDigit then some (c.toNat - '0'.toNat)
  else if 'a' ≤ c ∧ c ≤ 'f' then some (c.toNat - 'a'.toNat + 10)
  else if 'A' ≤ c ∧ c ≤ 'F' then some (c.toNat - 'A'.toNat + 10)
  else none

/-- The fault of a text that does not go on with four hexadecimal digits. It counts as ended when
fewer than four bytes are left of it; otherwise these four are taken for the digits. -/
def hexFault (s : List Char) : Fault :=
  if byteLength s < 4 then Cause.endInString.atEnd else ⟨.invalidEscape, byteLength s - 4⟩

def scanHex (s : List Char) : Except Fault (Nat × Shorter s) :=
  match s with
  | a :: b :: c :: d :: r =>
    match hexValue? a, hexValue? b, hexValue? c, hexValue? d with
    | some a, some b, some c, some d =>
      .ok (((a * 16 + b) * 16 + c) * 16 + d, ⟨r, by simp only [List.length_cons]; omega⟩)
    | _, _, _, _ => .error (hexFault s)
  | _ => .error (hexFault s)

/-- The second half of a surrogate pair, with its escape. -/
def scanLowHalf (s : List Char) : Except Fault (Nat × Shorter s) :=
  match s with
  | [] => .error Cause.endInString.atEnd
  | ['\\'] => .error Cause.endInString.atEnd
  | '\\' :: 'u' :: r => do
    let (unit, rest) ← scanHex r
    if 0xdc00 ≤ unit ∧ unit ≤ 0xdfff then
      return (unit, ⟨rest.1, by have := rest.2; simp only [List.length_cons]; omega⟩)
    else .error (Cause.loneSurrogate.before rest.1)
  | '\\' :: r => .error (Cause.unfinishedPair.on r)
  | r => .error (Cause.unfinishedPair.on r)

/-- One piece of a literal: a character, or half of a surrogate pair without the other, which is a
fault only for one who reads the text. -/
inductive Piece where
  | char (c : Char)
  | lone (fault : Fault)

/-- The piece after a backslash and `u`. -/
def scanUnit (s : List Char) : Except Fault (Piece × Shorter s) := do
  let (unit, rest) ← scanHex s
  if 0xdc00 ≤ unit ∧ unit ≤ 0xdfff then return (.lone (Cause.loneSurrogate.before rest.1), rest)
  else if 0xd800 ≤ unit ∧ unit ≤ 0xdbff then
    match scanLowHalf rest.1 with
    | .ok (low, rest') =>
      return (.char (Char.ofNat (0x10000 + (unit - 0xd800) * 0x400 + (low - 0xdc00))),
        ⟨rest'.1, Nat.lt_trans rest'.2 rest.2⟩)
    | .error f => return (.lone f, rest)
  else return (.char (Char.ofNat unit), rest)

/-- The character a one-letter escape stands for. -/
def shortEscape? : Char → Option Char
  | '"' => some '"'
  | '\\' => some '\\'
  | '/' => some '/'
  | 'b' => some '\x08'
  | 'f' => some '\x0c'
  | 'n' => some '\n'
  | 'r' => some '\r'
  | 't' => some '\t'
  | _ => none

/-- The piece after a backslash. -/
def scanEscape (s : List Char) : Except Fault (Piece × Shorter s) :=
  match s with
  | [] => .error Cause.endInString.atEnd
  | 'u' :: r => do
    let (piece, rest) ← scanUnit r
    return (piece, rest.cons)
  | c :: r =>
    match shortEscape? c with
    | some e => .ok (.char e, ⟨r, Nat.lt_succ_self _⟩)
    | none => .error (Cause.invalidEscape.on (c :: r))

/-- A breakage, after what a reader has made of the literal so far. -/
def breakage (done : Except Fault (List Char)) (b : Breakage) : Breakage :=
  match done with
  | .ok _ => b
  | .error earlier => { b with read := earlier }

/-- A control character at the front of a text. Only one who reads takes it before it is noticed. -/
def control (s : List Char) : Breakage :=
  ⟨Cause.controlCharacter.on s, Cause.controlCharacter.before s⟩

/-- What a reader has made of a literal after one more piece. -/
def extend (done : Except Fault (List Char)) (piece : Piece) : Except Fault (List Char) :=
  match done, piece with
  | .ok cs, .char c => .ok (c :: cs)
  | .ok _, .lone f => .error f
  | .error f, _ => .error f

/-- Scans a literal from behind its opening quote: its text, or the first fault in it, and what
follows the closing quote. `done` holds the characters so far, last one first, or the first fault
met by one who reads the text. -/
def scanFrom (s : List Char) (done : Except Fault (List Char)) :
    Except Breakage (Except Fault String × List Char) :=
  match s with
  | [] => .error (breakage done (.both Cause.endInString.atEnd))
  | '"' :: r => .ok (done.map fun cs => String.ofList cs.reverse, r)
  | '\\' :: r =>
    match scanEscape r with
    | .error f => .error (breakage done (.both f))
    | .ok (piece, rest) => scanFrom rest.1 (extend done piece)
  | c :: r =>
    if c.toNat < 0x20 then .error (breakage done (control (c :: r)))
    else scanFrom r (extend done (.char c))
termination_by s.length
decreasing_by
  · have := rest.2; simp only [List.length_cons]; omega
  · simp only [List.length_cons]; omega

theorem length_lt_of_scanFrom {s r : List Char} {done : Except Fault (List Char)}
    {text : Except Fault String} (h : scanFrom s done = .ok (text, r)) : r.length < s.length := by
  fun_induction scanFrom s done with
  | case1 => simp at h
  | case2 =>
    simp only [Except.ok.injEq, Prod.mk.injEq] at h
    simp [h.2]
  | case3 => simp at h
  | case4 _ r' piece rest _ ih =>
    have := ih h
    have := rest.2
    simp only [List.length_cons]
    omega
  | case5 => simp at h
  | case6 _ c r' _ _ _ ih =>
    have := ih h
    simp only [List.length_cons]
    omega

def scan (s : List Char) : Except Breakage (Except Fault String × Shorter s) :=
  match h : scanFrom s (.ok []) with
  | .ok (text, r) => .ok (text, ⟨r, length_lt_of_scanFrom h⟩)
  | .error b => .error b

end TieredCache.Json.StringLiteral
