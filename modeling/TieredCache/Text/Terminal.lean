/-!
# Text without terminal controls

Messages show arguments without the control sequences a terminal would act on, and without the
control characters that are no blanks. A blank inside a sequence is shown unless the sequence
carries a string. Text is shown behind it, and the sequence is either over or only suspended.
-/

namespace TieredCache.Text.Terminal

/-- Where in front of the string of a device control a text is. -/
inductive Header where
  | start
  | parameters
  | intermediates
  deriving DecidableEq, Repr

/-- Where in a control sequence a text is. -/
inductive Mode where
  /-- Outside of any sequence. -/
  | plain
  /-- Behind the escape character. -/
  | escape
  /-- Behind an intermediate character of a short sequence. -/
  | intermediate
  /-- Within the parameters of a long sequence. -/
  | parameters
  /-- In front of the string of a device control. -/
  | header (h : Header)
  /-- Within a string that ends at the byte `9c`. -/
  | string
  /-- Within a string that ends at the bell. -/
  | command
  deriving DecidableEq, Repr

/-- What a blank does to the sequence in which it stands. -/
inductive Interruption where
  /-- The sequence is over. -/
  | ends
  /-- The sequence goes on once the text behind the blank meets a control character. -/
  | suspends
  deriving DecidableEq, Repr

/-- A mode, and whether text is shown though the sequence in it is not over. -/
structure State where
  mode : Mode := .plain
  suspended : Bool := false
  deriving DecidableEq, Repr

/-- Whether a control character is a blank. -/
def isBlankControl (c : Char) : Bool :=
  c = '\t' || c = '\n' || c = '\x0c' || c = '\r'

/-- The mode behind an escape character and one that does not control. -/
def opened (c : Char) : Mode :=
  if c < '0' then .intermediate
  else if c = '[' then .parameters
  else if c = ']' then .command
  else if c = 'P' then .header .start
  else if c = 'X' ∨ c = '^' ∨ c = '_' then .string
  else .plain

/-- The mode after a character in front of the string of a device control. A character out of order
belongs to the string. -/
def Header.next (h : Header) (c : Char) : Mode :=
  if c < '0' then .header .intermediates
  else match h with
    | .start => if c < '@' then .header .parameters else .string
    | .parameters => if c < '<' then .header .parameters else .string
    | .intermediates => .string

namespace Mode

/-- The mode after an ASCII character that does not control. -/
def next : Mode → Char → Mode
  | .plain, _ => .plain
  | .escape, c => opened c
  | .intermediate, c => if c < '0' then .intermediate else .plain
  | .parameters, c => if c < '@' then .parameters else .plain
  | .header h, c => h.next c
  | .string, _ => .string
  | .command, _ => .command

/-- The mode after a character beyond ASCII, which counts for nothing but the byte `9c` in it. -/
def nextBeyond (mode : Mode) (c : Char) : Mode :=
  if mode = .string ∧ 0x9c ∈ String.utf8EncodeChar c then .plain else mode

/-- Whether blanks are kept in a mode. -/
def keepsBlanks : Mode → Bool
  | .header _ | .string | .command => false
  | _ => true

end Mode

/-- What one character shows, and the state after it. -/
def step (i : Interruption) (st : State) (c : Char) : List Char × State :=
  let shows := c.toNat < 0x20 && isBlankControl c || ' ' ≤ c && c ≠ '\x7f'
  if c = '\x1b' then ([], ⟨.escape, false⟩)
  else if c = '\x18' ∨ c = '\x1a' then ([], ⟨.plain, false⟩)
  else if st.mode = .plain ∨ st.suspended then
    if 0x7f < c.toNat then ([c], ⟨.plain, false⟩)
    else if shows then ([c], st)
    else ([], { st with suspended := false })
  else if 0x7f < c.toNat then ([], { st with mode := st.mode.nextBeyond c })
  else if c.toNat < 0x20 ∨ c = '\x7f' then
    if st.mode = .command ∧ c = '\x07' then ([], ⟨.plain, false⟩)
    else if st.mode.keepsBlanks && shows then
      ([c], match i with | .ends => ⟨.plain, false⟩ | .suspends => ⟨st.mode, true⟩)
    else ([], st)
  else ([], { st with mode := st.mode.next c })

/-- What a text shows from some state on. -/
def shownFrom (i : Interruption) : State → List Char → List Char
  | _, [] => []
  | st, c :: rest =>
    let (shown, next) := step i st c
    shown ++ shownFrom i next rest

/-- A text without terminal controls. -/
def shown (i : Interruption) (s : String) : String :=
  String.ofList (shownFrom i {} s.toList)

end TieredCache.Text.Terminal
