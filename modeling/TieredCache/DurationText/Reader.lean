import TieredCache.Decimal.Layout
import TieredCache.Text.Blank
import TieredCache.Time

/-!
# Reading durations

A duration is written as one or more spans, such as `1h 30m`, which add up. A span is a whole
number, an optional fraction, and a unit.
-/

namespace TieredCache.DurationText

/-- Why a text is no duration. All but one of the sums that are too long are refused as any other
text; the one whose nanoseconds come to exactly a second overflows. -/
inductive Failure where
  | invalid
  | overflow
  deriving DecidableEq, Repr

/-- A unit of time. Counts of it are kept in seconds or in nanoseconds. -/
structure TimeUnit where
  /-- Its length in seconds, or in nanoseconds if it is shorter. -/
  size : Nat
  /-- Whether `size` counts seconds. -/
  inSeconds : Bool
  /-- The same length for a fraction of the unit, which may be finer; `none` if it has none. -/
  fraction : Option (Nat × Bool)
  deriving DecidableEq, Repr

/-- A unit of whole seconds whose fractions must come out in whole seconds. -/
def TimeUnit.ofSeconds (n : Nat) : TimeUnit := ⟨n, true, some (n, true)⟩

/-- A unit of whole nanoseconds, with fractions. -/
def TimeUnit.ofNanoseconds (n : Nat) : TimeUnit := ⟨n, false, some (n, false)⟩

def monthSeconds : Nat := 2630016

def yearSeconds : Nat := 31557600

/-- The units and their names. -/
def units : List (List String × TimeUnit) := [
  (["nanos", "nsec", "ns"], ⟨1, false, none⟩),
  (["usec", "us", "µs"], .ofNanoseconds 1000),
  (["millis", "msec", "ms"], .ofNanoseconds 1000000),
  (["seconds", "second", "secs", "sec", "s"], ⟨1, true, some (Duration.second, false)⟩),
  (["minutes", "minute", "min", "mins", "m"], ⟨60, true, some (60 * Duration.second, false)⟩),
  (["hours", "hour", "hr", "hrs", "h"], .ofSeconds 3600),
  (["days", "day", "d"], .ofSeconds 86400),
  (["weeks", "week", "wk", "wks", "w"], .ofSeconds 604800),
  (["months", "month", "M"], .ofSeconds monthSeconds),
  (["years", "year", "yr", "yrs", "y"], .ofSeconds yearSeconds)]

def unit? (name : List Char) : Option TimeUnit :=
  (units.find? fun u => u.1.contains (String.ofList name)).map Prod.snd

/-- The letters that names of units are made of. -/
def isUnitLetter (c : Char) : Bool :=
  ('a' ≤ c && c ≤ 'z') || ('A' ≤ c && c ≤ 'Z') || c = 'µ'

/-- What stands inside a number: digits and white space, which has no meaning there. -/
def isNumberPart (c : Char) : Bool :=
  c.isDigit || Text.isBlank c

/-- The digits of a number. -/
def numberDigits (s : List Char) : List Char :=
  s.filter Char.isDigit

def countBound : Nat := UInt64.size

/-- One span: a whole number, the digits of a fraction, and the name of a unit. -/
structure TimeSpan where
  whole : Nat
  fraction : Option (List Char)
  unitName : List Char
  deriving DecidableEq, Repr

/-- The name of a unit, and what follows it: white space, a digit, or nothing. -/
def scanUnit (s : List Char) : Except Failure (List Char × List Char) :=
  match s.dropWhile isUnitLetter with
  | [] => .ok (s.takeWhile isUnitLetter, [])
  | c :: rest =>
    if c.isDigit ∨ Text.isBlank c then .ok (s.takeWhile isUnitLetter, c :: rest)
    else .error .invalid

theorem length_le_of_scanUnit {s r name : List Char} (h : scanUnit s = .ok (name, r)) :
    r.length ≤ s.length := by
  have hs := (List.dropWhile_sublist isUnitLetter (l := s)).length_le
  unfold scanUnit at h
  split at h
  · simp only [Except.ok.injEq, Prod.mk.injEq] at h
    simp [← h.2]
  · rename_i heq
    split at h
    · simp only [Except.ok.injEq, Prod.mk.injEq] at h
      rw [← h.2, ← heq]
      exact hs
    · simp at h

/-- The digits of an optional fraction, at least one, and what follows it. -/
def scanFraction (s : List Char) : Except Failure (Option (List Char) × List Char) :=
  match s with
  | '.' :: r =>
    let digits := numberDigits (r.takeWhile isNumberPart)
    if digits.isEmpty then .error .invalid else .ok (some digits, r.dropWhile isNumberPart)
  | r => .ok (none, r)

theorem length_le_of_scanFraction {s r : List Char} {digits : Option (List Char)}
    (h : scanFraction s = .ok (digits, r)) : r.length ≤ s.length := by
  unfold scanFraction at h
  split at h
  · dsimp only at h
    split at h
    · simp at h
    · simp only [Except.ok.injEq, Prod.mk.injEq] at h
      rw [← h.2, List.length_cons]
      exact Nat.le_succ_of_le (List.dropWhile_sublist _).length_le
  · simp only [Except.ok.injEq, Prod.mk.injEq] at h
    exact Nat.le_of_eq (congrArg List.length h.2.symm)

/-- The span at the front of a text, and what follows it. -/
def scanSpan (s : List Char) : Except Failure (TimeSpan × List Char) :=
  let whole := Nat.ofDigitChars 10 (numberDigits (s.takeWhile isNumberPart)) 0
  if countBound ≤ whole then .error .invalid
  else
    match scanFraction (s.dropWhile isNumberPart) with
    | .error f => .error f
    | .ok (fraction, r) =>
      match scanUnit r with
      | .error f => .error f
      | .ok (unitName, rest) => .ok (⟨whole, fraction, unitName⟩, rest)

theorem length_lt_of_scanSpan {c : Char} {s r : List Char} {span : TimeSpan}
    (hc : c.isDigit = true) (h : scanSpan (c :: s) = .ok (span, r)) :
    r.length < (c :: s).length := by
  have hs := (List.dropWhile_sublist isNumberPart (l := s)).length_le
  have hn : isNumberPart c = true := by simp [isNumberPart, hc]
  simp only [scanSpan, List.dropWhile_cons_of_pos hn] at h
  split at h
  · simp at h
  · split at h
    · simp at h
    · rename_i hf
      have := length_le_of_scanFraction hf
      split at h
      · simp at h
      · rename_i hu
        have := length_le_of_scanUnit hu
        simp only [Except.ok.injEq, Prod.mk.injEq] at h
        rw [← h.2, List.length_cons]
        omega

/-- Adds some seconds, or some nanoseconds, to a duration. Both parts of the sum have 64 bits. -/
def extend (total : Nat) (n : Nat) (inSeconds : Bool) : Except Failure Nat :=
  let nanoseconds := total % Duration.second + (if inSeconds then 0 else n)
  let seconds := total / Duration.second + (if inSeconds then n else 0)
  let sum := seconds * Duration.second + nanoseconds
  if countBound ≤ n ∨ countBound ≤ nanoseconds then .error .invalid
  else if sum ≤ Duration.longest then .ok sum
  else if nanoseconds = Duration.second ∧ seconds + 1 = countBound then .error .overflow
  else .error .invalid

/-- Adds a fraction of a unit, which must come out whole. -/
def extendFraction (total : Nat) (unit : TimeUnit) (digits : List Char) :
    Except Failure Nat :=
  match unit.fraction with
  | none => .error .invalid
  | some (size, inSeconds) =>
    let denominator := Nat.pow 10 digits.length
    let product := Nat.ofDigitChars 10 digits 0 * size
    if countBound ≤ denominator ∨ countBound ≤ product ∨ product % denominator ≠ 0 then
      .error .invalid
    else extend total (product / denominator) inSeconds

/-- Adds a span to a duration. -/
def addSpan (total : Nat) (span : TimeSpan) : Except Failure Nat :=
  match unit? span.unitName with
  | none => .error .invalid
  | some unit => do
    let total ← extend total (span.whole * unit.size) unit.inSeconds
    match span.fraction with
    | none => return total
    | some digits => extendFraction total unit digits

/-- Adds all spans of a text, of which there is at least one if `needed`. -/
def readSpans (s : List Char) (total : Nat) (needed : Bool) : Except Failure Nat :=
  match h : s.dropWhile Text.isBlank with
  | [] => if needed then .error .invalid else .ok total
  | c :: rest =>
    if hc : c.isDigit then
      match hs : scanSpan (c :: rest) with
      | .error f => .error f
      | .ok (span, after) =>
        have : after.length < s.length :=
          Nat.lt_of_lt_of_le (length_lt_of_scanSpan hc hs)
            (h ▸ (List.dropWhile_sublist Text.isBlank).length_le)
        match addSpan total span with
        | .error f => .error f
        | .ok total => readSpans after total false
    else .error .invalid
termination_by s.length

/-- The duration a text stands for. A lone zero needs no unit. -/
def read (text : String) : Except Failure Nat :=
  if text = "0" then .ok 0 else readSpans text.toList 0 true

end TieredCache.DurationText
