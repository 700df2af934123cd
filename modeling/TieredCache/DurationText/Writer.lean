import TieredCache.DurationText.Reader

/-!
# Writing durations

A duration is written by its nonzero parts, from years down to nanoseconds, with a blank between
them. Years, months and days are spelled out and have a plural.
-/

namespace TieredCache.DurationText

/-- A part whose unit is an abbreviation. -/
def abbreviated (n : Nat) (unit : String) : List String :=
  if n = 0 then [] else [Decimal.naturalText n ++ unit]

/-- A part whose unit is a word. -/
def spelled (n : Nat) (unit : String) : List String :=
  abbreviated n (if 1 < n then unit ++ "s" else unit)

/-- The nonzero parts of a duration, longest unit first. -/
def parts (d : Nat) : List String :=
  let seconds := d / Duration.second
  let nanoseconds := d % Duration.second
  let inYear := seconds % yearSeconds
  let inMonth := inYear % monthSeconds
  let inDay := inMonth % 86400
  spelled (seconds / yearSeconds) "year" ++
    spelled (inYear / monthSeconds) "month" ++
    spelled (inMonth / 86400) "day" ++
    abbreviated (inDay / 3600) "h" ++
    abbreviated (inDay % 3600 / 60) "m" ++
    abbreviated (inDay % 60) "s" ++
    abbreviated (nanoseconds / 1000000) "ms" ++
    abbreviated (nanoseconds / 1000 % 1000) "us" ++
    abbreviated (nanoseconds % 1000) "ns"

def write (d : Nat) : String :=
  if d = 0 then "0s" else String.intercalate " " (parts d)

end TieredCache.DurationText
