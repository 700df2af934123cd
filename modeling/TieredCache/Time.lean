/-!
# Instants and durations

Time is read from a monotonic clock and counted in nanoseconds. An instant is an integer, the time
from a fixed start, before which it may lie; a duration is a natural number. Every operation of the
cache takes the instant at which it happens, so two operations at one instant see the same clock.
-/

namespace TieredCache

namespace Duration

def second : Nat := 1000000000

def millisecond : Nat := 1000000

def ofSeconds (n : Nat) : Nat := n * second

/-- The longest duration that can be represented: `2 ^ 64 - 1` seconds and `999999999`
nanoseconds. -/
def longest : Nat := UInt64.size * second - 1

end Duration

/-- The time that has passed from `earlier` to `now`, and zero when `earlier` lies ahead of
`now`. -/
def elapsed (earlier now : Int) : Nat :=
  (now - earlier).toNat

end TieredCache
