import TieredCache.Time

/-!
# Entries

An entry moves between tiers as a whole and keeps its insertion instant, so a time to live bounds
the age of a value whichever tier holds it.
-/

namespace TieredCache

structure Entry (V : Type) where
  value : V
  insertedAt : Int
  deriving DecidableEq, Repr

namespace Entry

variable {V : Type}

def age (e : Entry V) (now : Int) : Nat :=
  elapsed e.insertedAt now

/-- An entry has expired once its age exceeds the time to live; at that age it is still alive. -/
def expired (e : Entry V) (ttl : Nat) (now : Int) : Bool :=
  ttl < e.age now

end Entry

end TieredCache
