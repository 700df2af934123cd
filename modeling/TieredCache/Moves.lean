import TieredCache.Store

/-!
# Moves in flight

Keys are spread over stripes. A move takes an entry from one tier to another, or out of the last
one, and is open on its key's stripe from before the first change until after the last. A lookup
that finds nothing has to look again if a move was open on its stripe at any time since it began,
since its key may have been on the way.
-/

namespace TieredCache

/-- The moves of one stripe at a point in time: how many are open, and how many were ever opened. -/
structure Stamp where
  inFlight : Nat
  started : Nat
  deriving DecidableEq, Repr

/-- The open moves, each by its stripe, the number of moves opened on each stripe, and the number of
moves closed that were not open. -/
structure Moves where
  inFlight : List Nat := []
  started : Store Nat Nat := Store.empty
  unmatched : Nat := 0

namespace Moves

def openOn (m : Moves) (stripe : Nat) : Nat :=
  m.inFlight.count stripe

def startedOn (m : Moves) (stripe : Nat) : Nat :=
  (m.started.get? stripe).getD 0

def start (m : Moves) (stripe : Nat) : Moves :=
  { m with
    inFlight := stripe :: m.inFlight
    started := m.started.insert stripe (m.startedOn stripe + 1) }

def finish (m : Moves) (stripe : Nat) : Moves :=
  if stripe ∈ m.inFlight then { m with inFlight := m.inFlight.erase stripe }
  else { m with unmatched := m.unmatched + 1 }

def stamp (m : Moves) (stripe : Nat) : Stamp :=
  ⟨m.openOn stripe, m.startedOn stripe⟩

/-- Whether no move was open on a stripe at an earlier time, none is now, and none was opened in
between. -/
def quietSince (m : Moves) (stripe : Nat) (before : Stamp) : Bool :=
  before.inFlight = 0 && m.stamp stripe = before

theorem openOn_start (m : Moves) (i j : Nat) :
    (m.start i).openOn j = m.openOn j + if i = j then 1 else 0 := by
  simp [start, openOn, List.count_cons]

@[simp] theorem unmatched_start (m : Moves) (i : Nat) :
    (m.start i).unmatched = m.unmatched := rfl

/-- Closing an open move takes one from the count of its stripe. -/
theorem openOn_finish (m : Moves) {i : Nat} (j : Nat) (h : 0 < m.openOn i) :
    (m.finish i).openOn j + (if i = j then 1 else 0) = m.openOn j := by
  have hmem : i ∈ m.inFlight := List.count_pos_iff.1 h
  simp only [finish, hmem, if_true, openOn, List.count_erase, beq_iff_eq]
  by_cases hij : i = j
  · subst hij
    have hpos : 0 < m.inFlight.count i := h
    simp only [if_true]
    omega
  · simp [hij]

theorem unmatched_finish (m : Moves) {i : Nat} (h : 0 < m.openOn i) :
    (m.finish i).unmatched = m.unmatched := by
  have hmem : i ∈ m.inFlight := List.count_pos_iff.1 h
  simp [finish, hmem]

end Moves

end TieredCache
