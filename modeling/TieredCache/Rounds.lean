import TieredCache.Hierarchy

/-!
# Round by round

Three operations are loops. A lookup that finds nothing looks again if a move was open on its stripe
meanwhile, a removal starts over as long as one is open, and settling goes on with the entry that
the last one has displaced. Here one round of each is an operation of its own, and the loops give up
after a number of rounds.
-/

namespace TieredCache.Hierarchy

variable {K V : Type} [DecidableEq K]

/-- One round of a lookup. Without an answer the key may have been on the way, and the lookup has to
look again. -/
def getRound (h : Hierarchy K V) (k : K) (now : Int) : Option (Option V) × Hierarchy K V :=
  let before := h.moves.stamp (h.stripe k)
  let (found, h) := probe k now Level.all h
  match found with
  | some (l, e) => (some (some e.value), h.serve k l now)
  | none =>
    if h.moves.quietSince (h.stripe k) before then
      (some none, { h with counters := h.counters.miss })
    else (none, h)

/-- Looks up a key, unless it takes more rounds than are given. -/
def getWithin (k : K) (now : Int) : Nat → Hierarchy K V → Option (Option V × Hierarchy K V)
  | 0, _ => none
  | rounds + 1, h =>
    match h.getRound k now with
    | (some answer, h) => some (answer, h)
    | (none, h) => getWithin k now rounds h

/-- Takes a key out, unless it takes more rounds than are given. -/
def removeWithin (k : K) : Nat → Hierarchy K V → Option (Hierarchy K V)
  | 0, _ => none
  | rounds + 1, h =>
    let h := h.remove k
    if h.isQuiet k then some h else removeWithin k rounds h

/-- One round of settling: ends the way of an entry that has left a tier, or lands it in the next
colder one. Returns what this displaces, with the tier that it has left. -/
def settleRound (now : Int) (source : Level) (h : Hierarchy K V) (k : K) (e : Entry V) :
    Option (Level × K × Entry V) × Hierarchy K V :=
  match source.colder with
  | none => (none, h.countEviction.finishMove k)
  | some next =>
    if e.expired (h.tier next).ttl now then (none, h.countEviction.finishMove k)
    else if h.contains k now then (none, h.finishMove k)
    else
      let d := (h.tier next).put k e
      let h := (h.countDemotion.takeOver next d).finishMove k
      (d.evicted.head?.map fun victim => (next, victim), h)

/-- Carries an entry down from a tier, unless it takes more rounds than are given. -/
def settleWithin (now : Int) : Nat → Level → Hierarchy K V → K → Entry V →
    Option (Hierarchy K V)
  | 0, _, _, _, _ => none
  | rounds + 1, source, h, k, e =>
    match settleRound now source h k e with
    | (none, h) => some h
    | (some (next, j, d), h) => settleWithin now rounds next h j d

end TieredCache.Hierarchy
