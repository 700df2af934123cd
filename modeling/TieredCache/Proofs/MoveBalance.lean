import TieredCache.Proofs.SessionRuns
import TieredCache.Rounds

/-!
# Moves are closed

The counter of a stripe is the number of entries in flight on it, whichever keys share the stripe.
An operation ends with nothing in flight, so all counters are zero then, and no loop has to wait for
a move.
-/

namespace TieredCache

theorem Moves.openOn_foldl_start {K : Type} (stripe : K → Nat) (keys : List K) (m : Moves)
    (i : Nat) : (keys.foldl (fun m k => m.start (stripe k)) m).openOn i =
      m.openOn i + keys.countP fun k => stripe k == i := by
  induction keys generalizing m with
  | nil => rfl
  | cons k keys ih =>
    rw [List.foldl_cons, ih, Moves.openOn_start, List.countP_cons]
    simp only [beq_iff_eq]
    omega

theorem Moves.unmatched_foldl_start {K : Type} (stripe : K → Nat) (keys : List K) (m : Moves) :
    (keys.foldl (fun m k => m.start (stripe k)) m).unmatched = m.unmatched := by
  induction keys generalizing m with
  | nil => rfl
  | cons k keys ih => rw [List.foldl_cons, ih, Moves.unmatched_start]

namespace Hierarchy

variable {K V : Type}

/-- Every stripe has as many open moves as there are entries of its keys in flight, and no move was
closed that was not open. -/
structure Balanced (h : Hierarchy K V) (flight : List (K × Entry V)) : Prop where
  openOn : ∀ i, h.moves.openOn i = flight.countP fun p => h.stripe p.1 == i
  unmatched : h.moves.unmatched = 0

variable {h : Hierarchy K V} {flight : List (K × Entry V)}

theorem Balanced.perm {flight' : List (K × Entry V)} (hh : h.Balanced flight)
    (hperm : flight.Perm flight') : h.Balanced flight' where
  openOn i := by rw [hh.openOn, hperm.countP_eq]
  unmatched := hh.unmatched

theorem Balanced.startMove (hh : h.Balanced flight) (k : K) (e : Entry V) :
    (h.startMove k).Balanced ((k, e) :: flight) where
  openOn i := by
    have hopen := hh.openOn i
    simp only [Hierarchy.startMove, Moves.openOn_start, List.countP_cons, beq_iff_eq]
    omega
  unmatched := hh.unmatched

theorem Balanced.takeOver (hh : h.Balanced flight) (l : Level) (d : Displacement K V)
    (hannounced : d.announced = d.evicted.map Prod.fst) :
    (h.takeOver l d).Balanced (d.evicted ++ flight) := by
  rw [takeOver_eq]
  constructor
  · intro i
    simp only [Moves.openOn_foldl_start, hh.openOn, hannounced, List.countP_append,
      List.countP_map]
    rw [Nat.add_comm]
    rfl
  · simp only [Moves.unmatched_foldl_start, hh.unmatched]

theorem Balanced.finishMove {k : K} {e : Entry V} (hh : h.Balanced ((k, e) :: flight)) :
    (h.finishMove k).Balanced flight := by
  have hpos : 0 < h.moves.openOn (h.stripe k) := by
    rw [hh.openOn, List.countP_cons]
    simp
  constructor
  · intro i
    have hopen := hh.openOn i
    have hfinish := Moves.openOn_finish h.moves i hpos
    simp only [List.countP_cons, beq_iff_eq] at hopen
    simp only [Hierarchy.finishMove]
    omega
  · rw [Hierarchy.finishMove, Moves.unmatched_finish _ hpos, hh.unmatched]

variable [DecidableEq K]

theorem Balanced.placed (hh : h.Balanced []) (l : Level) (k : K) (e : Entry V) :
    (h.placed l k e).Balanced ((h.tier l).put k e).evicted := by
  -- The move of the key stays open until its copies are gone, as if its entry were in flight.
  have hstart := hh.startMove k e
  have htake := hstart.takeOver l _ ((h.tier l).put_announced k e)
  have hperm := htake.perm (List.perm_append_singleton _ _)
  rw [Hierarchy.placed, removeOthers_eq]
  exact Balanced.finishMove (e := e) ⟨hperm.openOn, hperm.unmatched⟩

theorem Balanced.landed {k : K} {e : Entry V} (hh : h.Balanced ((k, e) :: flight)) (l : Level) :
    (h.landed l k e).Balanced (((h.tier l).put k e).evicted ++ flight) := by
  have hcount : h.countDemotion.Balanced ((k, e) :: flight) := ⟨hh.openOn, hh.unmatched⟩
  have htake := hcount.takeOver l _ ((h.tier l).put_announced k e)
  exact (htake.perm List.perm_middle).finishMove

theorem balanced_keptByWrites (now : Int) :
    KeptByWrites now (Balanced (K := K) (V := V)) where
  noted h tracker counters flight hh := ⟨hh.openOn, hh.unmatched⟩
  lookedUp h l k hh := ⟨hh.openOn, hh.unmatched⟩
  touched h l k hh := ⟨hh.openOn, hh.unmatched⟩
  raised h source target k e _ _ hh := hh.placed target k e
  resized h l capacity hh := by
    have htake := hh.takeOver l ((h.tier l).resize capacity) (Tier.resize_announced _ _)
    rwa [List.append_nil] at htake
  purged h hh := ⟨hh.openOn, hh.unmatched⟩
  gone h k e rest hh := hh.finishMove
  superseded h k e rest _ hh := hh.finishMove
  lands h k e rest l _ _ hh := hh.landed l
  written h l k v hh := hh.placed l k ⟨v, now⟩
  loaded h k v _ hh := by
    have htake := hh.takeOver .cold _ ((h.tier .cold).put_announced k ⟨v, now⟩)
    rwa [List.append_nil] at htake
  removed h k hh := ⟨hh.openOn, hh.unmatched⟩
  cleared h hh := ⟨hh.openOn, hh.unmatched⟩

/-! ### Rounds -/

/-- On a stripe without open moves the first round of a lookup answers. -/
theorem getWithin_of_isQuiet {k : K} (hquiet : h.isQuiet k) (now : Int) (rounds : Nat) :
    getWithin k now (rounds + 1) h = some (h.get k now) := by
  rw [isQuiet, decide_eq_true_iff] at hquiet
  have hmoves := congrArg Hierarchy.moves (probe_snd_eq k now Level.all h)
  have hstripe := congrArg Hierarchy.stripe (probe_snd_eq k now Level.all h)
  rw [getWithin, getRound, get]
  cases hfound : probe k now Level.all h with
  | mk found h' =>
    rw [hfound] at hmoves hstripe
    cases found with
    | some hit => rfl
    | none =>
      simp only at hmoves hstripe
      have hstill : h'.moves.quietSince (h'.stripe k) (h.moves.stamp (h.stripe k)) = true := by
        rw [hmoves, hstripe, Moves.quietSince, Moves.stamp, hquiet]
        simp
      simp only [hstill, if_true]

/-- On a stripe without open moves the first round of a removal is the last one. -/
theorem removeWithin_of_isQuiet {k : K} (hquiet : h.isQuiet k) (rounds : Nat) :
    removeWithin k (rounds + 1) h = some (h.remove k) := by
  have hstill : (h.remove k).isQuiet k = true := hquiet
  rw [removeWithin]
  simp only [hstill, if_true]

/-- Settling takes at most one round for each level below and one for leaving the cache. -/
theorem settleWithin_of_lt (now : Int) (rounds : Nat) (source : Level) (h : Hierarchy K V) (k : K)
    (e : Entry V) (hrounds : source.below.length < rounds) :
    settleWithin now rounds source h k e = some (settle now source.below h (k, e)) := by
  induction rounds generalizing source h k e with
  | zero => exact absurd hrounds (Nat.not_lt_zero _)
  | succ rounds ih =>
    rw [settleWithin, settleRound]
    have hbelow := source.below_eq
    cases hcolder : source.colder with
    | none =>
      rw [hcolder] at hbelow
      simp only [hbelow]
      rfl
    | some next =>
      rw [hcolder, Option.map_some, Option.getD_some] at hbelow
      rw [hbelow, List.length_cons] at hrounds
      rw [hbelow, settle_cons]
      simp only
      by_cases hage : e.expired (h.tier next).ttl now
      · simp only [if_pos hage]
      · by_cases hheld : h.contains k now
        · simp only [if_neg hage, if_pos hheld]
        · obtain ⟨order, hput⟩ | ⟨j, d, order, -, -, hput⟩ := (h.tier next).put_cases k e
          · simp only [if_neg hage, if_neg hheld, hput, List.head?_nil, Option.map_none,
              List.foldl_nil, landed]
          · simp only [if_neg hage, if_neg hheld, hput, List.head?_cons, Option.map_some,
              List.foldl_cons, List.foldl_nil, landed]
            exact ih next _ j d (by omega)

end Hierarchy

namespace Session

variable {K V : Type} [DecidableEq K]

theorem balanced_run {config : Config} {stripe : K → Nat} {s : Session K V}
    (hnew : Hierarchy.new config stripe = .ok s.hierarchy) (ops : List (Operation K V)) :
    (s.run ops).2.hierarchy.Balanced [] := by
  apply run_kept (P := fun _ => Hierarchy.Balanced) Hierarchy.balanced_keptByWrites
    (fun _ _ _ hh => hh)
  obtain ⟨capacities, -, hfresh⟩ := Hierarchy.eq_fresh_of_new hnew
  rw [hfresh]
  exact ⟨fun _ => rfl, rfl⟩

/-- After every run no move is open on any stripe and none was closed that was not open. Settling
takes at most three rounds, and a lookup or removal that comes next takes one. -/
theorem moves_balanced {config : Config} {stripe : K → Nat} (s : Session K V)
    (hnew : Hierarchy.new config stripe = .ok s.hierarchy) (ops : List (Operation K V)) :
    let t := (s.run ops).2
    (∀ i, t.hierarchy.moves.openOn i = 0) ∧ t.hierarchy.moves.unmatched = 0 ∧
    (∀ now source (h : Hierarchy K V) k e, Hierarchy.settleWithin now 3 source h k e =
      some (Hierarchy.settle now source.below h (k, e))) ∧
    (∀ k, Hierarchy.getWithin k t.now 1 t.hierarchy = some (t.hierarchy.get k t.now)) ∧
    ∀ k, Hierarchy.removeWithin k 1 t.hierarchy = some (t.hierarchy.remove k) := by
  intro t
  have hbalanced := balanced_run hnew ops
  have hopen : ∀ i, t.hierarchy.moves.openOn i = 0 := hbalanced.openOn
  have hquiet : ∀ k, t.hierarchy.isQuiet k = true := fun k => decide_eq_true (hopen _)
  refine ⟨hopen, hbalanced.unmatched, ?_, ?_, ?_⟩
  · intro now source h k e
    apply Hierarchy.settleWithin_of_lt
    cases source <;> decide
  · exact fun k => Hierarchy.getWithin_of_isQuiet (hquiet k) t.now 0
  · exact fun k => Hierarchy.removeWithin_of_isQuiet (hquiet k) 0

/-- Every way out of a tier, with all keys on one stripe. -/
theorem moves_balanced_on_one_stripe :
    let t := (narrowStart.run [.put 1 10, .put 2 20, .put 3 30, .get 1, .put 4 40]).2
    Hierarchy.new narrow (fun _ => 0) = .ok narrowStart.hierarchy ∧
      t.hierarchy.counters.evictions = 1 ∧ 0 < t.hierarchy.moves.startedOn 0 ∧
      (∀ i, t.hierarchy.moves.openOn i = 0) ∧
      (Hierarchy.getWithin 9 t.now 1 t.hierarchy).isSome ∧
      (Hierarchy.removeWithin 1 1 t.hierarchy).isSome := by
  intro t
  have hnew : Hierarchy.new narrow (fun _ => 0) = .ok narrowStart.hierarchy := rfl
  obtain ⟨hopen, -, -, hget, hremove⟩ := moves_balanced narrowStart hnew
    [.put 1 10, .put 2 20, .put 3 30, .get 1, .put 4 40]
  refine ⟨hnew, by decide, by decide, hopen, ?_, ?_⟩
  · exact Option.isSome_of_eq_some (hget 9)
  · exact Option.isSome_of_eq_some (hremove 1)

end Session

end TieredCache
