import TieredCache.Proofs.FinalExpiry
import TieredCache.Proofs.Insertions

/-!
# Keys that are gone

A lookup that finds nothing has looked into all tiers and has dropped the expired entries of its key
on the way, also those that a speculative write has left beside its own. A removal takes out all
entries of its key. No entry is left then that other keys could carry into another tier, so the key
stays away until it is written again.
-/

namespace TieredCache

namespace Tier

variable {K V : Type} [DecidableEq K]

theorem get?_lookup_of_missed {t : Tier K V} {k : K} {now : Int} (h : (t.lookup k now).1 = none) :
    (t.lookup k now).2.store.get? k = none := by
  rw [lookup_fst] at h
  exact (congrArg Prod.snd (t.view_lookup_self k now)).trans h

theorem Indexed.recency_remove {t : Tier K V} (h : t.Indexed) (k : K) :
    (t.remove k).2.recency = t.recency.filter (· ≠ k) := by
  rw [← (h.remove k).map_fst_ordered, h.ordered_remove, ← h.map_fst_ordered, List.filter_map]
  rfl

end Tier

namespace Hierarchy

variable {K V : Type} [DecidableEq K]

/-- Probing that finds nothing leaves no entry of the key in the tiers that it has looked into. -/
theorem get?_probe_of_missed {k : K} {now : Int} {levels : List Level} {h : Hierarchy K V}
    (hmissed : (probe k now levels h).1 = none) (m : Level) :
    ((probe k now levels h).2.tier m).store.get? k =
      if m ∈ levels then none else (h.tier m).store.get? k := by
  induction levels generalizing h with
  | nil => rfl
  | cons l colder ih =>
    have hdropped : ((h.tier l).lookup k now).1 = none →
        ((h.tier l).lookup k now).2.store.get? k = none := Tier.get?_lookup_of_missed
    rw [probe] at hmissed ⊢
    cases hfound : (h.tier l).lookup k now with
    | mk found t =>
      rw [hfound] at hmissed hdropped
      cases found with
      | some e => exact absurd hmissed (by simp)
      | none =>
        refine (ih hmissed).trans ?_
        rw [tier_setTier]
        by_cases hm : m = l
        · rw [if_pos hm, hdropped rfl, ite_self, if_pos (hm ▸ List.mem_cons_self)]
        · simp only [List.mem_cons, hm, false_or, if_false]

theorem get?_get_of_missed {h : Hierarchy K V} {k : K} {now : Int}
    (hmissed : (h.get k now).1 = none) (l : Level) :
    ((h.get k now).2.tier l).store.get? k = none := by
  rw [get_eq] at hmissed ⊢
  cases hfound : (probe k now Level.all h).1 with
  | none => exact (get?_probe_of_missed hfound l).trans (if_pos (Level.mem_all l))
  | some hit =>
    rw [hfound] at hmissed
    exact absurd hmissed (by simp)

end Hierarchy

namespace Session

variable {K V : Type} [DecidableEq K] {s : Session K V} {k : K}

/-- No tier stores an entry of a key, expired or not, and as long as nothing writes the key it is
neither found nor held. -/
structure GoneForGood (s : Session K V) (k : K) : Prop where
  nowhere : ∀ l e, ¬ s.Stores l k e
  notFound : ∀ ops, (∀ op ∈ ops, ∀ v, ¬ op.Writes k v) →
    ((s.run ops).2.hierarchy.get k (s.run ops).2.now).1 = none
  notHeld : ∀ ops, (∀ op ∈ ops, ∀ v, ¬ op.Writes k v) →
    (s.run ops).2.hierarchy.contains k (s.run ops).2.now = false

theorem nowhere_run (hnowhere : ∀ l e, ¬ s.Stores l k e) {ops : List (Operation K V)}
    (hops : ∀ op ∈ ops, ∀ v, ¬ op.Writes k v) (l : Level) (e : Entry V) :
    ¬ (s.run ops).2.Stores l k e := by
  intro hstored
  obtain ⟨m, hm, -⟩ := mayReach_of_run hops hstored
  exact hnowhere m e hm

/-- A key without entries can only come back by a write. -/
theorem GoneForGood.of_nowhere (hnowhere : ∀ l e, ¬ s.Stores l k e) : s.GoneForGood k where
  nowhere := hnowhere
  notFound ops hops := by
    rw [Option.eq_none_iff_forall_ne_some]
    intro v hget
    obtain ⟨l, e, hstored, -⟩ := Hierarchy.held_of_get hget
    exact nowhere_run hnowhere hops l e hstored
  notHeld ops hops := by
    rw [← Bool.not_eq_true]
    intro hheld
    obtain ⟨l, e, hstored, -⟩ := Hierarchy.held_of_contains hheld
    exact nowhere_run hnowhere hops l e hstored

theorem goneForGood_of_missed (hmissed : (s.hierarchy.get k s.now).1 = none) :
    (s.step (.get k)).2.GoneForGood k := by
  refine .of_nowhere fun l e hstored => ?_
  have hnone := Hierarchy.get?_get_of_missed hmissed l
  exact absurd (hnone.symm.trans hstored) (by simp)

theorem goneForGood_of_removed (s : Session K V) (k : K) :
    (s.step (.remove k)).2.GoneForGood k := by
  refine .of_nowhere fun l e hstored => ?_
  have hnone : ((s.hierarchy.remove k).tier l).store.get? k = none := by
    rw [Hierarchy.tier_remove, Tier.get?_remove_self]
  exact absurd (hnone.symm.trans hstored) (by simp)

/-- After every run a key is gone for good once a lookup has not found it or a removal has taken it
out. A removal forgets the history of its key, and leaves the entries of the other keys, their order
in each tier and their histories alone. -/
theorem gone_after_miss_or_removal {config : Config} {stripe : K → Nat} (s : Session K V)
    (hnew : Hierarchy.new config stripe = .ok s.hierarchy) (ops : List (Operation K V)) (k : K) :
    let t := (s.run ops).2
    let removed := (t.step (.remove k)).2
    ((t.hierarchy.get k t.now).1 = none → (t.step (.get k)).2.GoneForGood k) ∧
    removed.GoneForGood k ∧ removed.hierarchy.tracker.get? k = none ∧
    (∀ l, (removed.hierarchy.tier l).recency = (t.hierarchy.tier l).recency.filter (· ≠ k)) ∧
    ∀ j, j ≠ k → removed.hierarchy.tracker.get? j = t.hierarchy.tracker.get? j ∧
      ∀ l e, removed.Stores l j e ↔ t.Stores l j e := by
  intro t removed
  have hconsistent := (sound_run hnew ops).consistent
  refine ⟨goneForGood_of_missed, goneForGood_of_removed t k, ?_, fun l => ?_, fun j hj => ⟨?_, ?_⟩⟩
  · exact (Tracker.get?_remove t.hierarchy.tracker k k).trans (if_pos rfl)
  · have hrecency := (hconsistent l).indexed.recency_remove k
    rwa [← Hierarchy.tier_remove] at hrecency
  · exact (Tracker.get?_remove t.hierarchy.tracker k j).trans (if_neg hj)
  · intro l e
    have hsame := congrArg Prod.snd ((Hierarchy.agree_remove hj t.hierarchy).tier l)
    exact Eq.congr_left hsame

/-- A lookup drops two expired entries of its key, one of them left behind by a speculative write,
and other keys push entries down through all tiers afterwards. -/
theorem gone_after_missing_duplicates :
    let t := (narrowStart.run [.put 1 10, .advance 6, .putSpeculative 1 11, .advance 21]).2
    let missed := (t.step (.get 1)).2
    let after : List (Operation Nat Nat) := [.put 2 20, .put 3 30, .put 4 40, .tune]
    Hierarchy.new narrow (fun _ => 0) = .ok narrowStart.hierarchy ∧
      t.Stores .hot 1 ⟨10, 0⟩ ∧ t.Stores .cold 1 ⟨11, 6⟩ ∧ (t.hierarchy.get 1 t.now).1 = none ∧
      (∀ l e, ¬ missed.Stores l 1 e) ∧
      ((missed.run after).2.hierarchy.get 1 (missed.run after).2.now).1 = none ∧
      (missed.run after).2.hierarchy.contains 1 (missed.run after).2.now = false := by
  intro t missed after
  have hnew : Hierarchy.new narrow (fun _ => 0) = .ok narrowStart.hierarchy := rfl
  have hmissed : (t.hierarchy.get 1 t.now).1 = none := by decide
  have hafter : ∀ op ∈ after, ∀ v, ¬ op.Writes 1 v := by
    simp [after, Operation.Writes]
  have hgone : missed.GoneForGood 1 := (gone_after_miss_or_removal narrowStart hnew
    [.put 1 10, .advance 6, .putSpeculative 1 11, .advance 21] 1).1 hmissed
  exact ⟨hnew, rfl, rfl, hmissed, hgone.nowhere, hgone.notFound after hafter,
    hgone.notHeld after hafter⟩

end Session

end TieredCache
