import TieredCache.Proofs.FinalExpiry
import TieredCache.Proofs.Insertions

/-!
# What a write costs the other keys

A write makes room only where there is none. It takes at most one entry out of each tier, and at most
one key is no longer held because of it.
-/

namespace TieredCache

namespace Hierarchy

variable {K V : Type} [DecidableEq K] {now : Int} {h : Hierarchy K V}

theorem Sound.recordAccess (hh : h.Sound now) (k : K) (instant : Int) :
    (h.recordAccess k instant).2.Sound now :=
  ⟨hh.consistent, hh.single⟩

/-- A key is held in the first hierarchy and not in the second. -/
def Drops (h h' : Hierarchy K V) (now : Int) (j : K) : Prop :=
  h.contains j now ∧ h'.contains j now = false

/-- A held entry has to leave the cache when another key is written to a tier. It is the least
recently touched one of its tier, and all tiers from that of the write down to its own are full
without the copies that the write replaces. It is in the coldest tier, or too old for the next. -/
structure MustLeave (h : Hierarchy K V) (now : Int) (k : K) (target l : Level) (j : K)
    (e : Entry V) : Prop where
  held : (h.tier l).find? j now = some e
  last : (h.tier l).ordered.getLast? = some (j, e)
  reached : l ∈ target :: target.below
  full : ∀ m ∈ target :: target.below, ¬ l.isHotterThan m → ((h.remove k).tier m).IsFull
  noneColder : l = .cold ∨ ∃ next, l.colder = some next ∧ e.expired (h.tier next).ttl now

theorem drops_insertAt {k : K} {l : Level} {e : Entry V} (hh : h.Sound now)
    (hage : e.expired (h.tier l).ttl now = false) :
    ∃ lost : Option (K × Entry V), ∀ j, j ≠ k → h.Drops (h.insertAt l k e now) now j →
      ∃ m d, (j, d) ∈ lost ∧ h.MustLeave now k l m j d := by
  obtain ⟨lost, hlost⟩ := find?_insertAt (k := k) hh hage
  refine ⟨lost, fun j hj ⟨hbefore, hafter⟩ => ?_⟩
  rw [not_contains_iff] at hafter
  have hnone : ∀ m d, ((h.insertAt l k e now).tier m).find? j now ≠ some d := by
    intro m d hd
    have hm := hafter m
    rw [Tier.contains_of_find? hd] at hm
    exact absurd hm (by simp)
  obtain ⟨m, d, hstored, hlive⟩ := held_of_contains hbefore
  have hd : (h.tier m).find? j now = some d := Tier.find?_eq_some_iff.2 ⟨hstored, hlive⟩
  rcases hlost m j d hj hd with ⟨hin, hout, hold⟩ | hfound | ⟨next, -, hfound⟩
  · refine ⟨m, d, hin, hd, hout.last_of_remove hh.consistent, hout.reached, hout.full, ?_⟩
    cases hcolder : m.colder with
    | none =>
      cases m with
      | cold => exact .inl rfl
      | hot => exact absurd hcolder (by decide)
      | warm => exact absurd hcolder (by decide)
    | some next => exact .inr ⟨next, rfl, hold next hcolder⟩
  · exact absurd hfound (hnone m d)
  · exact absurd hfound (hnone next d)

/-- A recorded access changes no tier. -/
theorem others_recordAccess (h : Hierarchy K V) (k : K) (l : Level) :
    (h.recordAccess k now).2.others k l = h.others k l := rfl

theorem put_effects (hh : h.Sound now) (hnodup : h.contents.Nodup) (k : K) (v : V) :
    ∃ target,
      (∀ l, ((h.put k v now).tier l).store.get? k = if l = target then some ⟨v, now⟩ else none) ∧
      (∀ l, ∃ stayed : List (K × Entry V), stayed.Sublist (h.others k l) ∧
        stayed.Sublist ((h.put k v now).others k l) ∧
        (h.others k l).length ≤ stayed.length + 1 ∧
        ∀ p ∈ h.others k l, p ∈ stayed ∨ (∃ next ∈ l.colder, p ∈ (h.put k v now).others k next) ∨
          ∀ m, p ∉ (h.put k v now).others k m) ∧
      ∀ j, j ≠ k → h.Drops (h.put k v now) now j → (∃ l e, h.MustLeave now k target l j e) ∧
        ∀ i, i ≠ k → h.Drops (h.put k v now) now i → i = j := by
  have hrecorded := hh.recordAccess k now
  have hage := Entry.not_expired_when_written v
    ((h.recordAccess k now).2.tier (h.destination k now)).ttl now
  rw [put_eq]
  obtain ⟨lost, hlost⟩ := drops_insertAt (k := k) hrecorded hage
  refine ⟨h.destination k now, fun l => get?_insertAt _ _ l k _ now, ?_, fun j hj hdrops => ?_⟩
  · have hmoved := fun l => moved_insertAt (k := k) hrecorded.consistent hnodup hage l
    simpa only [others_recordAccess] using hmoved
  · obtain ⟨l, e, hin, hmust⟩ := hlost j hj hdrops
    refine ⟨⟨l, e, hmust.held, hmust.last, hmust.reached, hmust.full, hmust.noneColder⟩, ?_⟩
    intro i hi hdropped
    obtain ⟨m, d, hin', -⟩ := hlost i hi hdropped
    exact congrArg Prod.fst (Option.mem_unique hin' hin)

end Hierarchy

namespace Session

variable {K V : Type} [DecidableEq K]

theorem nodup_contents_run {config : Config} {stripe : K → Nat} {s : Session K V}
    (hnew : Hierarchy.new config stripe = .ok s.hierarchy) (ops : List (Operation K V)) :
    (s.run ops).2.hierarchy.contents.Nodup := by
  have hstart : ((([] : List (K × Entry V)) : Multiset (K × Entry V)) +
      s.hierarchy.contents).Nodup := by
    obtain ⟨capacities, -, hfresh⟩ := Hierarchy.eq_fresh_of_new hnew
    rw [hfresh]
    exact Multiset.nodup_zero
  have hrun := run_kept (P := fun _ h flight =>
      ((flight : Multiset (K × Entry V)) + h.contents).Nodup)
    Hierarchy.nodup_keptByWrites (fun _ _ _ hh => hh) s ops hstart
  rwa [Multiset.coe_nil, zero_add] at hrun

/-- A write leaves every other entry in its tier and in order, except that at most one leaves each
tier, for the next colder one or for good. At most one other key is not held any more, and it had to
leave. -/
theorem put_loses_overflow_only {config : Config} {stripe : K → Nat} (s : Session K V)
    (hnew : Hierarchy.new config stripe = .ok s.hierarchy) (ops : List (Operation K V)) (k : K)
    (v : V) :
    let t := (s.run ops).2
    let h := t.hierarchy
    let h' := h.put k v t.now
    ∃ target,
      (∀ l, (h'.tier l).store.get? k = if l = target then some ⟨v, t.now⟩ else none) ∧
      (∀ l, ∃ stayed : List (K × Entry V), stayed.Sublist (h.others k l) ∧
        stayed.Sublist (h'.others k l) ∧ (h.others k l).length ≤ stayed.length + 1 ∧
        ∀ p ∈ h.others k l, p ∈ stayed ∨ (∃ next ∈ l.colder, p ∈ h'.others k next) ∨
          ∀ m, p ∉ h'.others k m) ∧
      ∀ j, j ≠ k → h.Drops h' t.now j → (∃ l e, h.MustLeave t.now k target l j e) ∧
        ∀ i, i ≠ k → h.Drops h' t.now i → i = j := by
  intro t h h'
  exact Hierarchy.put_effects (sound_run hnew ops) (nodup_contents_run hnew ops) k v

/-- When all tiers are full, a write costs the last key of the coldest one its place, and no
other. -/
theorem put_loses_overflow_only_of_three :
    let t := (narrowStart.run [.put 1 10, .put 2 20, .put 3 30]).2
    let h' := t.hierarchy.put 4 40 t.now
    Hierarchy.new narrow (fun _ => 0) = .ok narrowStart.hierarchy ∧
      t.hierarchy.Drops h' t.now 1 ∧ (h'.tier .hot).store.get? 4 = some ⟨40, t.now⟩ ∧
      (∃ target l e, t.hierarchy.MustLeave t.now 4 target l 1 e) ∧
      ∀ j, j ≠ 4 → t.hierarchy.Drops h' t.now j → j = 1 := by
  intro t h'
  have hnew : Hierarchy.new narrow (fun _ => 0) = .ok narrowStart.hierarchy := rfl
  have hdrops : t.hierarchy.Drops h' t.now 1 := ⟨by decide, by decide⟩
  obtain ⟨target, -, -, hlost⟩ :=
    put_loses_overflow_only narrowStart hnew [.put 1 10, .put 2 20, .put 3 30] 4 40
  obtain ⟨⟨l, e, hmust⟩, hunique⟩ := hlost 1 (by decide) hdrops
  exact ⟨hnew, hdrops, by decide, ⟨target, l, e, hmust⟩, hunique⟩

end Session

end TieredCache
