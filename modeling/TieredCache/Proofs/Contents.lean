import Mathlib.Algebra.Order.Group.Multiset
import Mathlib.Tactic.Abel
import TieredCache.Proofs.SessionRuns

/-!
# The entries of all tiers together

Which tier stores an entry does not matter for what was written when. `Hierarchy.contents` is the
multiset of all stored entries, and all that settling, promoting and resizing do to it is to leave
entries out.
-/

namespace TieredCache

namespace Tier

variable {K V : Type}

/-- The stored entries with their keys. -/
def contents (t : Tier K V) : Multiset (K × Entry V) :=
  t.store.entries

variable [DecidableEq K]

theorem mem_contents_iff (t : Tier K V) (k : K) (e : Entry V) :
    (k, e) ∈ t.contents ↔ t.store.get? k = some e := by
  rw [contents, Multiset.mem_coe, Store.mem_entries_iff]

theorem contents_remove (t : Tier K V) (k : K) :
    (t.remove k).2.contents = t.contents.filter fun p => p.1 ≠ k := by
  have herase : ((t.store.erase k).entries : Multiset (K × Entry V)) =
      t.contents.filter fun p => p.1 ≠ k := by
    rw [contents, Multiset.filter_coe]
    rfl
  rw [remove]
  split
  · rename_i hk
    rw [← herase, Store.erase_of_get?_eq_none _ hk, contents]
  · exact herase

theorem contents_eq_cons_erase (t : Tier K V) {k : K} {e : Entry V}
    (h : t.store.get? k = some e) :
    t.contents = (k, e) ::ₘ ((t.store.erase k).entries : Multiset (K × Entry V)) := by
  rw [contents, Multiset.cons_coe, Multiset.coe_eq_coe]
  exact t.store.entries_perm_erase h

theorem contents_evict (t : Tier K V) :
    (t.evict.evicted : Multiset (K × Entry V)) + t.evict.tier.contents = t.contents := by
  obtain ⟨order, h⟩ | ⟨k, e, order, -, he, h⟩ := t.evict_cases
  · rw [h]
    simp [contents]
  · rw [t.contents_eq_cons_erase he, h]
    simp [contents]

theorem contents_evictTo (bound rounds : Nat) (t : Tier K V) :
    ((evictTo bound rounds t).evicted : Multiset (K × Entry V)) +
      (evictTo bound rounds t).tier.contents = t.contents := by
  induction rounds generalizing t with
  | zero => simp [evictTo]
  | succ rounds ih =>
    rw [evictTo]
    split
    · simp
    · simp only [← Multiset.coe_add, add_assoc, ih, contents_evict]

theorem contents_resize (t : Tier K V) (capacity : Capacity) :
    ((t.resize capacity).evicted : Multiset (K × Entry V)) + (t.resize capacity).tier.contents =
      t.contents :=
  contents_evictTo _ _ _

/-- A write replaces the entry of its key, and what it displaces is not lost. -/
theorem contents_put (t : Tier K V) (k : K) (e : Entry V) :
    ((t.put k e).evicted : Multiset (K × Entry V)) + (t.put k e).tier.contents =
      (k, e) ::ₘ t.contents.filter fun p => p.1 ≠ k := by
  have herase : ∀ s : Store K (Entry V), ((s.insert k e).entries : Multiset (K × Entry V)) =
      (k, e) ::ₘ (s.entries : Multiset (K × Entry V)).filter fun p => p.1 ≠ k := by
    intro s
    rw [Multiset.filter_coe, Multiset.cons_coe]
    rfl
  obtain ⟨order, h⟩ | ⟨j, d, order, hj, hd, h⟩ := t.put_cases k e
  · rw [h]
    simp only [contents, herase, Multiset.coe_nil, zero_add]
  · rw [t.contents_eq_cons_erase hd, h]
    simp only [contents, herase, Multiset.coe_singleton]
    rw [Multiset.filter_cons_of_pos (p := fun p : K × Entry V => p.1 ≠ k) _ hj,
      Multiset.singleton_add, Multiset.cons_swap]

theorem contents_le_of_within {t u : Tier K V} (h : t.Within u) : t.contents ≤ u.contents := by
  rw [contents, contents, Multiset.le_iff_subset]
  · rintro ⟨k, e⟩ hk
    rw [Multiset.mem_coe, Store.mem_entries_iff] at hk ⊢
    exact h.stored k e hk
  · exact Multiset.coe_nodup.2 t.store.nodup_entries

end Tier

namespace Hierarchy

variable {K V : Type}

/-- The entries stored in all tiers, with their keys. -/
def contents (h : Hierarchy K V) : Multiset (K × Entry V) :=
  (h.tier .hot).contents + (h.tier .warm).contents + (h.tier .cold).contents

theorem contents_setTier (h : Hierarchy K V) (l : Level) (t : Tier K V) :
    (h.setTier l t).contents + (h.tier l).contents = h.contents + t.contents := by
  cases l <;> simp only [contents, tier_setTier, reduceCtorEq, if_true, if_false] <;> abel

theorem contents_takeOver_add (h : Hierarchy K V) (l : Level) (d : Displacement K V) :
    (d.evicted : Multiset (K × Entry V)) + (h.takeOver l d).contents + (h.tier l).contents =
      ((d.evicted : Multiset (K × Entry V)) + d.tier.contents) + h.contents := by
  have hset : (h.takeOver l d).contents + (h.tier l).contents = h.contents + d.tier.contents := by
    rw [takeOver_eq]
    exact h.contents_setTier l d.tier
  rw [add_assoc, hset]
  abel

/-- A takeover adds to the entries stored and in flight what its tier has gained. -/
theorem contents_takeOver (h : Hierarchy K V) (l : Level) (d : Displacement K V)
    (gain : Multiset (K × Entry V))
    (hd : (d.evicted : Multiset (K × Entry V)) + d.tier.contents = gain + (h.tier l).contents) :
    (d.evicted : Multiset (K × Entry V)) + (h.takeOver l d).contents = gain + h.contents := by
  apply add_right_cancel (b := (h.tier l).contents)
  rw [contents_takeOver_add, hd]
  abel

theorem contents_takeOver_le (h : Hierarchy K V) (l : Level) (d : Displacement K V)
    (gain : Multiset (K × Entry V))
    (hd : (d.evicted : Multiset (K × Entry V)) + d.tier.contents ≤ gain + (h.tier l).contents) :
    (d.evicted : Multiset (K × Entry V)) + (h.takeOver l d).contents ≤ gain + h.contents := by
  rw [← add_le_add_iff_right (h.tier l).contents, contents_takeOver_add]
  calc ((d.evicted : Multiset (K × Entry V)) + d.tier.contents) + h.contents
      ≤ (gain + (h.tier l).contents) + h.contents := add_le_add_left hd _
    _ = gain + h.contents + (h.tier l).contents := by abel

/-- No two entries, stored or in flight, have the same key. -/
def Distinct (h : Hierarchy K V) (flight : List (K × Entry V)) : Prop :=
  (((flight : Multiset (K × Entry V)) + h.contents).map Prod.fst).Nodup

theorem Distinct.of_le {h h' : Hierarchy K V} {flight flight' : List (K × Entry V)}
    (hh : h.Distinct flight)
    (hle : (flight' : Multiset (K × Entry V)) + h'.contents ≤ flight + h.contents) :
    h'.Distinct flight' :=
  Multiset.nodup_of_le (Multiset.map_le_map hle) hh

theorem mem_contents_iff [DecidableEq K] (h : Hierarchy K V) (k : K) (e : Entry V) :
    (k, e) ∈ h.contents ↔ ∃ l, (h.tier l).store.get? k = some e := by
  simp only [contents, Multiset.mem_add, Tier.mem_contents_iff]
  constructor
  · rintro ((hk | hk) | hk)
    · exact ⟨.hot, hk⟩
    · exact ⟨.warm, hk⟩
    · exact ⟨.cold, hk⟩
  · rintro ⟨l, hk⟩
    cases l
    · exact .inl (.inl hk)
    · exact .inl (.inr hk)
    · exact .inr hk

variable [DecidableEq K]

theorem contents_remove (h : Hierarchy K V) (k : K) :
    (h.remove k).contents = h.contents.filter fun p => p.1 ≠ k := by
  simp only [contents, Multiset.filter_add, ← Tier.contents_remove, tier_remove]

theorem contents_purgeExpired_le (h : Hierarchy K V) (now : Int) :
    (h.purgeExpired now).2.contents ≤ h.contents := by
  have hle := fun l => Tier.contents_le_of_within ((h.tier l).purge_within now)
  simp only [contents, tier_purgeExpired]
  exact add_le_add (add_le_add (hle .hot) (hle .warm)) (hle .cold)

theorem contents_setTier_le (h : Hierarchy K V) (l : Level) {t : Tier K V}
    (ht : t.Within (h.tier l)) : (h.setTier l t).contents ≤ h.contents := by
  have hle := h.contents_takeOver_le l ⟨t, [], []⟩ 0 (by
    simpa using Tier.contents_le_of_within ht)
  simpa [takeOver] using hle

/-- A write displaces entries, and no more than that is in flight. -/
theorem contents_takeOver_put_le (h : Hierarchy K V) (l : Level) (k : K) (e : Entry V) :
    (((h.tier l).put k e).evicted : Multiset (K × Entry V)) +
      (h.takeOver l ((h.tier l).put k e)).contents ≤ {(k, e)} + h.contents := by
  apply contents_takeOver_le
  rw [Tier.contents_put, ← Multiset.singleton_add]
  exact add_le_add_right (Multiset.filter_le _ _) _

/-- After a placement a key's other entries are gone, and those displaced are in flight. -/
theorem contents_placed (h : Hierarchy K V) (l : Level) (k : K) (e : Entry V) :
    (((h.tier l).put k e).evicted : Multiset (K × Entry V)) + (h.placed l k e).contents =
      (k, e) ::ₘ h.contents.filter fun p => p.1 ≠ k := by
  have hput := (h.tier l).contents_put k e
  simp only [contents, Multiset.filter_add, tier_placed, ← Tier.contents_remove,
    ← Multiset.singleton_add] at hput ⊢
  cases l <;> simp only [reduceCtorEq, if_true, if_false] at hput ⊢
  · have hsum := congrArg (· + ((h.tier .warm).remove k).2.contents +
      ((h.tier .cold).remove k).2.contents) hput
    convert hsum using 1 <;> abel
  · have hsum := congrArg (· + ((h.tier .hot).remove k).2.contents +
      ((h.tier .cold).remove k).2.contents) hput
    convert hsum using 1 <;> abel
  · have hsum := congrArg (· + ((h.tier .hot).remove k).2.contents +
      ((h.tier .warm).remove k).2.contents) hput
    convert hsum using 1 <;> abel

theorem cons_filter_le (h : Hierarchy K V) {k : K} {e : Entry V} (hk : (k, e) ∈ h.contents) :
    ((k, e) ::ₘ h.contents.filter fun p => p.1 ≠ k) ≤ h.contents := by
  have hsplit := Multiset.filter_add_not (fun p : K × Entry V => p.1 = k) h.contents
  have hmem : (k, e) ∈ h.contents.filter fun p => p.1 = k :=
    Multiset.mem_filter.2 ⟨hk, rfl⟩
  calc ((k, e) ::ₘ h.contents.filter fun p => p.1 ≠ k)
      = {(k, e)} + h.contents.filter fun p => p.1 ≠ k := rfl
    _ ≤ (h.contents.filter fun p => p.1 = k) + h.contents.filter fun p => p.1 ≠ k :=
        add_le_add_left (Multiset.singleton_le.2 hmem) _
    _ = h.contents := hsplit

/-- Without writes, the entries stored and in flight are among those at the start. -/
theorem contents_kept (now : Int) (bound : Multiset (K × Entry V)) :
    Kept now fun h flight => (flight : Multiset (K × Entry V)) + h.contents ≤ bound where
  noted h tracker counters flight hh := hh
  lookedUp h l k hh := by
    rw [Multiset.coe_nil, zero_add] at hh ⊢
    exact (h.contents_setTier_le l ((h.tier l).lookup_within k now)).trans hh
  touched h l k hh := by
    rw [Multiset.coe_nil, zero_add] at hh ⊢
    exact (h.contents_setTier_le l ((h.tier l).touch_within k)).trans hh
  raised h source target k e hfind _ hh := by
    rw [Multiset.coe_nil, zero_add] at hh
    rw [contents_placed]
    have hstored : (h.tier source).store.get? k = some e := (Option.filter_eq_some_iff.1 hfind).1
    exact (h.cons_filter_le ((h.mem_contents_iff k e).2 ⟨source, hstored⟩)).trans hh
  resized h l capacity hh := by
    rw [Multiset.coe_nil, zero_add] at hh
    have htake := h.contents_takeOver_le l ((h.tier l).resize capacity) 0 (by
      rw [Tier.contents_resize, zero_add])
    rw [zero_add] at htake
    exact htake.trans hh
  purged h hh := by
    rw [Multiset.coe_nil, zero_add] at hh ⊢
    exact (h.contents_purgeExpired_le now).trans hh
  gone h k e rest hh := by
    rw [← Multiset.cons_coe, Multiset.cons_add] at hh
    exact (Multiset.le_cons_self _ _).trans hh
  superseded h k e rest _ hh := by
    rw [← Multiset.cons_coe, Multiset.cons_add] at hh
    exact (Multiset.le_cons_self _ _).trans hh
  lands h k e rest l _ _ hh := by
    have hput := h.countDemotion.contents_takeOver_put_le l k e
    refine le_trans ?_ hh
    calc ((((h.tier l).put k e).evicted ++ rest : List _) : Multiset (K × Entry V)) +
          (h.landed l k e).contents
        = ((((h.tier l).put k e).evicted : Multiset (K × Entry V)) + (h.landed l k e).contents) +
          rest := by
          rw [← Multiset.coe_add]
          abel
      _ ≤ ({(k, e)} + h.contents) + rest := add_le_add_left hput _
      _ = (((k, e) :: rest : List _) : Multiset (K × Entry V)) + h.contents := by
          rw [← Multiset.cons_coe, ← Multiset.singleton_add]
          abel

theorem contents_insertAt_le (h : Hierarchy K V) (l : Level) (k : K) (e : Entry V) (now : Int) :
    (h.insertAt l k e now).contents ≤ (k, e) ::ₘ h.contents.filter fun p => p.1 ≠ k := by
  have hsettled := (contents_kept now _).settleAll _ l _ (h.contents_placed l k e).le
  rwa [Multiset.coe_nil, zero_add] at hsettled

/-- A write brings in its own entry and takes out the others of its key. -/
theorem contents_put_le (h : Hierarchy K V) (k : K) (v : V) (now : Int) :
    (h.put k v now).contents ≤ (k, ⟨v, now⟩) ::ₘ h.contents.filter fun p => p.1 ≠ k :=
  contents_insertAt_le _ _ k ⟨v, now⟩ now

/-- Only an accepted value is new. -/
theorem mem_contents_putSpeculative {h : Hierarchy K V} {j k : K} {d : Entry V} {v : V} {now : Int}
    (hd : (j, d) ∈ (h.putSpeculative k v now).2.contents) :
    (j, d) ∈ h.contents ∨ (h.putSpeculative k v now).1 ∧ j = k ∧ d = ⟨v, now⟩ := by
  rw [putSpeculative_eq] at hd ⊢
  by_cases hheld : h.contains k now
  · rw [if_pos hheld] at hd
    exact .inl hd
  · rw [if_neg hheld] at hd ⊢
    have hsettled := (contents_kept now _).settleAll (h.loaded k ⟨v, now⟩) .cold _
      (h.contents_takeOver_put_le .cold k ⟨v, now⟩)
    rw [Multiset.coe_nil, zero_add] at hsettled
    rcases Multiset.mem_add.1 (Multiset.mem_of_le hsettled hd) with hnew | hold
    · obtain ⟨rfl, rfl⟩ := Prod.mk.inj (Multiset.mem_singleton.1 hnew)
      exact .inr ⟨rfl, rfl, rfl⟩
    · exact .inl hold

/-- What every operation without writes does to the entries. -/
theorem contents_le_of_kept {h h' : Hierarchy K V} {now : Int}
    (hkept : ∀ P, Kept now P → P h [] → P h' []) : h'.contents ≤ h.contents := by
  have hle := hkept _ (contents_kept now h.contents) (by simp)
  simpa using hle

/-! ### One entry for each key -/

namespace Distinct

variable {h : Hierarchy K V} {flight : List (K × Entry V)} {k : K} {e : Entry V}

/-- A key in flight is stored nowhere. -/
theorem not_stored (hh : h.Distinct ((k, e) :: flight)) (l : Level) :
    (h.tier l).store.get? k = none := by
  unfold Distinct at hh
  rw [← Multiset.cons_coe, Multiset.cons_add, Multiset.map_cons, Multiset.nodup_cons] at hh
  cases hstored : (h.tier l).store.get? k with
  | none => rfl
  | some d =>
    have hmem : (k, d) ∈ h.contents := (h.mem_contents_iff k d).2 ⟨l, hstored⟩
    exact absurd (Multiset.mem_map_of_mem Prod.fst (Multiset.mem_add.2 (.inr hmem))) hh.1

theorem not_contains (hh : h.Distinct ((k, e) :: flight)) (now : Int) :
    h.contains k now = false := by
  rw [not_contains_iff]
  intro l
  rw [Tier.contains, Tier.find?, hh.not_stored l]
  rfl

theorem contents_eq_cons (hh : h.Distinct []) (hk : (k, e) ∈ h.contents) :
    h.contents = (k, e) ::ₘ h.contents.filter fun p => p.1 ≠ k := by
  unfold Distinct at hh
  rw [Multiset.coe_nil, zero_add] at hh
  obtain ⟨rest, hrest⟩ := Multiset.exists_cons_of_mem hk
  rw [hrest, Multiset.map_cons, Multiset.nodup_cons] at hh
  have hothers : (rest.filter fun p => p.1 ≠ k) = rest := by
    rw [Multiset.filter_eq_self]
    intro p hp hk
    exact hh.1 (Multiset.mem_map.2 ⟨p, hp, hk⟩)
  rw [hrest, Multiset.filter_cons_of_neg _ (by simp), hothers]

theorem stored_once (hh : h.Distinct []) {l m : Level}
    (he : (h.tier l).store.get? k = some e) (hm : m ≠ l) : (h.tier m).store.get? k = none := by
  have hsplit : (h.setTier l (h.tier l).clear).contents + (h.tier l).contents = h.contents :=
    (h.contents_setTier l _).trans (add_zero _)
  unfold Distinct at hh
  rw [Multiset.coe_nil, zero_add, ← hsplit, Multiset.map_add, Multiset.nodup_add] at hh
  cases hd : (h.tier m).store.get? k with
  | none => rfl
  | some d =>
    have hl : k ∈ (h.tier l).contents.map Prod.fst :=
      Multiset.mem_map_of_mem Prod.fst ((Tier.mem_contents_iff _ k e).2 he)
    have hrest : (k, d) ∈ (h.setTier l (h.tier l).clear).contents := by
      rw [mem_contents_iff]
      exact ⟨m, by rw [tier_setTier, if_neg hm, hd]⟩
    have hm : k ∈ (h.setTier l (h.tier l).clear).contents.map Prod.fst :=
      Multiset.mem_map_of_mem Prod.fst hrest
    exact absurd hl (Multiset.disjoint_left.1 hh.2.2 hm)

theorem placed (hh : h.Distinct []) (l : Level) (k : K) (e : Entry V) :
    (h.placed l k e).Distinct ((h.tier l).put k e).evicted := by
  unfold Distinct at hh ⊢
  rw [Multiset.coe_nil, zero_add] at hh
  rw [contents_placed, Multiset.map_cons, Multiset.nodup_cons]
  refine ⟨?_, Multiset.nodup_of_le (Multiset.map_le_map (Multiset.filter_le _ _)) hh⟩
  intro hk
  obtain ⟨p, hp, hpk⟩ := Multiset.mem_map.1 hk
  exact (Multiset.mem_filter.1 hp).2 hpk

end Distinct

end Hierarchy

end TieredCache
