import Mathlib.Data.Finset.Card
import TieredCache.Proofs.AccessHistories

/-!
# What concerns one key

Two hierarchies agree on a key if they have the same copies of it, the same times to live by which
these are judged, and the same history of it. As long as every key has room in every tier, an
operation on another key changes nothing of this, and one on the key depends on nothing else.
-/

namespace TieredCache

namespace Tracker

variable {K : Type} [DecidableEq K] {t u : Tracker K} {k : K}

theorem record_fst_congr (hk : t.get? k = u.get? k) (now : Int) :
    (t.record k now).1 = (u.record k now).1 := by
  rw [record, record, hk]

theorem get?_record_congr (hk : t.get? k = u.get? k) (now : Int) :
    (t.record k now).2.get? k = (u.record k now).2.get? k := by
  rw [get?_record_self, get?_record_self, record_fst_congr hk]

end Tracker

namespace Tier

variable {K V : Type} [DecidableEq K]

/-- The time to live and the copy of a key. -/
def view (t : Tier K V) (k : K) : Nat × Option (Entry V) :=
  (t.ttl, t.store.get? k)

theorem find?_congr {t u : Tier K V} {k : K} (h : t.view k = u.view k) (now : Int) :
    t.find? k now = u.find? k now := by
  obtain ⟨httl, hstored⟩ := Prod.mk.inj h
  rw [find?, find?, httl, hstored]

theorem view_lookup_self (t : Tier K V) (k : K) (now : Int) :
    (t.lookup k now).2.view k = (t.ttl, t.find? k now) := by
  rw [lookup, find?]
  cases hstored : t.store.get? k with
  | none => rw [view, hstored, Option.filter_none]
  | some e =>
    by_cases hage : e.expired t.ttl now
    · simp only [if_pos hage, view, discard, Store.get?_erase_self]
      rw [Option.filter_some, hage]
      rfl
    · simp only [if_neg hage, view, hstored]
      rw [Bool.not_eq_true] at hage
      rw [Option.filter_some, hage]
      rfl

theorem view_lookup_of_ne (t : Tier K V) {j k : K} (hk : k ≠ j) (now : Int) :
    (t.lookup j now).2.view k = t.view k := by
  rw [lookup]
  split
  · rfl
  · split
    · rw [view, discard, Store.get?_erase_of_ne _ hk, view]
    · rfl

theorem view_touch (t : Tier K V) (j k : K) : (t.touch j).view k = t.view k := by
  rw [view, store_touch, (t.touch_alike j).ttl, view]

theorem view_remove_self (t : Tier K V) (k : K) : (t.remove k).2.view k = (t.ttl, none) := by
  rw [view, get?_remove_self, (t.remove_alike k).ttl]

theorem view_remove_of_ne (t : Tier K V) {j k : K} (hk : k ≠ j) :
    (t.remove j).2.view k = t.view k := by
  rw [remove]
  split
  · rfl
  · rw [view, discard, Store.get?_erase_of_ne _ hk, view]

theorem view_purge (t : Tier K V) (k : K) (now : Int) :
    (t.purge now).2.view k = (t.ttl, t.find? k now) := by
  rw [view, purge, Store.get?_filter, find?]

theorem view_put_self (t : Tier K V) (k : K) (e : Entry V) :
    (t.put k e).tier.view k = (t.ttl, some e) := by
  rw [view, get?_put_self, (t.put_alike k e).ttl]

/-- A tier in order that has room for some keys and stores no others. -/
structure Roomy (keys : Finset K) (t : Tier K V) : Prop where
  indexed : t.Indexed
  known : ∀ k e, t.store.get? k = some e → k ∈ keys
  room : keys.card ≤ t.capacity.value

namespace Roomy

variable {keys : Finset K} {t u : Tier K V}

theorem of_within (ht : t.Roomy keys) (hindexed : u.Indexed) (hwithin : u.Within t)
    (hcapacity : u.capacity = t.capacity) : u.Roomy keys where
  indexed := hindexed
  known k e he := ht.known k e (hwithin.stored k e he)
  room := hcapacity ▸ ht.room

theorem lookup (ht : t.Roomy keys) (k : K) (now : Int) : (t.lookup k now).2.Roomy keys := by
  apply ht.of_within (ht.indexed.lookup k now) (t.lookup_within k now)
  rw [Tier.lookup]
  split
  · rfl
  · split <;> rfl

theorem touch (ht : t.Roomy keys) (k : K) : (t.touch k).Roomy keys :=
  ht.of_within (ht.indexed.touch k) (t.touch_within k) (t.touch_alike k).capacity

theorem remove (ht : t.Roomy keys) (k : K) : (t.remove k).2.Roomy keys :=
  ht.of_within (ht.indexed.remove k) (t.remove_within k) (t.remove_alike k).capacity

theorem purge (ht : t.Roomy keys) (now : Int) : (t.purge now).2.Roomy keys :=
  ht.of_within (ht.indexed.purge now) (t.purge_within now) rfl

theorem clear (ht : t.Roomy keys) : t.clear.Roomy keys :=
  ht.of_within t.consistent_clear.indexed t.clear_within rfl

/-- A write of one of the keys displaces nothing. -/
theorem put_eq (ht : t.Roomy keys) {k : K} (hk : k ∈ keys) (e : Entry V) :
    t.put k e = ⟨{ t with
      recency := k :: t.recency.erase k
      store := t.store.insert k e }, [], []⟩ := by
  apply put_of_room
  by_cases hstored : k ∈ t.recency
  · exact .inl hstored
  · -- The key is new, but it is one of those that the tier has room for.
    have hsub : (k :: t.recency).toFinset ⊆ keys := by
      intro j hj
      rw [List.mem_toFinset, List.mem_cons] at hj
      rcases hj with rfl | hj
      · exact hk
      · obtain ⟨d, hd⟩ := ht.indexed.exists_of_mem hj
        exact ht.known j d hd
    have hcard := Finset.card_le_card hsub
    rw [List.toFinset_card_of_nodup (List.nodup_cons.2 ⟨hstored, ht.indexed.nodup⟩),
      List.length_cons] at hcard
    have hroom := ht.room
    exact .inr (by omega)

theorem put_evicted (ht : t.Roomy keys) {k : K} (hk : k ∈ keys) (e : Entry V) :
    (t.put k e).evicted = [] := by
  rw [ht.put_eq hk]

theorem put (ht : t.Roomy keys) {k : K} (hk : k ∈ keys) (e : Entry V) :
    (t.put k e).tier.Roomy keys where
  indexed := ht.indexed.put k e
  known j d hd := by
    by_cases hj : j = k
    · exact hj ▸ hk
    · exact ht.known j d (stored_of_put hj hd)
  room := (t.put_alike k e).capacity ▸ ht.room

theorem view_put_of_ne (ht : t.Roomy keys) {j k : K} (hj : j ∈ keys) (hk : k ≠ j) (e : Entry V) :
    (t.put j e).tier.view k = t.view k := by
  rw [ht.put_eq hj, view, Store.get?_insert_of_ne _ _ hk, view]

end Roomy

end Tier

namespace Hierarchy

variable {K V : Type} [DecidableEq K]

/-- All that concerns a key is the same in both hierarchies. -/
structure Agree (k : K) (h h' : Hierarchy K V) : Prop where
  config : h.config = h'.config
  tier : ∀ l, (h.tier l).view k = (h'.tier l).view k
  history : h.tracker.get? k = h'.tracker.get? k

/-- Each tier has room for some keys and stores no others. -/
def Roomy (keys : Finset K) (h : Hierarchy K V) : Prop :=
  ∀ l, (h.tier l).Roomy keys

variable {keys : Finset K} {h h' h'' : Hierarchy K V} {j k : K}

namespace Agree

theorem refl (k : K) (h : Hierarchy K V) : Agree k h h :=
  ⟨rfl, fun _ => rfl, rfl⟩

theorem trans (hh : Agree k h h') (hh' : Agree k h' h'') : Agree k h h'' :=
  ⟨hh.config.trans hh'.config, fun l => (hh.tier l).trans (hh'.tier l),
    hh.history.trans hh'.history⟩

theorem ttl (hh : Agree k h h') (l : Level) : (h.tier l).ttl = (h'.tier l).ttl :=
  congrArg Prod.fst (hh.tier l)

theorem find? (hh : Agree k h h') (l : Level) (now : Int) :
    (h.tier l).find? k now = (h'.tier l).find? k now :=
  Tier.find?_congr (hh.tier l) now

theorem contains (hh : Agree k h h') (now : Int) : h.contains k now = h'.contains k now := by
  simp only [Hierarchy.contains, Tier.contains, hh.find?]

theorem levelOf? (hh : Agree k h h') (now : Int) : h.levelOf? k now = h'.levelOf? k now := by
  simp only [Hierarchy.levelOf?, Tier.contains, hh.find?]

theorem setTier (hh : Agree k h h') {l : Level} {t t' : Tier K V} (ht : t.view k = t'.view k) :
    Agree k (h.setTier l t) (h'.setTier l t') where
  config := hh.config
  tier m := by
    rw [tier_setTier, tier_setTier]
    by_cases hm : m = l
    · rw [if_pos hm, if_pos hm, ht]
    · rw [if_neg hm, if_neg hm, hh.tier]
  history := hh.history

end Agree

/-- A change of one tier that does not concern the key. -/
theorem agree_setTier {l : Level} {t : Tier K V} (ht : t.view k = (h.tier l).view k) :
    Agree k (h.setTier l t) h := by
  have hset : Agree k (h.setTier l t) (h.setTier l (h.tier l)) := (Agree.refl k h).setTier ht
  rwa [setTier_tier] at hset

theorem Roomy.setTier (hh : h.Roomy keys) {l : Level} {t : Tier K V} (ht : t.Roomy keys) :
    (h.setTier l t).Roomy keys := by
  intro m
  rw [tier_setTier]
  by_cases hm : m = l
  · rw [if_pos hm]
    exact ht
  · rw [if_neg hm]
    exact hh m

theorem roomy_of_new {config : Config} {stripe : K → Nat} (hnew : new config stripe = .ok h)
    (hroom : ∀ l, keys.card ≤ (config.tiers.get l).capacity) : h.Roomy keys := by
  intro l
  obtain ⟨capacities, hcapacities, rfl⟩ := eq_fresh_of_new hnew
  rw [tier_fresh]
  refine ⟨(Tier.consistent_empty _ _ _).indexed, ?_, ?_⟩
  · intro j e he
    exact absurd he (by simp [Tier.empty])
  · exact (hroom l).trans_eq (hcapacities l).symm

/-! ### Placements -/

theorem Roomy.placed (hh : h.Roomy keys) (l : Level) (hk : k ∈ keys) (e : Entry V) :
    (h.placed l k e).Roomy keys := by
  intro m
  rw [tier_placed]
  by_cases hm : m = l
  · rw [if_pos hm]
    exact (hh l).put hk e
  · rw [if_neg hm]
    exact (hh m).remove k

theorem Roomy.agree_placed (hh : h.Roomy keys) (l : Level) (hj : j ∈ keys) (hk : k ≠ j)
    (e : Entry V) : Agree k (h.placed l j e) h where
  config := by rw [placed_eq]
  tier m := by
    rw [tier_placed]
    by_cases hm : m = l
    · rw [if_pos hm, hm]
      exact (hh l).view_put_of_ne hj hk e
    · rw [if_neg hm]
      exact Tier.view_remove_of_ne _ hk
  history := by rw [placed_eq]

theorem Agree.placed (hh : Agree k h h') (l : Level) (e : Entry V) :
    Agree k (h.placed l k e) (h'.placed l k e) where
  config := by
    rw [placed_eq, placed_eq h']
    exact hh.config
  tier m := by
    rw [tier_placed, tier_placed]
    by_cases hm : m = l
    · rw [if_pos hm, if_pos hm, Tier.view_put_self, Tier.view_put_self, hh.ttl]
    · rw [if_neg hm, if_neg hm, Tier.view_remove_self, Tier.view_remove_self, hh.ttl]
  history := by
    rw [placed_eq, placed_eq h']
    exact hh.history

/-- Where there is room, nothing has to settle. -/
theorem Roomy.insertAt_eq (hh : h.Roomy keys) (l : Level) (hk : k ∈ keys) (e : Entry V)
    (now : Int) : h.insertAt l k e now = h.placed l k e := by
  rw [insertAt, place_eq, (hh l).put_evicted hk e]
  rfl

/-! ### Lookups -/

theorem Roomy.probe (hh : h.Roomy keys) (k : K) (now : Int) (levels : List Level) :
    (probe k now levels h).2.Roomy keys := by
  induction levels generalizing h with
  | nil => exact hh
  | cons l colder ih =>
    have hset : (h.setTier l ((h.tier l).lookup k now).2).Roomy keys :=
      hh.setTier ((hh l).lookup k now)
    rw [Hierarchy.probe]
    cases hfound : (h.tier l).lookup k now with
    | mk found t =>
      rw [hfound] at hset
      cases found with
      | some e => exact hset
      | none => exact ih hset

theorem agree_probe (hk : k ≠ j) (now : Int) (levels : List Level) (h : Hierarchy K V) :
    Agree k (probe j now levels h).2 h := by
  induction levels generalizing h with
  | nil => exact .refl k h
  | cons l colder ih =>
    have hset := agree_setTier ((h.tier l).view_lookup_of_ne hk now)
    rw [probe]
    cases hfound : (h.tier l).lookup j now with
    | mk found t =>
      rw [hfound] at hset
      cases found with
      | some e => exact hset
      | none => exact (ih _).trans hset

theorem Agree.probe (hh : Agree k h h') (now : Int) (levels : List Level) :
    (probe k now levels h).1 = (probe k now levels h').1 ∧
      Agree k (probe k now levels h).2 (probe k now levels h').2 := by
  induction levels generalizing h h' with
  | nil => exact ⟨rfl, hh⟩
  | cons l colder ih =>
    have hfst : ((h.tier l).lookup k now).1 = ((h'.tier l).lookup k now).1 := by
      rw [Tier.lookup_fst, Tier.lookup_fst, hh.find?]
    have hset : Agree k (h.setTier l ((h.tier l).lookup k now).2)
        (h'.setTier l ((h'.tier l).lookup k now).2) := by
      apply hh.setTier
      rw [Tier.view_lookup_self, Tier.view_lookup_self, hh.find?, hh.ttl]
    rw [Hierarchy.probe, Hierarchy.probe]
    cases hfound : (h.tier l).lookup k now with
    | mk found t =>
      cases hfound' : (h'.tier l).lookup k now with
      | mk found' t' =>
        rw [hfound, hfound'] at hfst hset
        simp only at hfst
        subst hfst
        cases found with
        | some e => exact ⟨rfl, hset⟩
        | none => exact ih hset

theorem Roomy.served (hh : h.Roomy keys) (l : Level) (k : K) (now : Int) :
    (h.served l k now).Roomy keys :=
  hh.setTier ((hh l).touch k)

theorem agree_served (hk : k ≠ j) (h : Hierarchy K V) (l : Level) (now : Int) :
    Agree k (h.served l j now) h where
  config := rfl
  tier := (agree_setTier ((h.tier l).view_touch j k)).tier
  history := Tracker.get?_record_of_ne h.tracker now hk

theorem Agree.served (hh : Agree k h h') (l : Level) (now : Int) :
    Agree k (h.served l k now) (h'.served l k now) where
  config := hh.config
  tier := by
    have htouched : Agree k (h.setTier l ((h.tier l).touch k))
        (h'.setTier l ((h'.tier l).touch k)) := by
      apply hh.setTier
      rw [Tier.view_touch, Tier.view_touch, hh.tier]
    exact htouched.tier
  history := Tracker.get?_record_congr hh.history now

theorem Roomy.mem_of_find? (hh : h.Roomy keys) {l : Level} {e : Entry V} {now : Int}
    (hfind : (h.tier l).find? k now = some e) : k ∈ keys :=
  (hh l).known k e (Option.filter_eq_some_iff.1 hfind).1

theorem Roomy.settleAll_raised (hh : h.Roomy keys) (target : Level) (hk : k ∈ keys) (e : Entry V)
    (now : Int) : (h.raised target k e).settleAll target ((h.tier target).put k e).evicted now =
      h.raised target k e := by
  rw [(hh target).put_evicted hk e]
  rfl

theorem Roomy.promote (hh : h.Roomy keys) (k : K) (source target : Level) (now : Int) :
    (h.promote k source target now).Roomy keys := by
  rcases h.promote_cases k source target now with ⟨-, hpromote⟩ | ⟨e, hfind, hcases⟩
  · rw [hpromote]
    exact hh.setTier ((hh source).lookup k now)
  · have hk := hh.mem_of_find? hfind
    rcases hcases with ⟨-, hpromote⟩ | ⟨-, hpromote⟩
    · rw [hpromote]
      exact hh
    · rw [hpromote, hh.settleAll_raised target hk]
      exact hh.placed target hk e

theorem Roomy.agree_promote (hh : h.Roomy keys) (hk : k ≠ j) (source target : Level)
    (now : Int) : Agree k (h.promote j source target now) h := by
  rcases h.promote_cases j source target now with ⟨-, hpromote⟩ | ⟨e, hfind, hcases⟩
  · rw [hpromote]
    exact agree_setTier ((h.tier source).view_lookup_of_ne hk now)
  · have hj := hh.mem_of_find? hfind
    rcases hcases with ⟨-, hpromote⟩ | ⟨-, hpromote⟩
    · rw [hpromote]
      exact .refl k h
    · have hplaced := hh.agree_placed target hj hk e
      rw [hpromote, hh.settleAll_raised target hj]
      exact ⟨hplaced.config, hplaced.tier, hplaced.history⟩

theorem Agree.promote (hagree : Agree k h h') (hh : h.Roomy keys) (hh' : h'.Roomy keys)
    (source target : Level) (now : Int) :
    Agree k (h.promote k source target now) (h'.promote k source target now) := by
  -- Both find the same entry and judge it in the same way, so the mixed cases do not arise.
  have hsame := hagree.find? source now
  rcases h.promote_cases k source target now with ⟨hfind, hpromote⟩ | ⟨e, hfind, hcases⟩ <;>
    rcases h'.promote_cases k source target now with ⟨hfind', hpromote'⟩ | ⟨d, hfind', hcases'⟩ <;>
    rw [hfind, hfind'] at hsame
  · rw [hpromote, hpromote']
    apply hagree.setTier
    rw [Tier.view_lookup_self, Tier.view_lookup_self, hfind, hfind', hagree.ttl]
  · exact absurd hsame (by simp)
  · exact absurd hsame (by simp)
  · obtain rfl := Option.some.inj hsame
    rw [hagree.ttl] at hcases
    rcases hcases with ⟨hage, hpromote⟩ | ⟨hage, hpromote⟩ <;>
      rcases hcases' with ⟨hage', hpromote'⟩ | ⟨hage', hpromote'⟩ <;>
      rw [hpromote, hpromote']
    · exact hagree
    · rw [hage] at hage'
      exact absurd hage' (by simp)
    · rw [hage] at hage'
      exact absurd hage' (by simp)
    · have hplaced := hagree.placed target e
      rw [hh.settleAll_raised target (hh.mem_of_find? hfind),
        hh'.settleAll_raised target (hh'.mem_of_find? hfind')]
      exact ⟨hplaced.config, hplaced.tier, hplaced.history⟩

theorem Roomy.serve (hh : h.Roomy keys) (k : K) (l : Level) (now : Int) :
    (h.serve k l now).Roomy keys := by
  rw [serve_eq]
  split
  · exact hh.served l k now
  · exact (hh.served l k now).promote k l _ now

theorem Roomy.agree_serve (hh : h.Roomy keys) (hk : k ≠ j) (l : Level) (now : Int) :
    Agree k (h.serve j l now) h := by
  have hserved := agree_served hk h l now
  rw [serve_eq]
  split
  · exact hserved
  · exact ((hh.served l j now).agree_promote hk l _ now).trans hserved

theorem Agree.serve (hagree : Agree k h h') (hh : h.Roomy keys) (hh' : h'.Roomy keys) (l : Level)
    (now : Int) : Agree k (h.serve k l now) (h'.serve k l now) := by
  have hserved := hagree.served l now
  rw [serve_eq, serve_eq, hagree.config, Tracker.record_fst_congr hagree.history]
  split
  · exact hserved
  · exact hserved.promote (hh.served l k now) (hh'.served l k now) l _ now

theorem Roomy.get (hh : h.Roomy keys) (k : K) (now : Int) : (h.get k now).2.Roomy keys := by
  have hprobe := hh.probe k now Level.all
  rw [get_eq]
  split
  · exact hprobe.serve k _ now
  · exact hprobe

theorem Roomy.agree_get (hh : h.Roomy keys) (hk : k ≠ j) (now : Int) :
    Agree k (h.get j now).2 h := by
  have hprobe := agree_probe hk now Level.all h
  rw [get_eq]
  split
  · exact ((hh.probe j now Level.all).agree_serve hk _ now).trans hprobe
  · exact ⟨hprobe.config, hprobe.tier, hprobe.history⟩

theorem Agree.get (hagree : Agree k h h') (hh : h.Roomy keys) (hh' : h'.Roomy keys) (now : Int) :
    (h.get k now).1 = (h'.get k now).1 ∧ Agree k (h.get k now).2 (h'.get k now).2 := by
  obtain ⟨hfound, hprobe⟩ := hagree.probe now Level.all
  rw [get_eq h, get_eq h', hfound]
  split
  · exact ⟨rfl, hprobe.serve (hh.probe k now Level.all) (hh'.probe k now Level.all) _ now⟩
  · exact ⟨rfl, hprobe.config, hprobe.tier, hprobe.history⟩

/-! ### Writes -/

/-- The tier that a value of a key is written to. -/
def destination (h : Hierarchy K V) (k : K) (now : Int) : Level :=
  let earned := h.config.migration.placement (h.tracker.record k now).1 now
  match h.levelOf? k now with
  | some current => if current.isHotterThan earned then current else earned
  | none => earned

theorem put_eq (h : Hierarchy K V) (k : K) (v : V) (now : Int) :
    h.put k v now = (h.recordAccess k now).2.insertAt (h.destination k now) k ⟨v, now⟩ now := rfl

theorem Roomy.put_eq (hh : h.Roomy keys) (hk : k ∈ keys) (v : V) (now : Int) :
    h.put k v now = (h.recordAccess k now).2.placed (h.destination k now) k ⟨v, now⟩ := by
  have hrecorded : (h.recordAccess k now).2.Roomy keys := hh
  rw [Hierarchy.put_eq, hrecorded.insertAt_eq _ hk]

theorem Roomy.put (hh : h.Roomy keys) (hk : k ∈ keys) (v : V) (now : Int) :
    (h.put k v now).Roomy keys := by
  have hrecorded : (h.recordAccess k now).2.Roomy keys := hh
  rw [hh.put_eq hk]
  exact hrecorded.placed _ hk _

theorem Roomy.agree_put (hh : h.Roomy keys) (hj : j ∈ keys) (hk : k ≠ j) (v : V) (now : Int) :
    Agree k (h.put j v now) h := by
  have hrecorded : (h.recordAccess j now).2.Roomy keys := hh
  have hothers : Agree k (h.recordAccess j now).2 h :=
    ⟨rfl, fun _ => rfl, Tracker.get?_record_of_ne h.tracker now hk⟩
  rw [hh.put_eq hj]
  exact (hrecorded.agree_placed _ hj hk _).trans hothers

theorem Agree.put (hagree : Agree k h h') (hh : h.Roomy keys) (hh' : h'.Roomy keys) (hk : k ∈ keys)
    (v : V) (now : Int) : Agree k (h.put k v now) (h'.put k v now) := by
  have hrecorded : Agree k (h.recordAccess k now).2 (h'.recordAccess k now).2 :=
    ⟨hagree.config, hagree.tier, Tracker.get?_record_congr hagree.history now⟩
  have hdestination : h.destination k now = h'.destination k now := by
    rw [destination, destination, hagree.config, hagree.levelOf?,
      Tracker.record_fst_congr hagree.history]
  rw [hh.put_eq hk, hh'.put_eq hk, hdestination]
  exact hrecorded.placed _ _

theorem Roomy.loaded (hh : h.Roomy keys) (hk : k ∈ keys) (e : Entry V) :
    (h.loaded k e).Roomy keys := by
  intro m
  rw [tier_loaded]
  by_cases hm : m = .cold
  · rw [if_pos hm]
    exact (hh .cold).put hk e
  · rw [if_neg hm]
    exact hh m

theorem loaded_eq (h : Hierarchy K V) (k : K) (e : Entry V) :
    h.loaded k e = { h with
      tiers := (h.loaded k e).tiers
      counters := (h.loaded k e).counters
      moves := (h.loaded k e).moves } := by
  rw [loaded, takeOver_eq]
  rfl

theorem Roomy.agree_loaded (hh : h.Roomy keys) (hj : j ∈ keys) (hk : k ≠ j) (e : Entry V) :
    Agree k (h.loaded j e) h where
  config := by rw [loaded_eq]
  tier m := by
    rw [tier_loaded]
    by_cases hm : m = .cold
    · rw [if_pos hm, hm]
      exact (hh .cold).view_put_of_ne hj hk e
    · rw [if_neg hm]
  history := by rw [loaded_eq]

theorem Agree.loaded (hagree : Agree k h h') (e : Entry V) :
    Agree k (h.loaded k e) (h'.loaded k e) where
  config := by
    rw [loaded_eq, loaded_eq h']
    exact hagree.config
  tier m := by
    rw [tier_loaded, tier_loaded]
    by_cases hm : m = .cold
    · rw [if_pos hm, if_pos hm, Tier.view_put_self, Tier.view_put_self, hagree.ttl]
    · rw [if_neg hm, if_neg hm, hagree.tier]
  history := by
    rw [loaded_eq, loaded_eq h']
    exact hagree.history

theorem Roomy.putSpeculative_eq (hh : h.Roomy keys) (hk : k ∈ keys) (v : V) (now : Int) :
    h.putSpeculative k v now =
      if h.contains k now then (false, h) else (true, h.loaded k ⟨v, now⟩) := by
  rw [Hierarchy.putSpeculative_eq, (hh .cold).put_evicted hk]
  rfl

theorem Roomy.putSpeculative (hh : h.Roomy keys) (hk : k ∈ keys) (v : V) (now : Int) :
    (h.putSpeculative k v now).2.Roomy keys := by
  rw [hh.putSpeculative_eq hk]
  split
  · exact hh
  · exact hh.loaded hk _

theorem Roomy.agree_putSpeculative (hh : h.Roomy keys) (hj : j ∈ keys) (hk : k ≠ j) (v : V)
    (now : Int) : Agree k (h.putSpeculative j v now).2 h := by
  rw [hh.putSpeculative_eq hj]
  split
  · exact .refl k h
  · exact hh.agree_loaded hj hk _

theorem Agree.putSpeculative (hagree : Agree k h h') (hh : h.Roomy keys) (hh' : h'.Roomy keys)
    (hk : k ∈ keys) (v : V) (now : Int) :
    (h.putSpeculative k v now).1 = (h'.putSpeculative k v now).1 ∧
      Agree k (h.putSpeculative k v now).2 (h'.putSpeculative k v now).2 := by
  rw [hh.putSpeculative_eq hk, hh'.putSpeculative_eq hk, hagree.contains]
  split
  · exact ⟨rfl, hagree⟩
  · exact ⟨rfl, hagree.loaded _⟩

/-! ### Removals and sweeps -/

theorem Roomy.remove (hh : h.Roomy keys) (k : K) : (h.remove k).Roomy keys := by
  intro l
  rw [tier_remove]
  exact (hh l).remove k

theorem Roomy.clear (hh : h.Roomy keys) : h.clear.Roomy keys := by
  intro l
  rw [tier_clear]
  exact (hh l).clear

theorem Roomy.purgeExpired (hh : h.Roomy keys) (now : Int) :
    (h.purgeExpired now).2.Roomy keys := by
  intro l
  rw [tier_purgeExpired]
  exact (hh l).purge now

theorem agree_remove (hk : k ≠ j) (h : Hierarchy K V) : Agree k (h.remove j) h where
  config := rfl
  tier m := by rw [tier_remove, Tier.view_remove_of_ne _ hk]
  history := by
    rw [remove, Tracker.get?_remove, if_neg hk]

theorem Agree.remove (hagree : Agree k h h') : Agree k (h.remove k) (h'.remove k) where
  config := hagree.config
  tier m := by
    rw [tier_remove, tier_remove, Tier.view_remove_self, Tier.view_remove_self, hagree.ttl]
  history := by
    rw [Hierarchy.remove, Hierarchy.remove, Tracker.get?_remove, Tracker.get?_remove, if_pos rfl,
      if_pos rfl]

theorem Agree.clear (hagree : Agree k h h') : Agree k h.clear h'.clear where
  config := hagree.config
  tier m := by
    rw [tier_clear, tier_clear, Tier.view, Tier.view]
    exact congrArg (fun ttl => (ttl, none)) (hagree.ttl m)
  history := rfl

theorem Agree.purgeExpired (hagree : Agree k h h') (now : Int) :
    Agree k (h.purgeExpired now).2 (h'.purgeExpired now).2 where
  config := hagree.config
  tier m := by
    rw [tier_purgeExpired, tier_purgeExpired, Tier.view_purge, Tier.view_purge, hagree.find?,
      hagree.ttl]
  history := hagree.history

theorem Agree.pruneHistories (hagree : Agree k h h') (staleness : Nat) (now : Int) :
    Agree k (h.pruneHistories staleness now).2 (h'.pruneHistories staleness now).2 where
  config := hagree.config
  tier := hagree.tier
  history := by
    have hstale : ∀ history, Tracker.isStale staleness now (fun j => h.contains j now) k history =
        Tracker.isStale staleness now (fun j => h'.contains j now) k history := by
      intro history
      rw [Tracker.isStale, Tracker.isStale, hagree.contains]
    rw [Hierarchy.pruneHistories, Hierarchy.pruneHistories, Tracker.get?_prune, Tracker.get?_prune,
      hagree.history]
    simp only [hstale]

end Hierarchy

end TieredCache
