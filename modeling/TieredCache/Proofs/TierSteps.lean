import TieredCache.Proofs.StoreListing
import TieredCache.Tier

/-!
# What one operation does to a tier

A tier keeps its store and its recency order side by side. `Tier.Indexed` says that they agree, and
every operation keeps them so. Beside this stand the shapes that a displacement can have, which is
all that the other modules know about evictions.
-/

namespace TieredCache

theorem Entry.expired_iff {V : Type} (e : Entry V) (ttl : Nat) (now : Int) :
    e.expired ttl now ↔ e.insertedAt + ttl < now := by
  rw [expired, decide_eq_true_iff, age, elapsed]
  omega

theorem Entry.not_expired_when_written {V : Type} (v : V) (ttl : Nat) (now : Int) :
    (⟨v, now⟩ : Entry V).expired ttl now = false := by
  rw [← Bool.not_eq_true, expired_iff]
  simp only
  omega

theorem Entry.not_expired_earlier {V : Type} {e : Entry V} {ttl : Nat} {now later : Int}
    (hnow : now ≤ later) (hage : e.expired ttl later = false) : e.expired ttl now = false := by
  rw [← Bool.not_eq_true, expired_iff] at hage ⊢
  omega

namespace Tier

variable {K V : Type}

/-- The recency order lists exactly the stored keys, each once. -/
def Indexed (t : Tier K V) : Prop :=
  t.recency.Perm t.store.keys

theorem Indexed.nodup {t : Tier K V} (h : t.Indexed) : t.recency.Nodup :=
  h.nodup_iff.2 t.store.nodup_keys

theorem Indexed.length_recency {t : Tier K V} (h : t.Indexed) : t.recency.length = t.size := by
  rw [h.length_eq, Store.length_keys, size]

/-- A tier whose store and order agree, and that holds no more than it has room for. -/
structure Consistent (t : Tier K V) : Prop where
  indexed : t.Indexed
  fits : t.recency.length ≤ t.capacity.value

/-- Two tiers that differ in their entries and the order of these at most. -/
structure Alike (t u : Tier K V) : Prop where
  level : t.level = u.level
  capacity : t.capacity = u.capacity
  ttl : t.ttl = u.ttl
  expirations : t.expirations = u.expirations

theorem Alike.trans {t u w : Tier K V} (h : t.Alike u) (h' : u.Alike w) : t.Alike w :=
  ⟨h.level.trans h'.level, h.capacity.trans h'.capacity, h.ttl.trans h'.ttl,
    h.expirations.trans h'.expirations⟩

theorem consistent_empty (level : Level) (capacity : Capacity) (ttl : Nat) :
    (empty level capacity ttl : Tier K V).Consistent :=
  ⟨List.Perm.refl _, Nat.zero_le _⟩

theorem consistent_clear (t : Tier K V) : t.clear.Consistent :=
  ⟨List.Perm.refl _, Nat.zero_le _⟩

variable [DecidableEq K]

theorem Indexed.mem_recency_iff {t : Tier K V} (h : t.Indexed) (k : K) :
    k ∈ t.recency ↔ t.store.contains k := by
  rw [h.mem_iff, Store.mem_keys_iff]

theorem Indexed.exists_of_mem {t : Tier K V} (h : t.Indexed) {k : K} (hk : k ∈ t.recency) :
    ∃ e, t.store.get? k = some e :=
  Option.isSome_iff_exists.1 ((h.mem_recency_iff k).1 hk)

/-! ### Displacements -/

/-- The search for a victim finds nothing, or the first stored key, whose predecessors are gone. -/
theorem leastRecent_cases (store : Store K (Entry V)) (keys : List K) :
    (∃ newer, leastRecent store keys = (none, newer)) ∨
      ∃ k e newer, k ∈ keys ∧ store.get? k = some e ∧
        leastRecent store keys = (some (k, e), newer) := by
  induction keys with
  | nil => exact .inl ⟨[], rfl⟩
  | cons k keys ih =>
    simp only [leastRecent]
    cases hk : store.get? k with
    | some e => exact .inr ⟨k, e, keys, List.mem_cons_self, hk, rfl⟩
    | none =>
      obtain h | ⟨j, e, newer, hj, he, h⟩ := ih
      · exact .inl h
      · exact .inr ⟨j, e, newer, List.mem_cons_of_mem _ hj, he, h⟩

/-- An eviction takes out no entry, or one stored entry that it has announced. -/
theorem evict_cases (t : Tier K V) :
    (∃ order, t.evict = ⟨{ t with recency := order }, [], []⟩) ∨
      ∃ k e order, k ∈ t.recency ∧ t.store.get? k = some e ∧
        t.evict = ⟨{ t with recency := order, store := t.store.erase k }, [k], [(k, e)]⟩ := by
  obtain ⟨newer, h⟩ | ⟨k, e, newer, hk, he, h⟩ := leastRecent_cases t.store t.recency.reverse
  · exact .inl ⟨newer.reverse, by simp only [evict, h]⟩
  · exact .inr ⟨k, e, newer.reverse, List.mem_reverse.1 hk, he, by simp only [evict, h]⟩

/-- A write displaces nothing, or one stored entry of another key. -/
theorem put_cases (t : Tier K V) (k : K) (e : Entry V) :
    (∃ order, t.put k e =
        ⟨{ t with recency := k :: order, store := t.store.insert k e }, [], []⟩) ∨
      ∃ j d order, j ≠ k ∧ t.store.get? j = some d ∧ t.put k e =
        ⟨{ t with recency := k :: order, store := (t.store.erase j).insert k e }, [j],
          [(j, d)]⟩ := by
  by_cases hfull : k ∉ t.recency ∧ t.capacity.value ≤ t.recency.length
  · obtain ⟨order, h⟩ | ⟨j, d, order, hj, hd, h⟩ := evict_cases t
    · exact .inl ⟨order.erase k, by simp only [put, if_pos hfull, h]⟩
    · refine .inr ⟨j, d, order.erase k, ?_, hd, by simp only [put, if_pos hfull, h]⟩
      rintro rfl
      exact hfull.1 hj
  · exact .inl ⟨t.recency.erase k, by simp only [put, if_neg hfull]⟩

/-- The least recently touched key of an indexed tier is the victim. -/
theorem evict_of_recency {t : Tier K V} {front : List K} {k : K} {e : Entry V}
    (hrecency : t.recency = front ++ [k]) (he : t.store.get? k = some e) :
    t.evict = ⟨{ t with recency := front, store := t.store.erase k }, [k], [(k, e)]⟩ := by
  have hfind : leastRecent t.store t.recency.reverse = (some (k, e), front.reverse) := by
    rw [hrecency, List.reverse_append]
    simp only [List.reverse_singleton, List.singleton_append, leastRecent, he]
  simp only [evict, hfind, List.reverse_reverse]

theorem evict_of_nil {t : Tier K V} (hrecency : t.recency = []) : t.evict = ⟨t, [], []⟩ := by
  obtain ⟨level, capacity, ttl, store, recency, expirations⟩ := t
  subst hrecency
  rfl

/-- A write of a key that is there already, or that there is room for. -/
theorem put_of_room {t : Tier K V} {k : K} (e : Entry V)
    (h : k ∈ t.recency ∨ t.recency.length < t.capacity.value) :
    t.put k e = ⟨{ t with
      recency := k :: t.recency.erase k
      store := t.store.insert k e }, [], []⟩ := by
  have hroom : ¬(k ∉ t.recency ∧ t.capacity.value ≤ t.recency.length) := by
    rintro ⟨hk, hle⟩
    rcases h with h | h
    · exact hk h
    · omega
  simp only [put, if_neg hroom]

/-- A write of a new key into a full tier. -/
theorem put_of_full {t : Tier K V} {k j : K} {front : List K} {d : Entry V} (e : Entry V)
    (hk : k ∉ t.recency) (hfull : t.capacity.value ≤ t.recency.length)
    (hrecency : t.recency = front ++ [j]) (hd : t.store.get? j = some d) :
    t.put k e = ⟨{ t with
      recency := k :: front
      store := (t.store.erase j).insert k e }, [j], [(j, d)]⟩ := by
  have hfront : k ∉ front := fun h => hk (hrecency ▸ List.mem_append_left _ h)
  simp only [put, if_pos (And.intro hk hfull), evict_of_recency hrecency hd,
    List.erase_of_not_mem hfront]

/-- Every write into an indexed tier has one of the two shapes. -/
theorem Indexed.put_cases {t : Tier K V} (h : t.Indexed) (k : K) (e : Entry V) :
    ((k ∈ t.recency ∨ t.recency.length < t.capacity.value) ∧ t.put k e = ⟨{ t with
        recency := k :: t.recency.erase k
        store := t.store.insert k e }, [], []⟩) ∨
      ∃ front j d, k ∉ t.recency ∧ t.capacity.value ≤ t.recency.length ∧
        t.recency = front ++ [j] ∧ t.store.get? j = some d ∧ t.put k e = ⟨{ t with
          recency := k :: front
          store := (t.store.erase j).insert k e }, [j], [(j, d)]⟩ := by
  by_cases hroom : k ∈ t.recency ∨ t.recency.length < t.capacity.value
  · exact .inl ⟨hroom, put_of_room e hroom⟩
  · rw [not_or, Nat.not_lt] at hroom
    obtain ⟨hk, hfull⟩ := hroom
    obtain hnil | ⟨front, j, hrecency⟩ := t.recency.eq_nil_or_concat
    · have hpos := t.capacity.positive
      rw [hnil, List.length_nil] at hfull
      omega
    · rw [List.concat_eq_append] at hrecency
      obtain ⟨d, hd⟩ := h.exists_of_mem (k := j) (by rw [hrecency]; simp)
      exact .inr ⟨front, j, d, hk, hfull, hrecency, hd, put_of_full e hk hfull hrecency hd⟩

theorem store_touch (t : Tier K V) (k : K) : (t.touch k).store = t.store := by
  rw [touch]
  split <;> rfl

theorem length_put_evicted_le (t : Tier K V) (k : K) (e : Entry V) :
    (t.put k e).evicted.length ≤ 1 := by
  obtain ⟨order, h⟩ | ⟨j, d, order, -, -, h⟩ := t.put_cases k e
  · rw [h]
    exact Nat.zero_le 1
  · rw [h]
    exact Nat.le_refl 1

theorem put_announced (t : Tier K V) (k : K) (e : Entry V) :
    (t.put k e).announced = (t.put k e).evicted.map Prod.fst := by
  obtain ⟨order, h⟩ | ⟨j, d, order, -, -, h⟩ := t.put_cases k e <;> rw [h] <;> rfl

theorem evictTo_announced (bound rounds : Nat) (t : Tier K V) :
    (evictTo bound rounds t).announced = (evictTo bound rounds t).evicted.map Prod.fst := by
  induction rounds generalizing t with
  | zero => rfl
  | succ rounds ih =>
    rw [evictTo]
    split
    · rfl
    · have hfirst : t.evict.announced = t.evict.evicted.map Prod.fst := by
        obtain ⟨order, h⟩ | ⟨k, e, order, -, -, h⟩ := t.evict_cases <;> rw [h] <;> rfl
      simp only [hfirst, ih, List.map_append]

theorem resize_announced (t : Tier K V) (capacity : Capacity) :
    (t.resize capacity).announced = (t.resize capacity).evicted.map Prod.fst :=
  evictTo_announced _ _ _

/-! ### What stays beside the entries -/

theorem put_alike (t : Tier K V) (k : K) (e : Entry V) : (t.put k e).tier.Alike t := by
  obtain ⟨order, h⟩ | ⟨j, d, order, -, -, h⟩ := t.put_cases k e <;> rw [h] <;>
    exact ⟨rfl, rfl, rfl, rfl⟩

theorem touch_alike (t : Tier K V) (k : K) : (t.touch k).Alike t := by
  unfold touch
  split <;> exact ⟨rfl, rfl, rfl, rfl⟩

theorem remove_alike (t : Tier K V) (k : K) : (t.remove k).2.Alike t := by
  unfold remove
  split <;> exact ⟨rfl, rfl, rfl, rfl⟩

theorem evictTo_alike (bound rounds : Nat) (t : Tier K V) :
    (evictTo bound rounds t).tier.Alike t := by
  induction rounds generalizing t with
  | zero => exact ⟨rfl, rfl, rfl, rfl⟩
  | succ rounds ih =>
    rw [evictTo]
    split
    · exact ⟨rfl, rfl, rfl, rfl⟩
    · have hfirst : t.evict.tier.Alike t := by
        obtain ⟨order, h⟩ | ⟨k, e, order, -, -, h⟩ := t.evict_cases <;> rw [h] <;>
          exact ⟨rfl, rfl, rfl, rfl⟩
      exact (ih t.evict.tier).trans hfirst

theorem resize_alike (t : Tier K V) (capacity : Capacity) :
    (t.resize capacity).tier.Alike { t with capacity := capacity } :=
  evictTo_alike _ _ _

/-! ### Store and order agree -/

theorem Indexed.erase {t : Tier K V} (h : t.Indexed) (k : K) :
    (t.recency.erase k).Perm (t.store.erase k).keys := by
  rw [Store.keys_erase]
  exact List.Perm.erase k h

theorem Indexed.discard {t : Tier K V} (h : t.Indexed) (k : K) : (t.discard k).Indexed :=
  h.erase k

theorem Indexed.lookup {t : Tier K V} (h : t.Indexed) (k : K) (now : Int) :
    (t.lookup k now).2.Indexed := by
  rw [Tier.lookup]
  split
  · exact h
  · split
    · exact h.discard k
    · exact h

theorem Indexed.touch {t : Tier K V} (h : t.Indexed) (k : K) : (t.touch k).Indexed := by
  rw [Tier.touch]
  split
  · rename_i hk
    exact (List.perm_cons_erase hk).symm.trans h
  · exact h

theorem Indexed.remove {t : Tier K V} (h : t.Indexed) (k : K) : (t.remove k).2.Indexed := by
  rw [Tier.remove]
  split
  · exact h
  · exact h.discard k

theorem Indexed.evict {t : Tier K V} (h : t.Indexed) : t.evict.tier.Indexed := by
  obtain hnil | ⟨front, k, hrecency⟩ := t.recency.eq_nil_or_concat
  · rw [evict_of_nil hnil]
    exact h
  · rw [List.concat_eq_append] at hrecency
    obtain ⟨e, he⟩ := h.exists_of_mem (k := k) (by rw [hrecency]; simp)
    have hk : k ∉ front := by
      have hnodup := h.nodup
      rw [hrecency] at hnodup
      intro hk
      exact (List.disjoint_of_nodup_append hnodup) hk (List.mem_singleton_self k)
    have herase := h.erase k
    rw [hrecency, List.erase_append_right _ hk, List.erase_cons_head, List.append_nil] at herase
    rw [evict_of_recency hrecency he]
    exact herase

theorem Indexed.put {t : Tier K V} (h : t.Indexed) (k : K) (e : Entry V) :
    (t.put k e).tier.Indexed := by
  have hinsert : ∀ d : Displacement K V, d.tier.Indexed →
      (k :: d.tier.recency.erase k).Perm (d.tier.store.insert k e).keys := by
    intro d hd
    rw [Store.keys_insert]
    exact (hd.erase k).cons k
  rw [Tier.put]
  split
  · exact hinsert _ h.evict
  · exact hinsert ⟨t, [], []⟩ h

theorem Indexed.evictTo {t : Tier K V} (h : t.Indexed) (bound rounds : Nat) :
    (evictTo bound rounds t).tier.Indexed := by
  induction rounds generalizing t with
  | zero => exact h
  | succ rounds ih =>
    rw [Tier.evictTo]
    split
    · exact h
    · exact ih h.evict

theorem Indexed.resize {t : Tier K V} (h : t.Indexed) (capacity : Capacity) :
    (t.resize capacity).tier.Indexed :=
  Indexed.evictTo (t := { t with capacity := capacity }) h _ _

theorem Indexed.purge {t : Tier K V} (h : t.Indexed) (now : Int) : (t.purge now).2.Indexed := by
  rw [Indexed, Tier.purge, Store.keys_filter]
  have hsame : t.store.keys.filter (fun k => !t.isExpired now k) =
      t.store.keys.filter fun k => (t.store.get? k).any fun e => !e.expired t.ttl now := by
    apply List.filter_congr
    intro k hk
    obtain ⟨e, he⟩ := Option.isSome_iff_exists.1 ((Store.mem_keys_iff t.store k).1 hk)
    simp [isExpired, he]
  rw [← hsame]
  exact h.filter _

/-! ### No more than there is room for -/

theorem Consistent.discard {t : Tier K V} (h : t.Consistent) (k : K) : (t.discard k).Consistent :=
  ⟨h.indexed.discard k, Nat.le_trans List.length_erase_le h.fits⟩

theorem Consistent.lookup {t : Tier K V} (h : t.Consistent) (k : K) (now : Int) :
    (t.lookup k now).2.Consistent := by
  refine ⟨h.indexed.lookup k now, ?_⟩
  rw [Tier.lookup]
  split
  · exact h.fits
  · split
    · exact (h.discard k).fits
    · exact h.fits

theorem Consistent.touch {t : Tier K V} (h : t.Consistent) (k : K) : (t.touch k).Consistent := by
  refine ⟨h.indexed.touch k, ?_⟩
  rw [Tier.touch]
  split
  · rename_i hk
    have hlen := (List.perm_cons_erase hk).length_eq
    exact hlen ▸ h.fits
  · exact h.fits

theorem Consistent.remove {t : Tier K V} (h : t.Consistent) (k : K) :
    (t.remove k).2.Consistent := by
  refine ⟨h.indexed.remove k, ?_⟩
  rw [Tier.remove]
  split
  · exact h.fits
  · exact (h.discard k).fits

/-- A full tier has given up an entry for each new one. -/
theorem Consistent.put {t : Tier K V} (h : t.Consistent) (k : K) (e : Entry V) :
    (t.put k e).tier.Consistent := by
  refine ⟨h.indexed.put k e, ?_⟩
  have hfits := h.fits
  obtain ⟨hroom, hput⟩ | ⟨front, j, d, -, hfull, hrecency, -, hput⟩ := h.indexed.put_cases k e
  · rw [hput]
    by_cases hk : k ∈ t.recency
    · exact (List.perm_cons_erase hk).length_eq ▸ hfits
    · have hlt := hroom.resolve_left hk
      simp only [List.erase_of_not_mem hk, List.length_cons]
      omega
  · rw [hrecency, List.length_append, List.length_singleton] at hfits
    rw [hput]
    simpa using hfits

/-- As many rounds as there are keys suffice for any bound. -/
theorem Indexed.length_evictTo {t : Tier K V} (h : t.Indexed) (bound rounds : Nat)
    (hrounds : t.recency.length ≤ bound + rounds) :
    (Tier.evictTo bound rounds t).tier.recency.length ≤ bound := by
  induction rounds generalizing t with
  | zero => exact hrounds
  | succ rounds ih =>
    rw [Tier.evictTo]
    split
    · assumption
    · obtain hnil | ⟨front, k, hrecency⟩ := t.recency.eq_nil_or_concat
      · simp [hnil] at *
      · rw [List.concat_eq_append] at hrecency
        obtain ⟨e, he⟩ := h.exists_of_mem (k := k) (by rw [hrecency]; simp)
        refine ih h.evict ?_
        rw [hrecency, List.length_append, List.length_singleton] at hrounds
        rw [evict_of_recency hrecency he]
        simp only
        omega

theorem Consistent.resize {t : Tier K V} (h : t.Consistent) (capacity : Capacity) :
    (t.resize capacity).tier.Consistent := by
  refine ⟨h.indexed.resize capacity, ?_⟩
  have hlen : (t.resize capacity).tier.recency.length ≤ capacity.value :=
    Indexed.length_evictTo (t := { t with capacity := capacity }) h.indexed _ _
      (Nat.le_add_left _ _)
  rw [(t.resize_alike capacity).capacity]
  exact hlen

theorem Consistent.purge {t : Tier K V} (h : t.Consistent) (now : Int) :
    (t.purge now).2.Consistent :=
  ⟨h.indexed.purge now, Nat.le_trans (List.length_filter_le _ _) h.fits⟩

/-! ### What a tier still stores -/

/-- Everything that the first tier stores is stored in the second one, with the same time to
live. -/
structure Within (t u : Tier K V) : Prop where
  ttl : t.ttl = u.ttl
  stored : ∀ k e, t.store.get? k = some e → u.store.get? k = some e

theorem Within.refl (t : Tier K V) : t.Within t :=
  ⟨rfl, fun _ _ h => h⟩

theorem Within.trans {t u w : Tier K V} (h : t.Within u) (h' : u.Within w) : t.Within w :=
  ⟨h.ttl.trans h'.ttl, fun k e he => h'.stored k e (h.stored k e he)⟩

theorem stored_of_erase {s : Store K (Entry V)} {j k : K} {e : Entry V}
    (h : (s.erase k).get? j = some e) : s.get? j = some e := by
  rw [Store.get?_erase] at h
  split at h
  · exact absurd h (by simp)
  · exact h

theorem discard_within (t : Tier K V) (k : K) : (t.discard k).Within t :=
  ⟨rfl, fun _ _ h => stored_of_erase h⟩

theorem lookup_within (t : Tier K V) (k : K) (now : Int) : (t.lookup k now).2.Within t := by
  rw [lookup]
  split
  · exact .refl t
  · split
    · exact ⟨rfl, (t.discard_within k).stored⟩
    · exact .refl t

theorem touch_within (t : Tier K V) (k : K) : (t.touch k).Within t := by
  rw [touch]
  split
  · exact ⟨rfl, fun _ _ h => h⟩
  · exact .refl t

theorem remove_within (t : Tier K V) (k : K) : (t.remove k).2.Within t := by
  rw [remove]
  split
  · exact .refl t
  · exact t.discard_within k

theorem clear_within (t : Tier K V) : t.clear.Within t :=
  ⟨rfl, fun k e h => absurd h (by simp [clear])⟩

theorem evict_within (t : Tier K V) : t.evict.tier.Within t := by
  obtain ⟨order, h⟩ | ⟨k, e, order, -, -, h⟩ := t.evict_cases
  · rw [h]
    exact ⟨rfl, fun _ _ h => h⟩
  · rw [h]
    exact ⟨rfl, fun _ _ h => stored_of_erase h⟩

theorem evictTo_within (bound rounds : Nat) (t : Tier K V) :
    (evictTo bound rounds t).tier.Within t := by
  induction rounds generalizing t with
  | zero => exact .refl t
  | succ rounds ih =>
    rw [evictTo]
    split
    · exact .refl t
    · exact (ih t.evict.tier).trans t.evict_within

theorem resize_within (t : Tier K V) (capacity : Capacity) : (t.resize capacity).tier.Within t :=
  let h := evictTo_within capacity.value t.recency.length { t with capacity := capacity }
  ⟨h.ttl, h.stored⟩

theorem purge_within (t : Tier K V) (now : Int) : (t.purge now).2.Within t := by
  refine ⟨rfl, fun k e h => ?_⟩
  simp only [purge, Store.get?_filter, Option.filter_eq_some_iff] at h
  exact h.1

/-- Nothing is left of a key that was taken out. -/
theorem get?_remove_self (t : Tier K V) (k : K) : (t.remove k).2.store.get? k = none := by
  rw [remove]
  split
  · assumption
  · exact Store.get?_erase_self t.store k

theorem get?_put_self (t : Tier K V) (k : K) (e : Entry V) :
    (t.put k e).tier.store.get? k = some e := by
  obtain ⟨order, h⟩ | ⟨j, d, order, -, -, h⟩ := t.put_cases k e <;>
    rw [h] <;> exact Store.get?_insert_self _ k e

/-- A write brings no entry but its own into the tier. -/
theorem stored_of_put {t : Tier K V} {j k : K} {d e : Entry V} (hj : j ≠ k)
    (h : (t.put k e).tier.store.get? j = some d) : t.store.get? j = some d := by
  obtain ⟨order, hput⟩ | ⟨i, c, order, -, -, hput⟩ := t.put_cases k e
  · rw [hput, Store.get?_insert_of_ne _ _ hj] at h
    exact h
  · rw [hput, Store.get?_insert_of_ne _ _ hj] at h
    exact stored_of_erase h

/-! ### What a tier holds unexpired -/

theorem contains_iff (t : Tier K V) (k : K) (now : Int) :
    t.contains k now ↔ ∃ e, t.store.get? k = some e ∧ e.expired t.ttl now = false := by
  rw [contains, Option.isSome_iff_exists]
  simp only [find?, Option.filter_eq_some_iff, Bool.not_eq_true']

theorem Within.contains {t u : Tier K V} (h : t.Within u) {k : K} {now : Int}
    (hk : t.contains k now) : u.contains k now := by
  obtain ⟨e, he, hage⟩ := (t.contains_iff k now).1 hk
  rw [h.ttl] at hage
  exact (u.contains_iff k now).2 ⟨e, h.stored k e he, hage⟩

theorem contains_of_put {t : Tier K V} {j k : K} {e : Entry V} {now : Int} (hj : j ≠ k)
    (h : (t.put k e).tier.contains j now) : t.contains j now := by
  obtain ⟨d, hd, hage⟩ := (contains_iff _ j now).1 h
  rw [(put_alike _ _ _).ttl] at hage
  exact (t.contains_iff j now).2 ⟨d, stored_of_put hj hd, hage⟩

theorem not_contains_remove_self (t : Tier K V) (k : K) (now : Int) :
    (t.remove k).2.contains k now = false := by
  rw [contains, find?, get?_remove_self]
  rfl

theorem contains_of_later {t : Tier K V} {k : K} {now : Int} {time : Nat}
    (h : t.contains k (now + time)) : t.contains k now := by
  obtain ⟨e, he, hage⟩ := (t.contains_iff k _).1 h
  have hnow : now ≤ now + time := Int.le_add_of_nonneg_right (Int.natCast_nonneg time)
  exact (t.contains_iff k now).2 ⟨e, he, Entry.not_expired_earlier hnow hage⟩

end Tier

end TieredCache
