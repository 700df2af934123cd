import Mathlib.Data.List.Nodup
import Mathlib.Data.List.Perm.Basic
import TieredCache.Store

/-!
# Stores read along a list of keys

A store has no order of its own. `Store.listed` reads its entries along a given list of keys, which
is how a tier's store and its recency order become one list.
-/

namespace TieredCache.Store

variable {K α : Type}

theorem length_keys (s : Store K α) : s.keys.length = s.size := by
  rw [keys, size, List.length_map]

theorem nodup_entries (s : Store K α) : s.entries.Nodup :=
  List.Nodup.of_map _ s.nodup_keys

theorem map_fst_filterMap_sublist (f : K → Option α) (keys : List K) :
    ((keys.filterMap fun k => (f k).map fun a => (k, a)).map Prod.fst).Sublist keys := by
  induction keys with
  | nil => exact List.Sublist.refl _
  | cons k keys ih =>
    rw [List.filterMap_cons]
    cases f k with
    | none => exact ih.cons k
    | some a => exact ih.cons_cons k

theorem map_fst_filterMap {f : K → Option α} {keys : List K} (h : ∀ k ∈ keys, (f k).isSome) :
    (keys.filterMap fun k => (f k).map fun a => (k, a)).map Prod.fst = keys := by
  induction keys with
  | nil => rfl
  | cons k keys ih =>
    obtain ⟨a, ha⟩ := Option.isSome_iff_exists.1 (h k List.mem_cons_self)
    rw [List.filterMap_cons, ha]
    exact congrArg (k :: ·) (ih fun j hj => h j (List.mem_cons_of_mem k hj))

variable [DecidableEq K]

/-- The entries of some keys, in the order of the keys. Keys that are not stored are left out. -/
def listed (s : Store K α) (keys : List K) : List (K × α) :=
  keys.filterMap fun k => (s.get? k).map fun a => (k, a)

theorem get?_erase (s : Store K α) (j k : K) :
    (s.erase k).get? j = if j = k then none else s.get? j := by
  by_cases h : j = k
  · subst h
    rw [get?_erase_self, if_pos rfl]
  · rw [get?_erase_of_ne s h, if_neg h]

theorem mem_entries_iff (s : Store K α) (k : K) (a : α) :
    (k, a) ∈ s.entries ↔ s.get? k = some a := by
  obtain ⟨entries, hnodup⟩ := s
  simp only [get?]
  induction entries with
  | nil => simp
  | cons e es ih =>
    obtain ⟨j, b⟩ := e
    rw [List.map_cons, List.nodup_cons] at hnodup
    have ih := ih hnodup.2
    by_cases hj : j = k
    · subst hj
      have habsent : (j, a) ∉ es := fun h => hnodup.1 (List.mem_map.2 ⟨_, h, rfl⟩)
      simp [habsent, eq_comm]
    · have hk : ¬k = j := fun h => hj h.symm
      simpa [List.find?_cons, hj, hk] using ih

theorem mem_keys_iff (s : Store K α) (k : K) : k ∈ s.keys ↔ s.contains k := by
  rw [contains, Option.isSome_iff_exists]
  constructor
  · intro h
    obtain ⟨⟨j, a⟩, he, rfl⟩ := List.mem_map.1 h
    exact ⟨a, (mem_entries_iff s j a).1 he⟩
  · rintro ⟨a, ha⟩
    exact List.mem_map.2 ⟨(k, a), (mem_entries_iff s k a).2 ha, rfl⟩

theorem keys_filter (s : Store K α) (p : K → α → Bool) :
    (s.filter p).keys = s.keys.filter fun k => (s.get? k).any (p k) := by
  have hget : ∀ e ∈ s.entries, s.get? e.1 = some e.2 := fun e he => (mem_entries_iff s e.1 e.2).1 he
  rw [keys, keys, filter, List.filter_map]
  congr 1
  apply List.filter_congr
  intro e he
  simp [hget e he]

theorem keys_erase (s : Store K α) (k : K) : (s.erase k).keys = s.keys.erase k := by
  have hnodup : s.keys.Nodup := s.nodup_keys
  rw [erase, keys_filter, hnodup.erase_eq_filter]
  apply List.filter_congr
  intro j hj
  obtain ⟨a, ha⟩ := Option.isSome_iff_exists.1 ((mem_keys_iff s j).1 hj)
  simp [ha, bne, beq_eq_decide]

theorem keys_insert (s : Store K α) (k : K) (a : α) :
    (s.insert k a).keys = k :: (s.erase k).keys := rfl

/-- A stored entry stands beside those that are left without it. -/
theorem entries_perm_erase (s : Store K α) {k : K} {a : α} (h : s.get? k = some a) :
    s.entries.Perm ((k, a) :: (s.erase k).entries) := by
  have hleft : ((k, a) :: (s.erase k).entries).Nodup := by
    refine List.nodup_cons.2 ⟨fun hmem => ?_, nodup_entries _⟩
    rw [mem_entries_iff, get?_erase_self] at hmem
    exact absurd hmem (by simp)
  rw [List.perm_ext_iff_of_nodup s.nodup_entries hleft]
  rintro ⟨j, b⟩
  rw [List.mem_cons, mem_entries_iff, mem_entries_iff, get?_erase]
  by_cases hj : j = k
  · subst hj
    simp [h, eq_comm]
  · simp [hj]

theorem erase_of_get?_eq_none (s : Store K α) {k : K} (h : s.get? k = none) :
    (s.erase k).entries = s.entries := by
  apply List.filter_eq_self.2
  rintro ⟨j, a⟩ he
  have hj : s.get? j = some a := (mem_entries_iff s j a).1 he
  have hne : j ≠ k := by
    rintro rfl
    rw [h] at hj
    exact absurd hj (by simp)
  simp [hne]

theorem listed_cons_of_get? (s : Store K α) {k : K} {a : α} (keys : List K)
    (h : s.get? k = some a) : s.listed (k :: keys) = (k, a) :: s.listed keys := by
  simp [listed, h]

theorem listed_append (s : Store K α) (front back : List K) :
    s.listed (front ++ back) = s.listed front ++ s.listed back :=
  List.filterMap_append

theorem mem_listed_iff (s : Store K α) (keys : List K) (k : K) (a : α) :
    (k, a) ∈ s.listed keys ↔ k ∈ keys ∧ s.get? k = some a := by
  rw [listed, List.mem_filterMap]
  constructor
  · rintro ⟨j, hj, he⟩
    obtain ⟨b, hb, he⟩ := Option.map_eq_some_iff.1 he
    obtain ⟨rfl, rfl⟩ := Prod.mk.inj he
    exact ⟨hj, hb⟩
  · rintro ⟨hk, ha⟩
    exact ⟨k, hk, by rw [ha]; rfl⟩

theorem map_fst_listed (s : Store K α) (keys : List K) (h : ∀ k ∈ keys, s.contains k) :
    (s.listed keys).map Prod.fst = keys :=
  map_fst_filterMap h

theorem listed_congr (s t : Store K α) (keys : List K) (h : ∀ k ∈ keys, s.get? k = t.get? k) :
    s.listed keys = t.listed keys := by
  apply List.filterMap_congr
  intro k hk
  rw [h k hk]

/-- Listing along the other keys leaves out the entry of a key. -/
theorem listed_filter (s : Store K α) (keys : List K) (k : K) :
    s.listed (keys.filter (· ≠ k)) = (s.listed keys).filter fun p => p.1 ≠ k := by
  rw [listed, listed, List.filterMap_filter, List.filter_filterMap]
  apply List.filterMap_congr
  intro j _
  by_cases hj : j = k
  · subst hj
    cases s.get? j <;> simp [Option.filter]
  · cases s.get? j <;> simp [Option.filter, hj]

theorem listed_filter_filter (s : Store K α) (keys : List K) {p : K → α → Bool} {q : K → Bool}
    (hq : ∀ k a, s.get? k = some a → q k = p k a) :
    (s.filter p).listed (keys.filter q) = (s.listed keys).filter fun e => p e.1 e.2 := by
  unfold listed
  rw [List.filterMap_filter, List.filter_filterMap]
  apply List.filterMap_congr
  intro k _
  rw [get?_filter]
  cases hk : s.get? k with
  | none => simp
  | some a =>
    have hqk := hq k a hk
    cases hp : p k a <;> simp [hqk, hp, Option.filter]

theorem listed_erase_of_not_mem (s : Store K α) {keys : List K} {k : K} (hk : k ∉ keys) :
    (s.erase k).listed keys = s.listed keys := by
  apply listed_congr
  intro j hj
  exact get?_erase_of_ne s fun h => hk (h ▸ hj)

theorem listed_insert_of_not_mem (s : Store K α) {keys : List K} {k : K} (a : α) (hk : k ∉ keys) :
    (s.insert k a).listed (k :: keys) = (k, a) :: s.listed keys := by
  rw [listed_cons_of_get? _ _ (get?_insert_self s k a)]
  congr 1
  apply listed_congr
  intro j hj
  exact get?_insert_of_ne s a fun h => hk (h ▸ hj)

end TieredCache.Store
