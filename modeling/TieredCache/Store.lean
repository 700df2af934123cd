/-!
# Keyed stores

A store maps keys to values. Its entries are listed in some order, each key once; which order that
is has no meaning, and no answer of the cache depends on it.
-/

namespace TieredCache

/-- A finite map, as a list of entries with pairwise different keys. -/
structure Store (K α : Type) where
  entries : List (K × α)
  nodup_keys : (entries.map Prod.fst).Nodup

namespace Store

variable {K α : Type}

def empty : Store K α := ⟨[], List.nodup_nil⟩

def size (s : Store K α) : Nat := s.entries.length

/-- The keys, in the order of the entries. -/
def keys (s : Store K α) : List K := s.entries.map Prod.fst

def filter (p : K → α → Bool) (s : Store K α) : Store K α where
  entries := s.entries.filter fun e => p e.1 e.2
  nodup_keys := List.Nodup.sublist (List.Sublist.map Prod.fst List.filter_sublist) s.nodup_keys

def count (p : K → α → Bool) (s : Store K α) : Nat :=
  s.entries.countP fun e => p e.1 e.2

variable [DecidableEq K]

def get? (s : Store K α) (k : K) : Option α :=
  (s.entries.find? fun e => e.1 = k).map Prod.snd

def contains (s : Store K α) (k : K) : Bool :=
  (s.get? k).isSome

def erase (s : Store K α) (k : K) : Store K α :=
  s.filter fun j _ => j ≠ k

theorem not_mem_keys_erase (s : Store K α) (k : K) : k ∉ (s.erase k).keys := by
  intro h
  obtain ⟨e, he, hk⟩ := List.mem_map.1 h
  have := (List.mem_filter.1 he).2
  simp [hk] at this

/-- Stores a value, in place of any value the key had before. -/
def insert (s : Store K α) (k : K) (a : α) : Store K α where
  entries := (k, a) :: (s.erase k).entries
  nodup_keys := List.nodup_cons.2 ⟨not_mem_keys_erase s k, (s.erase k).nodup_keys⟩

@[simp] theorem get?_empty (k : K) : (empty : Store K α).get? k = none := rfl

@[simp] theorem get?_insert_self (s : Store K α) (k : K) (a : α) :
    (s.insert k a).get? k = some a := by
  simp [get?, insert]

theorem get?_filter (s : Store K α) (p : K → α → Bool) (k : K) :
    (s.filter p).get? k = (s.get? k).filter (p k) := by
  obtain ⟨entries, h⟩ := s
  simp only [get?, filter]
  induction entries with
  | nil => rfl
  | cons e es ih =>
    obtain ⟨j, a⟩ := e
    simp only [List.map_cons, List.nodup_cons] at h
    have ih := ih h.2
    by_cases hj : j = k
    · subst hj
      have absent : ∀ l : List (K × α), l ⊆ es → l.find? (fun e => decide (e.1 = j)) = none := by
        intro l hl
        simp only [List.find?_eq_none, decide_eq_true_eq]
        intro e he hek
        exact h.1 (List.mem_map.2 ⟨e, hl he, hek⟩)
      cases hp : p j a
      · have := absent (es.filter fun e => p e.1 e.2) List.filter_sublist.subset
        simp only [List.filter_cons, hp, Bool.false_eq_true, if_false, this, List.find?_cons,
          decide_true, Option.map_some, Option.map_none, Option.filter_some]
      · simp only [List.filter_cons, hp, if_true, List.find?_cons, decide_true, Option.map_some,
          Option.filter_some]
    · cases hp : p j a
      · simpa only [List.filter_cons, hp, Bool.false_eq_true, if_false, List.find?_cons, hj,
          decide_false] using ih
      · simpa only [List.filter_cons, hp, if_true, List.find?_cons, hj, decide_false] using ih

@[simp] theorem get?_erase_self (s : Store K α) (k : K) : (s.erase k).get? k = none := by
  rw [erase, get?_filter]
  cases s.get? k <;> simp

theorem get?_erase_of_ne (s : Store K α) {j k : K} (h : j ≠ k) :
    (s.erase k).get? j = s.get? j := by
  rw [erase, get?_filter]
  cases s.get? j <;> simp [h]

theorem get?_insert_of_ne (s : Store K α) {j k : K} (a : α) (h : j ≠ k) :
    (s.insert k a).get? j = s.get? j := by
  rw [← get?_erase_of_ne s h]
  simp [get?, insert, Ne.symm h]

end Store

end TieredCache
