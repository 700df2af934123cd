import TieredCache.Proofs.TierSteps

/-!
# A tier as one list

Read along its recency order, the store of a tier becomes one list of entries, the most recently
touched first. Every operation has its counterpart on this list.
-/

namespace TieredCache.Tier

variable {K V : Type} [DecidableEq K]

/-- The stored entries with their keys, most recently touched first. -/
def ordered (t : Tier K V) : List (K × Entry V) :=
  t.store.listed t.recency

variable {t : Tier K V}

theorem Indexed.map_fst_ordered (h : t.Indexed) : t.ordered.map Prod.fst = t.recency :=
  Store.map_fst_listed _ _ fun k hk => (h.mem_recency_iff k).1 hk

theorem Indexed.length_ordered (h : t.Indexed) : t.ordered.length = t.recency.length := by
  rw [← h.map_fst_ordered, List.length_map]

theorem Indexed.mem_ordered_iff (h : t.Indexed) (k : K) (e : Entry V) :
    (k, e) ∈ t.ordered ↔ t.store.get? k = some e := by
  rw [ordered, Store.mem_listed_iff, h.mem_recency_iff, Store.contains]
  constructor
  · exact fun hk => hk.2
  · exact fun hk => ⟨by rw [hk]; rfl, hk⟩

theorem erase_recency (h : t.recency.Nodup) (k : K) :
    t.recency.erase k = t.recency.filter (· ≠ k) := by
  rw [h.erase_eq_filter]
  apply List.filter_congr
  intro j _
  simp [bne, beq_eq_decide]

/-- Without a key that is not stored the list is the same. -/
theorem Indexed.filter_ordered (h : t.Indexed) {k : K} (hk : t.store.get? k = none) :
    (t.ordered.filter fun p => p.1 ≠ k) = t.ordered := by
  apply List.filter_eq_self.2
  rintro ⟨j, e⟩ he
  have hj : t.store.get? j = some e := (h.mem_ordered_iff j e).1 he
  have hne : j ≠ k := by
    rintro rfl
    rw [hk] at hj
    exact absurd hj (by simp)
  exact decide_eq_true hne

theorem Indexed.ordered_discard (h : t.Indexed) (k : K) :
    (t.discard k).ordered = t.ordered.filter fun p => p.1 ≠ k := by
  have hk : k ∉ t.recency.filter (· ≠ k) := by simp
  simp only [ordered, Tier.discard, erase_recency h.nodup]
  rw [Store.listed_erase_of_not_mem _ hk, Store.listed_filter]

theorem Indexed.ordered_remove (h : t.Indexed) (k : K) :
    (t.remove k).2.ordered = t.ordered.filter fun p => p.1 ≠ k := by
  rw [Tier.remove]
  split
  · rename_i hk
    exact (h.filter_ordered hk).symm
  · exact h.ordered_discard k

theorem Indexed.ordered_touch (h : t.Indexed) {k : K} {e : Entry V}
    (he : t.store.get? k = some e) :
    (t.touch k).ordered = (k, e) :: t.ordered.filter fun p => p.1 ≠ k := by
  have hk : k ∈ t.recency := by
    rw [h.mem_recency_iff, Store.contains, he]
    rfl
  rw [Tier.touch, if_pos hk]
  simp only [ordered, erase_recency h.nodup]
  rw [Store.listed_cons_of_get? _ _ he, Store.listed_filter]

theorem Consistent.length_ordered_le (h : t.Consistent) :
    t.ordered.length ≤ t.capacity.value := by
  rw [h.indexed.length_ordered]
  exact h.fits

/-- A write puts its entry first and takes out the one it replaces. What no longer fits then is
displaced, from the end. -/
theorem Consistent.ordered_put (h : t.Consistent) (k : K) (e : Entry V) :
    (t.put k e).tier.ordered =
        ((k, e) :: t.ordered.filter fun p => p.1 ≠ k).take t.capacity.value ∧
      (t.put k e).evicted =
        ((k, e) :: t.ordered.filter fun p => p.1 ≠ k).drop t.capacity.value := by
  have hfits := (h.put k e).length_ordered_le
  rw [(put_alike _ _ _).capacity] at hfits
  obtain ⟨-, hput⟩ | ⟨front, j, d, hk, hfull, hrecency, hd, hput⟩ := h.indexed.put_cases k e
  · have hk : k ∉ t.recency.filter (· ≠ k) := by simp
    have hordered : (t.put k e).tier.ordered = (k, e) :: t.ordered.filter fun p => p.1 ≠ k := by
      rw [hput]
      simp only [ordered, erase_recency h.indexed.nodup]
      rw [Store.listed_insert_of_not_mem _ _ hk, Store.listed_filter]
    rw [← hordered, List.take_of_length_le hfits, List.drop_eq_nil_of_le hfits, hput]
    exact ⟨rfl, rfl⟩
  · have hnodup := h.indexed.nodup
    have hnone : t.store.get? k = none := by
      rw [← Option.not_isSome_iff_eq_none]
      exact fun hsome => hk ((h.indexed.mem_recency_iff k).2 hsome)
    rw [hrecency] at hk hnodup
    have hj : j ∉ front := fun hj =>
      (List.disjoint_of_nodup_append hnodup) hj (List.mem_singleton_self j)
    have hkfront : k ∉ front := fun hk' => hk (List.mem_append_left _ hk')
    have hbefore : t.ordered = t.store.listed front ++ [(j, d)] := by
      rw [ordered, hrecency, Store.listed_append, Store.listed_cons_of_get? _ _ hd]
      rfl
    have hafter : (t.put k e).tier.ordered = (k, e) :: t.store.listed front := by
      rw [hput]
      simp only [ordered]
      rw [Store.listed_insert_of_not_mem _ _ hkfront, Store.listed_erase_of_not_mem _ hj]
    have hlength : ((k, e) :: t.store.listed front).length = t.capacity.value := by
      rw [hafter] at hfits
      rw [← h.indexed.length_ordered, hbefore, List.length_append, List.length_singleton] at hfull
      rw [List.length_cons] at hfits ⊢
      omega
    rw [h.indexed.filter_ordered hnone, hbefore, ← List.cons_append, ← hlength,
      List.take_left, List.drop_left, hafter, hput]
    exact ⟨rfl, rfl⟩

theorem Indexed.ordered_perm_entries (h : t.Indexed) : t.ordered.Perm t.store.entries := by
  have hnodup : t.ordered.Nodup := by
    apply List.Nodup.of_map Prod.fst
    rw [h.map_fst_ordered]
    exact h.nodup
  rw [List.perm_ext_iff_of_nodup hnodup t.store.nodup_entries]
  rintro ⟨k, e⟩
  rw [h.mem_ordered_iff, Store.mem_entries_iff]

/-- A sweep takes the expired entries out of the list, and counts them. -/
theorem Indexed.ordered_purge (h : t.Indexed) (now : Int) :
    (t.purge now).2.ordered = (t.ordered.filter fun p => !p.2.expired t.ttl now) ∧
      (t.purge now).1 = t.ordered.countP fun p => p.2.expired t.ttl now := by
  constructor
  · apply Store.listed_filter_filter
    intro k e he
    simp [isExpired, he]
  · exact (h.ordered_perm_entries.countP_eq _).symm

/-- An eviction takes the last entry off the list. -/
theorem Indexed.ordered_evict (h : t.Indexed) :
    t.evict.tier.ordered = t.ordered.dropLast ∧
      t.evict.evicted = t.ordered.getLast?.toList := by
  obtain hnil | ⟨front, k, hrecency⟩ := t.recency.eq_nil_or_concat
  · have hordered : t.ordered = [] := by
      unfold ordered
      rw [hnil]
      rfl
    rw [evict_of_nil hnil, hordered]
    exact ⟨rfl, rfl⟩
  · rw [List.concat_eq_append] at hrecency
    have hnodup := h.nodup
    rw [hrecency] at hnodup
    have hk : k ∉ front := fun hk =>
      (List.disjoint_of_nodup_append hnodup) hk (List.mem_singleton_self k)
    obtain ⟨e, he⟩ := h.exists_of_mem (k := k) (by rw [hrecency]; simp)
    have hordered : t.ordered = t.store.listed front ++ [(k, e)] := by
      rw [ordered, hrecency, Store.listed_append, Store.listed_cons_of_get? _ _ he]
      rfl
    have hleft : t.evict.tier.ordered = t.store.listed front := by
      rw [evict_of_recency hrecency he]
      exact Store.listed_erase_of_not_mem _ hk
    rw [hleft, hordered, List.dropLast_concat, evict_of_recency hrecency he,
      List.getLast?_concat]
    exact ⟨rfl, rfl⟩

/-- What does not fit is given up from the end of the list. -/
theorem Indexed.ordered_evictTo (h : t.Indexed) (bound rounds : Nat)
    (hrounds : t.ordered.length ≤ bound + rounds) :
    (Tier.evictTo bound rounds t).tier.ordered = t.ordered.take bound ∧
      (Tier.evictTo bound rounds t).evicted = (t.ordered.drop bound).reverse := by
  induction rounds generalizing t with
  | zero =>
    rw [Nat.add_zero] at hrounds
    rw [List.take_of_length_le hrounds, List.drop_eq_nil_of_le hrounds]
    exact ⟨rfl, rfl⟩
  | succ rounds ih =>
    rw [Tier.evictTo]
    split
    · rename_i hfits
      rw [← h.length_ordered] at hfits
      rw [List.take_of_length_le hfits, List.drop_eq_nil_of_le hfits]
      exact ⟨rfl, rfl⟩
    · rename_i hover
      rw [← h.length_ordered] at hover
      obtain ⟨htier, hevicted⟩ := h.ordered_evict
      obtain hnil | ⟨front, last, hordered⟩ := t.ordered.eq_nil_or_concat
      · rw [hnil] at hover
        exact absurd (Nat.zero_le bound) hover
      · rw [List.concat_eq_append] at hordered
        rw [hordered, List.length_append, List.length_singleton] at hover hrounds
        rw [hordered, List.dropLast_concat] at htier
        rw [hordered, List.getLast?_concat] at hevicted
        have hbound : bound ≤ front.length := by omega
        obtain ⟨hrest, hothers⟩ := ih h.evict (by rw [htier]; omega)
        rw [hordered, List.take_append_of_le_length hbound, List.drop_append_of_le_length hbound,
          List.reverse_append]
        constructor
        · simp only [hrest, htier]
        · simp only [hothers, htier, hevicted]
          rfl

theorem Indexed.ordered_resize (h : t.Indexed) (capacity : Capacity) :
    (t.resize capacity).tier.ordered = t.ordered.take capacity.value ∧
      (t.resize capacity).evicted = (t.ordered.drop capacity.value).reverse := by
  have hgrown : Tier.Indexed { t with capacity := capacity } := h
  apply hgrown.ordered_evictTo
  rw [hgrown.length_ordered]
  exact Nat.le_add_left _ _

theorem Indexed.find?_ordered (h : t.Indexed) (k : K) :
    (t.ordered.find? fun p => p.1 = k) = (t.store.get? k).map fun e => (k, e) := by
  cases hk : t.store.get? k with
  | none =>
    rw [Option.map_none, List.find?_eq_none]
    rintro ⟨j, e⟩ he
    rw [h.mem_ordered_iff] at he
    rw [decide_eq_true_iff]
    rintro rfl
    rw [hk] at he
    exact absurd he (by simp)
  | some e =>
    have hmem : (k, e) ∈ t.ordered := (h.mem_ordered_iff k e).2 hk
    obtain ⟨⟨j, d⟩, hfind⟩ := Option.isSome_iff_exists.1
      (List.find?_isSome (p := fun p : K × Entry V => decide (p.1 = k)) |>.2 ⟨_, hmem, by simp⟩)
    have hj : j = k := by simpa using List.find?_some hfind
    have hd := (h.mem_ordered_iff j d).1 (List.mem_of_find?_eq_some hfind)
    subst hj
    rw [hk, Option.some_inj] at hd
    rw [hfind, hd]
    rfl

end TieredCache.Tier
