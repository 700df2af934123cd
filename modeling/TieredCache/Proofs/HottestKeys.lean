import TieredCache.Proofs.StoreListing
import TieredCache.SeedBySeed

/-!
# The most frequent keys

A selection of the most frequent keys is cut from the front of a sorted list, so what is left out is
no more frequent than what is taken. The order in which the keys are listed only decides between
equally frequent ones: the frequencies themselves are those of every other order.
-/

namespace TieredCache

namespace Store

variable {K α : Type} [DecidableEq K] (s : Store K α)

theorem nodup_map_fst_listed {keys : List K} (hkeys : keys.Nodup) :
    ((s.listed keys).map Prod.fst).Nodup :=
  hkeys.sublist (map_fst_filterMap_sublist s.get? keys)

theorem listed_perm_entries {keys : List K} (hkeys : keys.Perm s.keys) :
    (s.listed keys).Perm s.entries := by
  have hnodup : (s.listed keys).Nodup :=
    List.Nodup.of_map Prod.fst (s.nodup_map_fst_listed (hkeys.nodup_iff.2 s.nodup_keys))
  rw [List.perm_ext_iff_of_nodup hnodup s.nodup_entries]
  rintro ⟨k, a⟩
  rw [mem_listed_iff, mem_entries_iff, hkeys.mem_iff, mem_keys_iff, contains]
  constructor
  · exact fun h => h.2
  · exact fun h => ⟨by rw [h]; rfl, h⟩

/-- Entries are listed back from their keys. -/
theorem listed_map_fst {entries : List (K × α)} (h : ∀ e ∈ entries, e ∈ s.entries) :
    s.listed (entries.map Prod.fst) = entries := by
  induction entries with
  | nil => rfl
  | cons e entries ih =>
    have he : s.get? e.1 = some e.2 :=
      (s.mem_entries_iff e.1 e.2).1 (h e List.mem_cons_self)
    rw [List.map_cons, listed_cons_of_get? s _ he,
      ih fun d hd => h d (List.mem_cons_of_mem e hd)]

end Store

namespace Tracker

variable {K : Type}

theorem byFrequency_trans (a b c : K × History) (hab : byFrequency a b) (hbc : byFrequency b c) :
    byFrequency a c := by
  simp only [byFrequency, decide_eq_true_eq] at *
  omega

theorem byFrequency_total (a b : K × History) : byFrequency a b || byFrequency b a := by
  simp only [byFrequency, Bool.or_eq_true, decide_eq_true_eq]
  omega

theorem sorted_byFrequency (entries : List (K × History)) :
    (entries.mergeSort byFrequency).Pairwise fun a b => b.2.frequency ≤ a.2.frequency := by
  have hsorted := List.pairwise_mergeSort byFrequency_trans byFrequency_total entries
  simpa only [byFrequency, decide_eq_true_eq] using hsorted

/-- Sorting makes the same of the frequencies, whatever the order was before. -/
theorem frequencies_mergeSort {first second : List (K × History)} (h : first.Perm second) :
    (first.mergeSort byFrequency).map (fun e => e.2.frequency) =
      (second.mergeSort byFrequency).map fun e => e.2.frequency := by
  have hsorted (entries : List (K × History)) :
      ((entries.mergeSort byFrequency).map fun e => e.2.frequency).Pairwise fun a b => b ≤ a :=
    List.pairwise_map.2 (sorted_byFrequency entries)
  have hperm : (first.mergeSort byFrequency).Perm (second.mergeSort byFrequency) :=
    ((List.mergeSort_perm first byFrequency).trans h).trans
      (List.mergeSort_perm second byFrequency).symm
  exact List.Perm.eq_of_pairwise (fun _ _ _ _ hba hab => Nat.le_antisymm hab hba)
    (hsorted first) (hsorted second) (hperm.map _)

section Order

variable [Ord K] [Std.TransOrd K]

theorem listedBefore_trans (a b c : K × History) (hab : listedBefore a b)
    (hbc : listedBefore b c) : listedBefore a c := by
  unfold listedBefore at *
  by_cases heq : a.2.frequency = b.2.frequency
  · rw [if_pos heq] at hab
    by_cases heq' : b.2.frequency = c.2.frequency
    · rw [if_pos heq'] at hbc
      rw [if_pos (heq.trans heq')]
      exact Std.TransCmp.isLE_trans hab hbc
    · rw [if_neg heq'] at hbc
      rw [if_neg (heq ▸ heq'), heq]
      exact hbc
  · rw [if_neg heq, decide_eq_true_eq] at hab
    by_cases heq' : b.2.frequency = c.2.frequency
    · rw [← heq', if_neg heq, decide_eq_true_eq]
      exact hab
    · rw [if_neg heq', decide_eq_true_eq] at hbc
      rw [if_neg (by omega), decide_eq_true_eq]
      omega

theorem listedBefore_total (a b : K × History) : listedBefore a b || listedBefore b a := by
  unfold listedBefore
  by_cases heq : a.2.frequency = b.2.frequency
  · rw [if_pos heq, if_pos heq.symm]
    have hswap : compare b.1 a.1 = (compare a.1 b.1).swap := Std.OrientedCmp.eq_swap
    rw [hswap]
    cases compare a.1 b.1 <;> rfl
  · rw [if_neg heq, if_neg (Ne.symm heq)]
    simp only [Bool.or_eq_true, decide_eq_true_eq]
    omega

omit [Std.TransOrd K] in
theorem byFrequency_of_listedBefore {a b : K × History} (h : listedBefore a b) :
    byFrequency a b := by
  unfold listedBefore at h
  rw [byFrequency, decide_eq_true_eq]
  split at h
  · omega
  · rw [decide_eq_true_eq] at h
    omega

end Order

variable [DecidableEq K] (t : Tracker K) (limit minFrequency window : Nat) (now : Int)

/-- Some keys with their histories are what a search for the most frequent ones has to find: as many
of the qualifying keys as there may be, and no qualifying key that is left out is more frequent than
one of them. -/
structure IsSelection (selected : List (K × History)) : Prop where
  length : selected.length = min limit (t.histories.count fun _ h =>
    minFrequency ≤ h.frequency && h.idle now ≤ window)
  nodup : (selected.map Prod.fst).Nodup
  history : ∀ e ∈ selected, t.get? e.1 = some e.2
  frequent : ∀ e ∈ selected, minFrequency ≤ e.2.frequency
  recent : ∀ e ∈ selected, e.2.idle now ≤ window
  descending : selected.Pairwise fun a b => b.2.frequency ≤ a.2.frequency
  leftOut : ∀ k h, t.get? k = some h → minFrequency ≤ h.frequency → h.idle now ≤ window →
    k ∉ selected.map Prod.fst → ∀ e ∈ selected, h.frequency ≤ e.2.frequency

/-- The hot keys in the order in which they are listed. -/
def hotAlong (keys : List K) : List (K × History) :=
  (t.histories.listed keys).filter fun e => isHot minFrequency window now e.2

theorem hottestAlong_eq (keys : List K) :
    t.hottestAlong keys limit minFrequency window now =
      ((t.hotAlong minFrequency window now keys).mergeSort byFrequency).take limit := rfl

section Keys

variable {t minFrequency window now} {keys : List K} (hkeys : keys.Perm t.histories.keys)
include hkeys

theorem hotAlong_perm : (t.hotAlong minFrequency window now keys).Perm
    (t.histories.entries.filter fun e => isHot minFrequency window now e.2) :=
  (t.histories.listed_perm_entries hkeys).filter _

theorem mem_hotAlong_iff (k : K) (h : History) :
    (k, h) ∈ t.hotAlong minFrequency window now keys ↔
      t.get? k = some h ∧ minFrequency ≤ h.frequency ∧ h.idle now ≤ window := by
  rw [(hotAlong_perm hkeys).mem_iff, List.mem_filter, Store.mem_entries_iff, isHot,
    Bool.and_eq_true, decide_eq_true_eq, decide_eq_true_eq]
  rfl

theorem isSelection_hottestAlong : t.IsSelection limit minFrequency window now
    (t.hottestAlong keys limit minFrequency window now) := by
  rw [hottestAlong_eq]
  generalize hsorted : (t.hotAlong minFrequency window now keys).mergeSort byFrequency = sorted
  have hperm : sorted.Perm (t.hotAlong minFrequency window now keys) :=
    hsorted ▸ List.mergeSort_perm _ _
  have hdescending : sorted.Pairwise fun a b => b.2.frequency ≤ a.2.frequency :=
    hsorted ▸ sorted_byFrequency _
  have hmem (k : K) (h : History) : (k, h) ∈ sorted ↔
      t.get? k = some h ∧ minFrequency ≤ h.frequency ∧ h.idle now ≤ window := by
    rw [hperm.mem_iff, mem_hotAlong_iff hkeys]
  have hnodup : (sorted.map Prod.fst).Nodup := by
    have hlisted := t.histories.nodup_map_fst_listed (hkeys.nodup_iff.2 t.histories.nodup_keys)
    exact (hperm.map Prod.fst).nodup_iff.2 (hlisted.sublist (List.filter_sublist.map Prod.fst))
  constructor
  case length =>
    rw [List.length_take, hperm.length_eq, (hotAlong_perm hkeys).length_eq,
      ← List.countP_eq_length_filter]
    rfl
  case nodup => exact hnodup.sublist ((List.take_sublist limit sorted).map Prod.fst)
  case history => exact fun e he => ((hmem e.1 e.2).1 (List.mem_of_mem_take he)).1
  case frequent => exact fun e he => ((hmem e.1 e.2).1 (List.mem_of_mem_take he)).2.1
  case recent => exact fun e he => ((hmem e.1 e.2).1 (List.mem_of_mem_take he)).2.2
  case descending => exact hdescending.sublist (List.take_sublist limit sorted)
  case leftOut =>
    intro k h hget hfrequent hrecent hout e he
    -- The key comes after the cut, and so after every key that is taken.
    have hdropped : (k, h) ∈ sorted.drop limit := by
      have hin : (k, h) ∈ sorted.take limit ++ sorted.drop limit := by
        rw [List.take_append_drop]
        exact (hmem k h).2 ⟨hget, hfrequent, hrecent⟩
      refine (List.mem_append.1 hin).resolve_left fun htaken => hout ?_
      exact List.mem_map_of_mem htaken
    rw [← List.take_append_drop limit sorted, List.pairwise_append] at hdescending
    exact hdescending.2.2 e he (k, h) hdropped

theorem frequencies_hottestAlong {others : List K} (hothers : others.Perm t.histories.keys) :
    (t.hottestAlong others limit minFrequency window now).map (fun e => e.2.frequency) =
      (t.hottestAlong keys limit minFrequency window now).map fun e => e.2.frequency := by
  have hhot : (t.hotAlong minFrequency window now others).Perm
      (t.hotAlong minFrequency window now keys) :=
    (hotAlong_perm hothers).trans (hotAlong_perm hkeys).symm
  rw [hottestAlong_eq, hottestAlong_eq, List.map_take, List.map_take, frequencies_mergeSort hhot]

end Keys

/-- The listing by keys is the one for an order in which the hot keys come sorted already. -/
theorem exists_hottest_eq_hottestAlong [Ord K] [Std.TransOrd K] :
    ∃ keys, keys.Perm t.histories.keys ∧ t.hottest limit minFrequency window now =
      t.hottestAlong keys limit minFrequency window now := by
  let hot := t.histories.entries.filter fun e => isHot minFrequency window now e.2
  let cool := t.histories.entries.filter fun e => !isHot minFrequency window now e.2
  have hperm : (hot.mergeSort listedBefore ++ cool).Perm t.histories.entries :=
    ((List.mergeSort_perm hot listedBefore).append_right cool).trans
      (List.filter_append_perm _ t.histories.entries)
  refine ⟨(hot.mergeSort listedBefore ++ cool).map Prod.fst, hperm.map Prod.fst, ?_⟩
  have hsorted : (hot.mergeSort listedBefore).Pairwise fun a b => byFrequency a b :=
    (List.pairwise_mergeSort listedBefore_trans listedBefore_total hot).imp
      byFrequency_of_listedBefore
  have hfilter : (hot.mergeSort listedBefore ++ cool).filter
      (fun e => isHot minFrequency window now e.2) = hot.mergeSort listedBefore := by
    have hkept : ∀ e ∈ hot.mergeSort listedBefore, isHot minFrequency window now e.2 := by
      intro e he
      exact (List.mem_filter.1 (List.mem_mergeSort.1 he)).2
    have hdropped : ∀ e ∈ cool, ¬ isHot minFrequency window now e.2 := by
      intro e he
      simpa using (List.mem_filter.1 he).2
    rw [List.filter_append, List.filter_eq_self.2 hkept, List.filter_eq_nil_iff.2 hdropped,
      List.append_nil]
  rw [hottestAlong_eq, hotAlong, Store.listed_map_fst _ fun e he => hperm.mem_iff.1 he, hfilter,
    List.mergeSort_of_pairwise hsorted]
  rfl

/-- A selection of the most frequent keys, in whatever order the tracker lists them: it is one, and
it has the frequencies of that for every other order. The listing by keys is one of them. -/
theorem hottest_selects [Ord K] [Std.TransOrd K] {keys : List K}
    (hkeys : keys.Perm t.histories.keys) :
    let selected := t.hottestAlong keys limit minFrequency window now
    t.IsSelection limit minFrequency window now selected ∧
      (∀ others : List K, others.Perm t.histories.keys →
        (t.hottestAlong others limit minFrequency window now).map (fun e => e.2.frequency) =
          selected.map fun e => e.2.frequency) ∧
      ∃ others, others.Perm t.histories.keys ∧ t.hottest limit minFrequency window now =
        t.hottestAlong others limit minFrequency window now :=
  ⟨isSelection_hottestAlong limit hkeys,
    fun _ hothers => frequencies_hottestAlong limit hkeys hothers,
    exists_hottest_eq_hottestAlong t limit minFrequency window now⟩

/-- Two keys are tied at the cut, and one of them was accessed after the search. The most frequent
key of all was accessed too long before it. -/
def tied : Tracker Nat :=
  ⟨⟨[(1, ⟨2, 5⟩), (2, ⟨3, 9⟩), (3, ⟨2, 20⟩), (4, ⟨1, 10⟩), (5, ⟨7, 0⟩)], by decide⟩⟩

/-- The order decides which of the tied keys is taken, and nothing else. -/
theorem hottest_selects_of_tied :
    tied.hottestAlong [1, 2, 3, 4, 5] 2 2 6 10 = [(2, ⟨3, 9⟩), (1, ⟨2, 5⟩)] ∧
      tied.hottestAlong [5, 4, 3, 2, 1] 2 2 6 10 = [(2, ⟨3, 9⟩), (3, ⟨2, 20⟩)] ∧
      tied.IsSelection 2 2 6 10 (tied.hottestAlong [5, 4, 3, 2, 1] 2 2 6 10) ∧
      (∀ others : List Nat, others.Perm tied.histories.keys →
        (tied.hottestAlong others 2 2 6 10).map (fun e => e.2.frequency) = [3, 2]) ∧
      ∃ others, others.Perm tied.histories.keys ∧
        tied.hottest 2 2 6 10 = tied.hottestAlong others 2 2 6 10 := by
  have hkeys : [5, 4, 3, 2, 1].Perm tied.histories.keys := by decide
  have hforth : tied.hotAlong 2 6 10 [1, 2, 3, 4, 5] =
      [(1, ⟨2, 5⟩), (2, ⟨3, 9⟩), (3, ⟨2, 20⟩)] := by decide
  have hback : tied.hotAlong 2 6 10 [5, 4, 3, 2, 1] =
      [(3, ⟨2, 20⟩), (2, ⟨3, 9⟩), (1, ⟨2, 5⟩)] := by decide
  have hfirst : tied.hottestAlong [1, 2, 3, 4, 5] 2 2 6 10 = [(2, ⟨3, 9⟩), (1, ⟨2, 5⟩)] := by
    rw [hottestAlong_eq, hforth]
    simp [List.mergeSort, byFrequency]
  have hsecond : tied.hottestAlong [5, 4, 3, 2, 1] 2 2 6 10 = [(2, ⟨3, 9⟩), (3, ⟨2, 20⟩)] := by
    rw [hottestAlong_eq, hback]
    simp [List.mergeSort, byFrequency]
  obtain ⟨hselection, hsame, hlisted⟩ := hottest_selects tied 2 2 6 10 hkeys
  refine ⟨hfirst, hsecond, hselection, fun others hothers => ?_, hlisted⟩
  rw [hsame others hothers, hsecond]
  rfl

end Tracker

end TieredCache
