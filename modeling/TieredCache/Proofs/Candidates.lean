import TieredCache.SeedBySeed
import TieredCache.Proofs.SessionRuns

/-!
# Candidates for loading ahead

The search for candidates ends in the middle of a seed, at the end of one or not at all. In each case
it has read a front of the neighbours of all seeds, without those that are resident and those that
have come before, and it has only looked.
-/

namespace TieredCache

theorem nodup_eraseDups {α : Type} [DecidableEq α] (items : List α) : items.eraseDups.Nodup := by
  match items with
  | [] => exact List.nodup_nil
  | a :: rest =>
    rw [List.eraseDups_cons, List.nodup_cons, List.mem_eraseDups]
    refine ⟨fun ha => ?_, nodup_eraseDups _⟩
    simpa using (List.mem_filter.1 ha).2
termination_by items.length
decreasing_by exact Nat.lt_succ_of_le (List.length_filter_le _ _)

namespace Hierarchy

variable {K V : Type} [DecidableEq K] (h : Hierarchy K V) (limit : Nat) (now : Int)

/-- Those of some keys that no tier holds, each once. -/
def absent (keys : List K) : List K :=
  (keys.filter fun k => !h.contains k now).eraseDups

theorem mem_absent_iff (keys : List K) (k : K) :
    k ∈ h.absent now keys ↔ k ∈ keys ∧ h.contains k now = false := by
  rw [absent, List.mem_eraseDups, List.mem_filter, Bool.not_eq_true']

theorem nodup_absent (keys : List K) : (h.absent now keys).Nodup :=
  nodup_eraseDups _

theorem absent_cons_of_contains {k : K} (hk : h.contains k now) (keys : List K) :
    h.absent now (k :: keys) = h.absent now keys := by
  rw [absent, List.filter_cons_of_neg (by simp [hk])]
  rfl

theorem absent_cons_of_not_contains {k : K} (hk : h.contains k now = false) (keys : List K) :
    h.absent now (k :: keys) = k :: h.absent now (keys.filter (· ≠ k)) := by
  rw [absent, List.filter_cons_of_pos (by simp [hk]), List.eraseDups_cons, absent,
    List.filter_filter, List.filter_filter]
  congr 2
  apply List.filter_congr
  intro j _
  rw [Bool.and_comm, beq_eq_decide, decide_not]

theorem collect_of_full {found : List K} (hfull : limit ≤ found.length) (keys : List K) :
    h.collect limit now found keys = found := by
  cases keys with
  | nil => rfl
  | cons k rest => rw [collect, if_pos hfull]

theorem collect_append (found first second : List K) :
    h.collect limit now found (first ++ second) =
      h.collect limit now (h.collect limit now found first) second := by
  induction first generalizing found with
  | nil => rfl
  | cons k rest ih =>
    rw [List.cons_append, collect, collect]
    by_cases hfull : limit ≤ found.length
    · rw [if_pos hfull, if_pos hfull, collect_of_full h limit now hfull]
    · rw [if_neg hfull, if_neg hfull]
      split <;> exact ih _

/-- What is collected are the first of the absent keys that have not been found before. -/
theorem collect_eq {found : List K} (hfound : found.length ≤ limit) (keys : List K) :
    h.collect limit now found keys =
      (found ++ h.absent now (keys.filter (· ∉ found))).take limit := by
  induction keys generalizing found with
  | nil =>
    have hnone : h.absent now (List.filter (· ∉ found) []) = [] := rfl
    rw [hnone, List.append_nil, List.take_of_length_le hfound]
    rfl
  | cons k rest ih =>
    by_cases hfull : limit ≤ found.length
    · rw [collect_of_full h limit now hfull,
        List.take_left' (Nat.le_antisymm hfound hfull)]
    · rw [collect, if_neg hfull]
      by_cases hmem : k ∈ found
      · rw [if_pos (.inr hmem), ih hfound, List.filter_cons_of_neg (by simp [hmem])]
      · rw [List.filter_cons_of_pos (by simp [hmem])]
        cases hresident : h.contains k now with
        | true => rw [if_pos (.inl rfl), ih hfound, absent_cons_of_contains h now hresident]
        | false =>
          have hlength : (found ++ [k]).length ≤ limit := by
            rw [List.length_append, List.length_singleton]
            omega
          have hrest : (rest.filter fun j => j ∉ found ++ [k]) =
              (rest.filter fun j => j ∉ found).filter (· ≠ k) := by
            rw [List.filter_filter]
            apply List.filter_congr
            intro j _
            simp [and_comm]
          rw [if_neg (by simp [hmem]), ih hlength, absent_cons_of_not_contains h now hresident,
            hrest, List.append_assoc, List.singleton_append]

theorem collect_nil (keys : List K) :
    h.collect limit now [] keys = (h.absent now keys).take limit := by
  have hempty : ([] : List K).length ≤ limit := Nat.zero_le limit
  have hall : keys.filter (· ∉ ([] : List K)) = keys := List.filter_eq_self.2 (by simp)
  rw [collect_eq h limit now hempty, hall, List.nil_append]

/-- If there are fewer than there may be, no absent key is missing. -/
theorem mem_collect_of_few {keys : List K}
    (hfew : (h.collect limit now [] keys).length < limit) {k : K} (hk : k ∈ keys)
    (habsent : h.contains k now = false) : k ∈ h.collect limit now [] keys := by
  rw [collect_nil, List.length_take] at hfew
  rw [collect_nil, List.take_of_length_le (by omega)]
  exact (h.mem_absent_iff now keys k).2 ⟨hk, habsent⟩

theorem not_contains_of_mem_collect {keys : List K} {k : K}
    (hk : k ∈ h.collect limit now [] keys) : k ∈ keys ∧ h.contains k now = false := by
  rw [collect_nil] at hk
  exact (h.mem_absent_iff now keys k).1 (List.mem_of_mem_take hk)

theorem nodup_collect (keys : List K) : (h.collect limit now [] keys).Nodup := by
  rw [collect_nil]
  exact (h.nodup_absent now keys).sublist (List.take_sublist _ _)

end Hierarchy

namespace Session

variable {K V : Type} [DecidableEq K] (limit : Nat) (s : Session K V)

/-- The search beside a seed ends early only when it has found enough. -/
theorem gatherBeside_eq (keys found : List K) :
    (gatherBeside limit keys found s).2 = (s.hierarchy.collect limit s.now found keys, s) ∧
      ((gatherBeside limit keys found s).1 →
        limit ≤ (s.hierarchy.collect limit s.now found keys).length) := by
  induction keys generalizing found with
  | nil => exact ⟨rfl, fun h => absurd h Bool.false_ne_true⟩
  | cons k rest ih =>
    by_cases hfull : limit ≤ found.length
    · rw [gatherBeside, if_pos hfull, Hierarchy.collect_of_full _ _ _ hfull]
      exact ⟨rfl, fun _ => hfull⟩
    · rw [gatherBeside, if_neg hfull, Hierarchy.collect, if_neg hfull, step]
      cases hresident : s.hierarchy.contains k s.now with
      | true =>
        rw [if_pos (.inl rfl)]
        exact ih found
      | false =>
        by_cases hmem : k ∈ found
        · rw [if_pos (.inr hmem)]
          simp only [if_pos hmem]
          exact ih found
        · rw [if_neg (by simp [hmem])]
          simp only [if_neg hmem]
          exact ih (found ++ [k])

variable [Adjacent K]

theorem gatherFrom_eq (seeds : List (K × History)) (found : List K) :
    gatherFrom limit seeds found s =
      (s.hierarchy.collect limit s.now found (seeds.flatMap fun e => Adjacent.adjacent e.1), s) := by
  induction seeds generalizing found with
  | nil => rfl
  | cons seed seeds ih =>
    obtain ⟨hanswer, hearly⟩ := gatherBeside_eq limit s (Adjacent.adjacent seed.1) found
    rw [List.flatMap_cons, Hierarchy.collect_append, gatherFrom]
    generalize hbeside : gatherBeside limit (Adjacent.adjacent seed.1) found s = beside at *
    obtain ⟨early, rest⟩ := beside
    obtain rfl : rest = _ := hanswer
    cases early with
    | true => rw [Hierarchy.collect_of_full _ _ _ (hearly rfl)]
    | false => exact ih _

/-- Whatever the seeds are, the candidates are the first of their neighbours that no tier holds, each
once. If they are fewer than there may be, no such neighbour is missing. To find them changes
nothing, and the candidates of a hierarchy are those beside its hottest keys. -/
theorem candidates_first_absent (settings : PrefetchSettings) (seeds : List (K × History)) :
    let limit := settings.maxLoadsPerPass
    let neighbours := seeds.flatMap fun e => Adjacent.adjacent e.1
    let gathered := s.gather limit seeds
    gathered.1 = (s.hierarchy.absent s.now neighbours).take limit ∧
      gathered.1.Nodup ∧ gathered.1.length ≤ limit ∧
      (∀ k ∈ gathered.1, (∃ e ∈ seeds, k ∈ Adjacent.adjacent e.1) ∧
        ∀ l, (s.hierarchy.tier l).contains k s.now = false) ∧
      (gathered.1.length < limit → ∀ e ∈ seeds, ∀ k ∈ Adjacent.adjacent e.1,
        (∀ l, (s.hierarchy.tier l).contains k s.now = false) → k ∈ gathered.1) ∧
      gathered.2 = s ∧
      ∀ [Ord K], s.hierarchy.candidates settings s.now =
        (s.gather limit (s.hierarchy.tracker.hottest settings.maxHotKeys settings.minFrequency
          settings.hotWindow s.now)).1 := by
  intro limit neighbours gathered
  have hgathered : gathered = (s.hierarchy.collect limit s.now [] neighbours, s) :=
    gatherFrom_eq limit s seeds []
  rw [hgathered]
  refine ⟨s.hierarchy.collect_nil limit s.now neighbours,
    s.hierarchy.nodup_collect limit s.now neighbours, ?_, ?_, ?_, rfl, ?_⟩
  · simp only [s.hierarchy.collect_nil limit s.now]
    exact List.length_take_le _ _
  · intro k hk
    obtain ⟨hneighbour, habsent⟩ := s.hierarchy.not_contains_of_mem_collect limit s.now hk
    exact ⟨List.mem_flatMap.1 hneighbour, (s.hierarchy.not_contains_iff k s.now).1 habsent⟩
  · intro hfew e he k hk hnowhere
    exact s.hierarchy.mem_collect_of_few limit s.now hfew (List.mem_flatMap.2 ⟨e, he, hk⟩)
      ((s.hierarchy.not_contains_iff k s.now).2 hnowhere)
  · exact (congrArg Prod.fst (gatherFrom_eq limit s _ [])).symm

/-- A configuration whose coldest tier has room for what is loaded ahead. -/
def spacious : Config where
  tiers := ⟨.fixed 1 5, .fixed 1 10, .fixed 8 20⟩
  migration := { hotMinFrequency := 0 }

def spaciousStart : Session Cell Nat :=
  start (.fresh spacious (fun _ => 0) ⟨⟨1, Nat.one_pos⟩, ⟨1, Nat.one_pos⟩, ⟨8, by decide⟩⟩)
    spacious.autoTune 0

def twoSeedsRun : List (Operation Cell Nat) :=
  [.putSpeculative ⟨-1, 0⟩ 0, .advance 21, .put ⟨0, 0⟩ 10, .get ⟨0, 0⟩, .put ⟨1, 1⟩ 20,
    .putSpeculative ⟨0, 1⟩ 30]

/-- Two cells that have two neighbours in common were written. One of these is resident, and so was
another neighbour until its entry expired. -/
def twoSeeds : Session Cell Nat :=
  (spaciousStart.run twoSeedsRun).2

def twoSeedsSearch : PrefetchSettings where
  minFrequency := 1
  hotWindow := 5
  maxHotKeys := 3
  maxLoadsPerPass := 6

theorem hottest_twoSeeds : twoSeeds.hierarchy.tracker.hottest 3 1 5 twoSeeds.now =
    [(⟨0, 0⟩, ⟨2, 21⟩), (⟨1, 1⟩, ⟨1, 21⟩)] := by
  have hentries : twoSeeds.hierarchy.tracker.histories.entries =
      [(⟨1, 1⟩, ⟨1, 21⟩), (⟨0, 0⟩, ⟨2, 21⟩)] := by decide +kernel
  have hnow : twoSeeds.now = 21 := rfl
  rw [Tracker.hottest, hentries, hnow]
  simp [List.mergeSort, Tracker.listedBefore, History.idle, elapsed]

theorem candidates_twoSeeds : twoSeeds.hierarchy.candidates twoSeedsSearch twoSeeds.now =
    [⟨-1, 0⟩, ⟨1, 0⟩, ⟨0, -1⟩, ⟨2, 1⟩, ⟨1, 2⟩] := by
  have hseeds : twoSeeds.hierarchy.tracker.hottest twoSeedsSearch.maxHotKeys
      twoSeedsSearch.minFrequency twoSeedsSearch.hotWindow twoSeeds.now =
      [(⟨0, 0⟩, ⟨2, 21⟩), (⟨1, 1⟩, ⟨1, 21⟩)] := hottest_twoSeeds
  rw [Hierarchy.candidates, hseeds]
  decide +kernel

/-- With four candidates the search ends beside the second seed, and with six there is no other. -/
theorem candidates_first_absent_of_twoSeeds :
    let seeds := [(⟨0, 0⟩, ⟨2, 21⟩), (⟨1, 1⟩, ⟨1, 21⟩)]
    twoSeeds.hierarchy.tracker.hottest 3 1 5 twoSeeds.now = seeds ∧
      (twoSeeds.gather 4 seeds).1 = [⟨-1, 0⟩, ⟨1, 0⟩, ⟨0, -1⟩, ⟨2, 1⟩] ∧
      (twoSeeds.gather 6 seeds).1 = [⟨-1, 0⟩, ⟨1, 0⟩, ⟨0, -1⟩, ⟨2, 1⟩, ⟨1, 2⟩] ∧
      (twoSeeds.gather 6 seeds).2 = twoSeeds ∧
      ∀ e ∈ seeds, ∀ k ∈ Adjacent.adjacent e.1,
        (∀ l, (twoSeeds.hierarchy.tier l).contains k twoSeeds.now = false) →
        k ∈ (twoSeeds.gather 6 seeds).1 := by
  intro seeds
  obtain ⟨-, -, -, -, hcomplete, hsame, -⟩ :=
    candidates_first_absent twoSeeds twoSeedsSearch seeds
  have hgathered : (twoSeeds.gather 6 seeds).1 =
      [⟨-1, 0⟩, ⟨1, 0⟩, ⟨0, -1⟩, ⟨2, 1⟩, ⟨1, 2⟩] := by decide +kernel
  have hfew : (twoSeeds.gather 6 seeds).1.length < 6 := by
    rw [hgathered]
    decide
  exact ⟨hottest_twoSeeds, by decide +kernel, hgathered, hsame, hcomplete hfew⟩

end Session

end TieredCache
