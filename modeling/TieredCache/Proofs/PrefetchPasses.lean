import TieredCache.Proofs.Candidates
import TieredCache.Proofs.FinalExpiry
import TieredCache.Proofs.Bookkeeping
import TieredCache.Proofs.SingleResidency

/-!
# Passes of loading ahead

What a load displaces has no colder tier to go to, so a pass does not reach any other tier. No load
makes another key resident, so a key that was absent when the candidates were chosen is so until its
own turn comes, and every value that the source yields is written.
-/

namespace TieredCache

namespace LoadResult

variable {K V : Type}

def value? : LoadResult V → Option V
  | .value v => some v
  | .absent => none
  | .failed => none

def isFailed : LoadResult V → Bool
  | .value _ => false
  | .absent => false
  | .failed => true

/-- The values that a source yields for some keys. -/
def yielded (load : K → LoadResult V) (keys : List K) : List (K × V) :=
  keys.filterMap fun k => (load k).value?.map fun v => (k, v)

theorem yielded_cons_value {load : K → LoadResult V} {k : K} {v : V} (hk : load k = .value v)
    (keys : List K) : yielded load (k :: keys) = (k, v) :: yielded load keys := by
  rw [yielded, List.filterMap_cons, hk]
  rfl

theorem yielded_cons_none {load : K → LoadResult V} {k : K} (hk : (load k).value? = none)
    (keys : List K) : yielded load (k :: keys) = yielded load keys := by
  rw [yielded, List.filterMap_cons, hk]
  rfl

theorem map_fst_yielded {load : K → LoadResult V} {keys : List K}
    (hall : ∀ k ∈ keys, (load k).value?.isSome) : (yielded load keys).map Prod.fst = keys :=
  Store.map_fst_filterMap hall

theorem map_fst_yielded_sublist (load : K → LoadResult V) (keys : List K) :
    ((yielded load keys).map Prod.fst).Sublist keys :=
  Store.map_fst_filterMap_sublist (fun k => (load k).value?) keys

end LoadResult

open LoadResult

namespace Hierarchy

variable {K V : Type} [DecidableEq K] {h : Hierarchy K V} {now : Int}

/-! ### One load -/

/-- Whatever leaves the coldest tier leaves the cache. -/
theorem counters_settleAll_cold (h : Hierarchy K V) (evicted : List (K × Entry V)) (now : Int) :
    (h.settleAll .cold evicted now).counters =
      { h.counters with evictions := h.counters.evictions + evicted.length } := by
  induction evicted generalizing h with
  | nil => rfl
  | cons victim evicted ih =>
    have hrest := ih (h.countEviction.finishMove victim.1)
    rw [List.length_cons, Nat.add_comm evicted.length, ← Nat.add_assoc]
    exact hrest

theorem putSpeculative_accepted {k : K} (hk : h.contains k now = false) (v : V) :
    (h.putSpeculative k v now).1 = true := by
  rw [putSpeculative_eq, if_neg (by simp [hk])]

theorem tier_putSpeculative_of_ne (h : Hierarchy K V) (k : K) (v : V) (now : Int) {l : Level}
    (hl : l ≠ .cold) : (h.putSpeculative k v now).2.tier l = h.tier l := by
  cases hk : h.contains k now with
  | true => rw [putSpeculative_eq, if_pos hk]
  | false =>
    rw [(tier_putSpeculative (putSpeculative_accepted hk v) l).2, tier_loaded, if_neg hl]

theorem counters_putSpeculative {k : K} (hk : h.contains k now = false) (v : V) :
    (h.putSpeculative k v now).2.counters =
      { h.counters with
        prefetched := h.counters.prefetched + 1
        evictions := h.counters.evictions + ((h.tier .cold).put k ⟨v, now⟩).evicted.length } := by
  rw [putSpeculative_eq, if_neg (by simp [hk]), counters_settleAll_cold]
  rw [loaded, takeOver_eq]
  rfl

theorem not_contains_putSpeculative {j k : K} (hj : j ≠ k) (v : V)
    (habsent : h.contains j now = false) :
    (h.putSpeculative k v now).2.contains j now = false := by
  cases hk : h.contains k now with
  | true =>
    rw [putSpeculative_eq, if_pos hk]
    exact habsent
  | false =>
    rw [not_contains_iff] at habsent ⊢
    intro l
    rw [(tier_putSpeculative (putSpeculative_accepted hk v) l).2, tier_loaded]
    split
    · by_contra hput
      rw [Bool.not_eq_false] at hput
      have hbefore := Tier.contains_of_put hj hput
      rw [habsent .cold] at hbefore
      exact absurd hbefore Bool.false_ne_true
    · exact habsent l

/-- The keys whose turn is still to come stay absent. -/
theorem absent_putSpeculative {k : K} {keys : List K} (hnodup : (k :: keys).Nodup)
    (habsent : ∀ j ∈ k :: keys, h.contains j now = false) (v : V) :
    ∀ j ∈ keys, (h.putSpeculative k v now).2.contains j now = false := by
  intro j hj
  have hne : j ≠ k := fun hjk => (List.nodup_cons.1 hnodup).1 (hjk ▸ hj)
  exact not_contains_putSpeculative hne v (habsent j (List.mem_cons_of_mem k hj))

theorem contains_putSpeculative_self (h : Hierarchy K V) (k : K) (v : V) (now : Int) :
    (h.putSpeculative k v now).2.contains k now := by
  cases hk : h.contains k now with
  | true =>
    rw [putSpeculative_eq, if_pos hk]
    exact hk
  | false =>
    refine List.any_eq_true.2 ⟨.cold, Level.mem_all .cold, ?_⟩
    rw [(tier_putSpeculative (putSpeculative_accepted hk v) .cold).2, tier_loaded, if_pos rfl]
    exact (Tier.contains_iff _ k now).2
      ⟨⟨v, now⟩, Tier.get?_put_self _ k _, Entry.not_expired_when_written v _ now⟩

/-- If there is room, the coldest tier takes a value in without giving up another. -/
theorem cold_putSpeculative_of_room {k : K} (hk : h.contains k now = false) (v : V)
    (hroom : (h.tier .cold).recency.length < (h.tier .cold).capacity.value) :
    (h.putSpeculative k v now).2.tier .cold = { h.tier .cold with
      recency := k :: (h.tier .cold).recency.erase k
      store := (h.tier .cold).store.insert k ⟨v, now⟩ } := by
  rw [(tier_putSpeculative (putSpeculative_accepted hk v) .cold).2, tier_loaded, if_pos rfl,
    Tier.put_of_room ⟨v, now⟩ (.inr hroom)]

theorem contains_putSpeculative_of_room {j k : K} (v : V)
    (hroom : (h.tier .cold).recency.length < (h.tier .cold).capacity.value)
    (hheld : h.contains j now) : (h.putSpeculative k v now).2.contains j now := by
  cases hk : h.contains k now with
  | true =>
    rw [putSpeculative_eq, if_pos hk]
    exact hheld
  | false =>
    by_cases hj : j = k
    · rw [hj]
      exact contains_putSpeculative_self h k v now
    · obtain ⟨l, -, hl⟩ := List.any_eq_true.1 hheld
      refine List.any_eq_true.2 ⟨l, Level.mem_all l, ?_⟩
      by_cases hcold : l = .cold
      · subst hcold
        obtain ⟨e, he, hage⟩ := (Tier.contains_iff _ j now).1 hl
        rw [cold_putSpeculative_of_room hk v hroom]
        refine (Tier.contains_iff _ j now).2 ⟨e, ?_, hage⟩
        rw [← he]
        exact Store.get?_insert_of_ne _ _ hj
      · rw [tier_putSpeculative_of_ne h k v now hcold]
        exact hl

/-! ### All loads -/

/-- Writes some values ahead of use, one after the other. -/
def putAllSpeculative (h : Hierarchy K V) (values : List (K × V)) (now : Int) : Hierarchy K V :=
  values.foldl (fun h e => (h.putSpeculative e.1 e.2 now).2) h

theorem tier_putAllSpeculative (h : Hierarchy K V) (values : List (K × V)) (now : Int) {l : Level}
    (hl : l ≠ .cold) : (h.putAllSpeculative values now).tier l = h.tier l := by
  induction values generalizing h with
  | nil => rfl
  | cons e values ih => exact (ih _).trans (tier_putSpeculative_of_ne h e.1 e.2 now hl)

theorem records_putAllSpeculative (h : Hierarchy K V) (values : List (K × V)) (now : Int) :
    (h.putAllSpeculative values now).records = h.records := by
  induction values generalizing h with
  | nil => rfl
  | cons e values ih => exact (ih _).trans (records_putSpeculative h e.1 e.2 now)

/-- Values for different keys that are absent are all written. -/
theorem counters_putAllSpeculative {values : List (K × V)} (hnodup : (values.map Prod.fst).Nodup)
    (habsent : ∀ k ∈ values.map Prod.fst, h.contains k now = false) :
    (h.putAllSpeculative values now).counters =
      { h.counters with
        prefetched := h.counters.prefetched + values.length
        evictions := (h.putAllSpeculative values now).counters.evictions } := by
  induction values generalizing h with
  | nil => rfl
  | cons e values ih =>
    obtain ⟨k, v⟩ := e
    have hk := habsent k List.mem_cons_self
    have hcounters := ih (h := (h.putSpeculative k v now).2) (List.nodup_cons.1 hnodup).2
      (absent_putSpeculative hnodup habsent v)
    rw [counters_putSpeculative hk v] at hcounters
    rw [List.length_cons, Nat.add_comm values.length, ← Nat.add_assoc]
    exact hcounters

/-- If there is room for all of them, every key that is held or is to be written is held in the
end. -/
theorem contains_putAllSpeculative (values : List (K × V))
    (hroom : (h.tier .cold).recency.length + values.length ≤ (h.tier .cold).capacity.value) {j : K}
    (hj : h.contains j now ∨ j ∈ values.map Prod.fst) :
    (h.putAllSpeculative values now).contains j now := by
  induction values generalizing h with
  | nil => exact hj.resolve_right (by simp)
  | cons e values ih =>
    obtain ⟨k, v⟩ := e
    rw [List.length_cons] at hroom
    have hfirst : (h.tier .cold).recency.length < (h.tier .cold).capacity.value := by omega
    apply ih (h := (h.putSpeculative k v now).2)
    · cases hk : h.contains k now with
      | true =>
        rw [putSpeculative_eq, if_pos hk]
        simp only
        omega
      | false =>
        have herase := List.length_erase_le (a := k) (l := (h.tier .cold).recency)
        rw [cold_putSpeculative_of_room hk v hfirst]
        simp only [List.length_cons]
        omega
    · rcases hj with hheld | hmem
      · exact .inl (contains_putSpeculative_of_room v hfirst hheld)
      · rw [List.map_cons, List.mem_cons] at hmem
        rcases hmem with rfl | hmem
        · exact .inl (contains_putSpeculative_self h j v now)
        · exact .inr hmem

section Loads

variable (load : K → LoadResult V) {keys : List K} (hnodup : keys.Nodup)
  (habsent : ∀ k ∈ keys, h.contains k now = false)
include hnodup habsent

/-- Each key is absent when its turn comes. -/
theorem foldl_loadOne (report : PrefetchReport) :
    keys.foldl (loadOne load now) (report, h) =
      ({ requested := report.requested + keys.length
         inserted := report.inserted + (yielded load keys).length
         failed := report.failed + keys.countP fun k => (load k).isFailed },
        h.putAllSpeculative (yielded load keys) now) := by
  induction keys generalizing h report with
  | nil => rfl
  | cons k keys ih =>
    have hrest := (List.nodup_cons.1 hnodup).2
    have hk := habsent k List.mem_cons_self
    have hothers := fun j hj => habsent j (List.mem_cons_of_mem k hj)
    rw [List.foldl_cons, loadOne]
    cases hload : load k with
    | value v =>
      have hlater := absent_putSpeculative hnodup habsent v
      simp only [putSpeculative_accepted hk v, if_true]
      rw [ih hrest hlater, yielded_cons_value hload, List.length_cons, List.length_cons,
        List.countP_cons_of_neg (by simp [hload, isFailed])]
      simp only [Nat.add_assoc, Nat.add_comm 1]
      rfl
    | absent =>
      simp only
      rw [ih hrest hothers, yielded_cons_none (by rw [hload]; rfl), List.length_cons,
        List.countP_cons_of_neg (by simp [hload, isFailed])]
      simp only [Nat.add_assoc, Nat.add_comm 1]
    | failed =>
      simp only
      rw [ih hrest hothers, yielded_cons_none (by rw [hload]; rfl), List.length_cons,
        List.countP_cons_of_pos (by simp [hload, isFailed])]
      simp only [Nat.add_assoc, Nat.add_comm 1]

end Loads

section Pass

variable [Ord K] [Adjacent K] (settings : PrefetchSettings)

theorem nodup_candidates (h : Hierarchy K V) (now : Int) : (h.candidates settings now).Nodup :=
  h.nodup_collect _ now _

theorem absent_candidates (h : Hierarchy K V) (now : Int) :
    ∀ k ∈ h.candidates settings now, h.contains k now = false :=
  fun _ hk => (h.not_contains_of_mem_collect _ now hk).2

theorem prefetch_eq (h : Hierarchy K V) (load : K → LoadResult V) (now : Int) :
    let found := h.candidates settings now
    h.prefetch settings load now =
      ({ requested := found.length
         inserted := (yielded load found).length
         failed := found.countP fun k => (load k).isFailed },
        h.putAllSpeculative (yielded load found) now) := by
  intro found
  have hfold := foldl_loadOne load (h.nodup_candidates settings now)
    (h.absent_candidates settings now) {}
  simp only [Nat.zero_add] at hfold
  exact hfold

/-- A search that comes to an end finds all there is. With the same histories, and all that held
before the search or found by it held, there is nothing left. -/
theorem candidates_eq_nil {h' : Hierarchy K V} (htracker : h'.tracker = h.tracker)
    (hfew : (h.candidates settings now).length < settings.maxLoadsPerPass)
    (hheld : ∀ k, h.contains k now ∨ k ∈ h.candidates settings now → h'.contains k now) :
    h'.candidates settings now = [] := by
  apply List.eq_nil_iff_forall_not_mem.2
  intro k hk
  obtain ⟨hneighbour, hnowhere⟩ := not_contains_of_mem_collect _ _ _ hk
  -- The seeds of the two searches are the same.
  rw [htracker] at hneighbour
  have hbefore : h.contains k now ∨ k ∈ h.candidates settings now := by
    cases hresident : h.contains k now with
    | true => exact .inl rfl
    | false => exact .inr (h.mem_collect_of_few _ _ hfew hneighbour hresident)
  rw [hheld k hbefore] at hnowhere
  exact absurd hnowhere (by simp)

end Pass

end Hierarchy

namespace Session

variable {K V : Type} [DecidableEq K] [Ord K] [Adjacent K]

/-- At one instant of any run, a pass writes what the source yields for the candidates, all of it and
nothing else. Neither an absent value nor a failure matters for the other keys. No tier but the
coldest changes, no history does, and of the counters only those of loads and evictions. If all
candidates were found, and the coldest tier has room for them and a value for each, there are none
left. -/
theorem prefetch_fills_cold_only {config : Config} {stripe : K → Nat} (s : Session K V)
    (hnew : Hierarchy.new config stripe = .ok s.hierarchy) (ops : List (Operation K V))
    (settings : PrefetchSettings) (load : K → LoadResult V) :
    let t := (s.run ops).2
    let h := t.hierarchy
    let found := h.candidates settings t.now
    let pass := h.prefetch settings load t.now
    (∀ l, l ≠ .cold → pass.2.tier l = h.tier l) ∧
      pass.2.tracker = h.tracker ∧
      pass.2.counters = { h.counters with
        prefetched := h.counters.prefetched + pass.1.inserted
        evictions := pass.2.counters.evictions } ∧
      pass.1 = {
        requested := found.length
        inserted := (yielded load found).length
        failed := found.countP fun k => (load k).isFailed } ∧
      pass.2 = h.putAllSpeculative (yielded load found) t.now ∧
      ((∀ k ∈ found, (load k).value?.isSome) → found.length < settings.maxLoadsPerPass →
        (h.tier .cold).size + found.length ≤ (h.tier .cold).capacity.value →
        pass.2.candidates settings t.now = []) := by
  intro t h found pass
  have hsublist := map_fst_yielded_sublist load found
  have htracker : (h.putAllSpeculative (yielded load found) t.now).tracker = h.tracker :=
    congrArg Records.tracker (h.records_putAllSpeculative _ t.now)
  rw [show pass = _ from h.prefetch_eq settings load t.now]
  refine ⟨fun l hl => h.tier_putAllSpeculative _ t.now hl, htracker, ?_, rfl, rfl, ?_⟩
  · exact Hierarchy.counters_putAllSpeculative
      ((h.nodup_candidates settings t.now).sublist hsublist)
      fun k hk => h.absent_candidates settings t.now k (hsublist.subset hk)
  · intro hall hfew hroom
    have hkeys : (yielded load found).map Prod.fst = found := map_fst_yielded hall
    have hlength : (yielded load found).length = found.length := by
      rw [← List.length_map, hkeys]
    have hindexed : (h.tier .cold).Indexed := ((sound_run hnew ops).consistent .cold).indexed
    rw [← hindexed.length_recency, ← hlength] at hroom
    apply Hierarchy.candidates_eq_nil settings htracker hfew
    intro k hk
    apply Hierarchy.contains_putAllSpeculative (yielded load found) hroom
    rw [hkeys]
    exact hk

theorem new_spacious : Hierarchy.new spacious (fun _ => 0) = .ok spaciousStart.hierarchy := rfl

/-- A source that knows nothing of one row and fails for one column. -/
def partialSource (k : Cell) : LoadResult Nat :=
  if k.x = 1 then .failed else if k.y = -1 then .absent else .value 7

theorem prefetch_fills_cold_only_of_twoSeeds :
    let h := twoSeeds.hierarchy
    let pass := fun load => h.prefetch twoSeedsSearch load twoSeeds.now
    Hierarchy.new spacious (fun _ => 0) = .ok spaciousStart.hierarchy ∧
      (pass partialSource).1 = { requested := 5, inserted := 2, failed := 2 } ∧
      (pass partialSource).2 = h.putAllSpeculative [(⟨-1, 0⟩, 7), (⟨2, 1⟩, 7)] twoSeeds.now ∧
      (pass fun _ => .value 7).2.candidates twoSeedsSearch twoSeeds.now = [] := by
  intro h pass
  obtain ⟨-, -, -, hreport, hwritten, -⟩ := prefetch_fills_cold_only spaciousStart new_spacious
    twoSeedsRun twoSeedsSearch partialSource
  obtain ⟨-, -, -, -, -, hnone⟩ := prefetch_fills_cold_only spaciousStart new_spacious
    twoSeedsRun twoSeedsSearch fun _ => .value 7
  have hfound : (spaciousStart.run twoSeedsRun).2.hierarchy.candidates twoSeedsSearch
      (spaciousStart.run twoSeedsRun).2.now = [⟨-1, 0⟩, ⟨1, 0⟩, ⟨0, -1⟩, ⟨2, 1⟩, ⟨1, 2⟩] :=
    candidates_twoSeeds
  rw [hfound] at hreport hwritten hnone
  refine ⟨new_spacious, hreport.trans (by decide), ?_, ?_⟩
  · exact hwritten
  · exact hnone (fun _ _ => rfl) (by decide) (by decide +kernel)

end Session

end TieredCache
