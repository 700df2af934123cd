import TieredCache.Proofs.LastWrite

/-!
# What operations write down

Beside its entries a hierarchy keeps the histories of its keys and counts its lookups. Displaced
entries leave these records alone however far they fall, so what an operation adds to them can be
read off the operation itself. `Hierarchy.get_cases` says it of a lookup, served or not.
-/

namespace TieredCache

theorem Migration.promotion?_hot (m : Migration) (history : History) (now : Int) :
    m.promotion? history .hot now = none := by
  rw [Migration.promotion?]
  simp only [Level.isHotterThan, Level.index, Nat.not_lt_zero, decide_false, Bool.false_eq_true,
    if_false]

/-- The histories of all keys, and the counters that only lookups change. -/
structure Records (K : Type) where
  tracker : Tracker K
  tiers : PerLevel TierCounters
  misses : Nat
  promotions : Nat

namespace Hierarchy

variable {K V : Type}

def records (h : Hierarchy K V) : Records K :=
  ⟨h.tracker, h.counters.tiers, h.counters.misses, h.counters.promotions⟩

theorem records_takeOver (h : Hierarchy K V) (l : Level) (d : Displacement K V) :
    (h.takeOver l d).records = h.records := by
  rw [takeOver_eq]
  rfl

variable [DecidableEq K]

theorem records_placed (h : Hierarchy K V) (l : Level) (k : K) (e : Entry V) :
    (h.placed l k e).records = h.records := by
  rw [placed_eq]
  rfl

theorem records_settleAll (h : Hierarchy K V) (l : Level) (evicted : List (K × Entry V))
    (now : Int) : (h.settleAll l evicted now).records = h.records := by
  refine settleAll_induction (fun h' _ => h'.records = h.records) ?_ ?_ ?_ h l evicted [] rfl
  · intro h' l k e rest _ hh
    exact hh
  · intro h' l k e rest _ hh
    exact hh
  · intro h' l next k e rest _ _ _ hh
    rw [landed]
    exact (records_takeOver _ _ _).trans hh

theorem records_insertAt (h : Hierarchy K V) (l : Level) (k : K) (e : Entry V) (now : Int) :
    (h.insertAt l k e now).records = h.records :=
  (records_settleAll _ _ _ _).trans (records_placed _ _ _ _)

theorem records_resizeTier (h : Hierarchy K V) (l : Level) (capacity : Capacity) (now : Int) :
    (h.resizeTier l capacity now).2.records = h.records :=
  (records_settleAll _ _ _ _).trans (records_takeOver _ _ _)

theorem records_tuneTier (u : Tuner) (h : Hierarchy K V) (l : Level) (now : Int) :
    (u.tuneTier h l now).2.2.records = h.records := by
  rw [Tuner.tuneTier]
  simp only
  split
  · rfl
  · split
    · rfl
    · exact records_resizeTier _ _ _ _

theorem records_tuneTiers (now : Int) (levels : List Level) (u : Tuner) (h : Hierarchy K V) :
    (Tuner.tuneTiers now levels u h).2.2.records = h.records := by
  induction levels generalizing u h with
  | nil => rfl
  | cons l rest ih => exact (ih _ _).trans (records_tuneTier u h l now)

theorem records_put (h : Hierarchy K V) (k : K) (v : V) (now : Int) :
    (h.put k v now).records = { h.records with tracker := (h.tracker.record k now).2 } :=
  records_insertAt _ _ _ _ _

theorem records_putSpeculative (h : Hierarchy K V) (k : K) (v : V) (now : Int) :
    (h.putSpeculative k v now).2.records = h.records := by
  rw [putSpeculative_eq]
  split
  · rfl
  · exact (records_settleAll _ _ _ _).trans (records_takeOver _ _ _)

theorem records_loadAll (h : Hierarchy K V) (load : K → LoadResult V) (keys : List K) (now : Int) :
    (h.loadAll load keys now).2.records = h.records := by
  have hfold : ∀ (keys : List K) (state : PrefetchReport × Hierarchy K V),
      (keys.foldl (loadOne load now) state).2.records = state.2.records := by
    intro keys
    induction keys with
    | nil => exact fun _ => rfl
    | cons k keys ih =>
      intro state
      have hone : (loadOne load now state k).2.records = state.2.records := by
        rw [loadOne]
        split
        · exact records_putSpeculative _ _ _ _
        · rfl
        · rfl
      exact (ih _).trans hone
  exact hfold keys ({}, h)

/-! ### Lookups -/

/-- A key moves up at most once. -/
theorem records_promote (h : Hierarchy K V) (k : K) (source target : Level) (now : Int) :
    ∃ raised ≤ 1, (h.promote k source target now).records =
      { h.records with promotions := h.records.promotions + raised } := by
  rcases h.promote_cases k source target now with ⟨-, hpromote⟩ | ⟨e, -, hcases⟩
  · rw [hpromote]
    exact ⟨0, Nat.zero_le 1, rfl⟩
  · rcases hcases with ⟨-, hpromote⟩ | ⟨-, hpromote⟩
    · rw [hpromote]
      exact ⟨0, Nat.zero_le 1, rfl⟩
    · refine ⟨1, le_rfl, ?_⟩
      rw [hpromote, records_settleAll]
      exact congrArg (fun r : Records K => { r with promotions := r.promotions + 1 })
        (records_placed _ target k e)

/-- A served lookup counts and records an access. Nothing moves up from the hottest tier. -/
theorem records_serve (h : Hierarchy K V) (k : K) (l : Level) (now : Int) :
    ∃ raised ≤ (if l = .hot then 0 else 1), (h.serve k l now).records =
      ⟨(h.tracker.record k now).2, (h.counters.hit l).tiers, h.counters.misses,
        h.counters.promotions + raised⟩ := by
  rw [serve_eq]
  cases htarget : h.config.migration.promotion? (h.tracker.record k now).1 l now with
  | none => exact ⟨0, Nat.zero_le _, rfl⟩
  | some target =>
    have hl : l ≠ .hot := by
      rintro rfl
      rw [Migration.promotion?_hot] at htarget
      exact absurd htarget (by simp)
    rw [if_neg hl]
    exact records_promote _ k l target now

/-- The tier that serves a lookup is the hottest one that holds the key. -/
theorem levelOf?_eq_probe (h : Hierarchy K V) (k : K) (now : Int) :
    h.levelOf? k now = (probe k now Level.all h).1.map Prod.fst := by
  rw [probe_fst Level.all (by decide) k now h h fun _ _ => rfl, levelOf?]
  simp only [Level.all, List.find?_cons, List.find?_nil, List.findSome?_cons, List.findSome?_nil,
    Tier.contains]
  cases (h.tier .hot).find? k now <;> cases (h.tier .warm).find? k now <;>
    cases (h.tier .cold).find? k now <;> rfl

/-- A lookup finds nothing and counts a miss, or some tier serves it. -/
theorem get_cases (h : Hierarchy K V) (k : K) (now : Int) :
    (h.levelOf? k now = none ∧ (h.get k now).1 = none ∧
      (h.get k now).2.records =
        ⟨h.tracker, h.counters.miss.tiers, h.counters.misses + 1, h.counters.promotions⟩) ∨
    ∃ l e, h.levelOf? k now = some l ∧ (h.tier l).find? k now = some e ∧
      (h.get k now).1 = some e.value ∧
      ∃ raised ≤ (if l = .hot then 0 else 1), (h.get k now).2.records =
        ⟨(h.tracker.record k now).2, (h.counters.hit l).tiers, h.counters.misses,
          h.counters.promotions + raised⟩ := by
  have hlevel := h.levelOf?_eq_probe k now
  have hfound := probe_fst Level.all (by decide) k now h h fun _ _ => rfl
  have htracker := congrArg Hierarchy.tracker (probe_snd_eq k now Level.all h)
  have hcounters := congrArg Hierarchy.counters (probe_snd_eq k now Level.all h)
  rw [get_eq]
  cases hprobe : (probe k now Level.all h).1 with
  | none =>
    rw [hprobe] at hlevel
    refine .inl ⟨hlevel, rfl, ?_⟩
    simp only [records, htracker, hcounters]
    rfl
  | some hit =>
    obtain ⟨l, e⟩ := hit
    rw [hprobe] at hlevel hfound
    obtain ⟨m, -, hm⟩ := List.exists_of_findSome?_eq_some hfound.symm
    obtain ⟨d, hd, heq⟩ := Option.map_eq_some_iff.1 hm
    obtain ⟨rfl, rfl⟩ := Prod.mk.inj heq
    have hserve := (probe k now Level.all h).2.records_serve k m now
    rw [htracker, hcounters] at hserve
    exact .inr ⟨m, d, hlevel, hd, rfl, hserve⟩

end Hierarchy

end TieredCache
