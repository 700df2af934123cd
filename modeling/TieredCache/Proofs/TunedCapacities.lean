import TieredCache.Proofs.LookupFunnel
import TieredCache.Proofs.SingleOrder
import TieredCache.Proofs.ValidConfig

/-!
# Tuned capacities

A pass of the tuner is determined by what each tier's window and capacity call for when it begins,
since resizing one tier leaves the counters and the capacities of the others alone. Nothing but a
pass or a resize changes a capacity, so over every run without direct resizes the capacities stay
within the bounds of the configuration.
-/

namespace TieredCache

/-! ### What leaves capacities alone -/

theorem Tier.capacity_lookup {K V : Type} [DecidableEq K] (t : Tier K V) (k : K) (now : Int) :
    (t.lookup k now).2.capacity = t.capacity := by
  unfold lookup
  split
  · rfl
  · split <;> rfl

namespace Hierarchy

variable {K V : Type}

theorem capacity_setTier {h : Hierarchy K V} {l : Level} {t : Tier K V}
    (ht : t.capacity = (h.tier l).capacity) (m : Level) :
    ((h.setTier l t).tier m).capacity = (h.tier m).capacity := by
  rw [tier_setTier]
  by_cases hm : m = l
  · rw [if_pos hm, ht, hm]
  · rw [if_neg hm]

theorem capacity_takeOver {h : Hierarchy K V} {l : Level} {d : Displacement K V}
    (hd : d.tier.capacity = (h.tier l).capacity) (m : Level) :
    ((h.takeOver l d).tier m).capacity = (h.tier m).capacity := by
  rw [tier_takeOver]
  by_cases hm : m = l
  · rw [if_pos hm, hd, hm]
  · rw [if_neg hm]

variable [DecidableEq K]

theorem capacity_probe (k : K) (now : Int) (levels : List Level) (h : Hierarchy K V) (m : Level) :
    ((probe k now levels h).2.tier m).capacity = (h.tier m).capacity := by
  induction levels generalizing h with
  | nil => rfl
  | cons l colder ih =>
    have hset := capacity_setTier ((h.tier l).capacity_lookup k now) m
    rw [probe]
    cases hfound : (h.tier l).lookup k now with
    | mk found t =>
      rw [hfound] at hset
      cases found with
      | some e => exact hset
      | none => exact (ih _).trans hset

theorem capacity_promote (h : Hierarchy K V) (k : K) (source target : Level) (now : Int)
    (m : Level) : ((h.promote k source target now).tier m).capacity = (h.tier m).capacity := by
  rcases h.promote_cases k source target now with ⟨-, hpromote⟩ | ⟨e, -, hcases⟩
  · rw [hpromote]
    exact capacity_setTier ((h.tier source).capacity_lookup k now) m
  · rcases hcases with ⟨-, hpromote⟩ | ⟨-, hpromote⟩
    · rw [hpromote]
    · rw [hpromote, capacity_settleAll]
      exact capacity_placed h target m k e

theorem capacity_get (h : Hierarchy K V) (k : K) (now : Int) (m : Level) :
    ((h.get k now).2.tier m).capacity = (h.tier m).capacity := by
  have hprobe := capacity_probe k now Level.all h m
  rw [get_eq]
  cases (probe k now Level.all h).1 with
  | none => exact hprobe
  | some hit =>
    have htouch := (((probe k now Level.all h).2.tier hit.1).touch_alike k).capacity
    have hserved : (((probe k now Level.all h).2.served hit.1 k now).tier m).capacity =
        (h.tier m).capacity := (capacity_setTier htouch m).trans hprobe
    simp only [serve_eq]
    split
    · exact hserved
    · exact (capacity_promote _ _ _ _ _ m).trans hserved

theorem capacity_putSpeculative (h : Hierarchy K V) (k : K) (v : V) (now : Int) (m : Level) :
    ((h.putSpeculative k v now).2.tier m).capacity = (h.tier m).capacity := by
  rw [putSpeculative_eq]
  split
  · rfl
  · rw [capacity_settleAll]
    exact capacity_takeOver ((h.tier .cold).put_alike k ⟨v, now⟩).capacity m

theorem capacity_loadAll (h : Hierarchy K V) (load : K → LoadResult V) (keys : List K) (now : Int)
    (m : Level) : ((h.loadAll load keys now).2.tier m).capacity = (h.tier m).capacity := by
  have hfold : ∀ (keys : List K) (state : PrefetchReport × Hierarchy K V),
      ((keys.foldl (loadOne load now) state).2.tier m).capacity = (state.2.tier m).capacity := by
    intro keys
    induction keys with
    | nil => exact fun _ => rfl
    | cons k keys ih =>
      intro state
      have hone : ((loadOne load now state k).2.tier m).capacity = (state.2.tier m).capacity := by
        rw [loadOne]
        split
        · exact capacity_putSpeculative _ _ _ _ m
        · rfl
        · rfl
      exact (ih _).trans hone
  exact hfold keys ({}, h)

/-- A resize settles entries in the other tiers, but it changes the capacity of its own alone. -/
theorem capacity_resizeTier (h : Hierarchy K V) (l : Level) (capacity : Capacity) (now : Int)
    (m : Level) : ((h.resizeTier l capacity now).2.tier m).capacity =
      if m = l then capacity else (h.tier m).capacity := by
  rw [resizeTier]
  simp only
  rw [capacity_settleAll, tier_takeOver]
  by_cases hm : m = l
  · rw [if_pos hm, if_pos hm]
    exact ((h.tier l).resize_alike capacity).capacity
  · rw [if_neg hm, if_neg hm]

theorem capacity_put (h : Hierarchy K V) (k : K) (v : V) (now : Int) (m : Level) :
    ((h.put k v now).tier m).capacity = (h.tier m).capacity :=
  capacity_insertAt (h.recordAccess k now).2 _ m k _ now

theorem config_resizeTier (h : Hierarchy K V) (l : Level) (capacity : Capacity) (now : Int) :
    (h.resizeTier l capacity now).2.config = h.config :=
  (config_keptByWrites now h.config).resizeTier h l capacity rfl

end Hierarchy

/-! ### One pass -/

/-- A change that takes a tier from one capacity to another, by at most one step and as the hit rate
of its window demands. -/
structure CapacityChange.IsStep (c : CapacityChange) (settings : AutoTuneSettings)
    (window : TierCounters) (before after : Nat) : Prop where
  before_eq : c.before = before
  after_eq : c.after = after
  hitRate_eq : c.hitRate = window.hitRate
  ne : c.after ≠ c.before
  le_add : c.after ≤ c.before + Tuner.step settings.stepFraction c.before
  le_add' : c.before ≤ c.after + Tuner.step settings.stepFraction c.before
  grows : c.before < c.after → settings.expandThreshold < c.hitRate
  shrinks : c.after < c.before → c.hitRate < settings.shrinkThreshold

namespace Tuner

variable {K V : Type}

/-- What has been counted of a tier since the last pass. -/
def window (u : Tuner) (h : Hierarchy K V) (l : Level) : TierCounters :=
  (h.counters.tiers.get l).since (u.marks.get l)

/-- The capacity that the window of a tier calls for, if it counts enough lookups. -/
def wanted? (u : Tuner) (h : Hierarchy K V) (l : Level) : Option Nat :=
  let before := (h.tier l).capacity.value
  if (u.window h l).probes < u.settings.minSamples then none
  else target? u.settings (h.config.tiers.get l) (step u.settings.stepFraction before) before
    (u.window h l).hitRate

/-- The change that a pass makes to a tier, if any. -/
def change? (u : Tuner) (h : Hierarchy K V) (l : Level) : Option CapacityChange :=
  (u.wanted? h l).map fun after =>
    ⟨l, (h.tier l).capacity.value, after, (u.window h l).hitRate⟩

theorem one_le_step (fraction : Float) (capacity : Nat) : 1 ≤ step fraction capacity :=
  Nat.le_max_left _ _

/-- A target is at most one step away, towards the bound on its side and not beyond it. -/
theorem target?_cases {s : AutoTuneSettings} {limits : TierLimits} {step capacity after : Nat}
    {hitRate : Float} (hstep : 1 ≤ step)
    (h : target? s limits step capacity hitRate = some after) :
    (s.expandThreshold < hitRate ∧ capacity < after ∧ after ≤ capacity + step ∧
      after ≤ limits.maxCapacity) ∨
    (hitRate < s.shrinkThreshold ∧ after < capacity ∧ capacity ≤ after + step ∧
      limits.minCapacity ≤ after) := by
  unfold target? at h
  split at h
  · rename_i hgrows
    rw [Option.some.injEq] at h
    exact .inl ⟨hgrows.1, by omega, by omega, by omega⟩
  · split at h
    · rename_i hshrinks
      rw [Option.some.injEq] at h
      exact .inr ⟨hshrinks.1, by omega, by omega, by omega⟩
    · exact absurd h (by simp)

theorem wanted?_cases {u : Tuner} {h : Hierarchy K V} {l : Level} {after : Nat}
    (hwanted : u.wanted? h l = some after) :
    let before := (h.tier l).capacity.value
    let step := step u.settings.stepFraction before
    (u.settings.expandThreshold < (u.window h l).hitRate ∧ before < after ∧
      after ≤ before + step ∧ after ≤ (h.config.tiers.get l).maxCapacity) ∨
    ((u.window h l).hitRate < u.settings.shrinkThreshold ∧ after < before ∧
      before ≤ after + step ∧ (h.config.tiers.get l).minCapacity ≤ after) := by
  unfold wanted? at hwanted
  simp only at hwanted
  split at hwanted
  · exact absurd hwanted (by simp)
  · exact target?_cases (one_le_step _ _) hwanted

/-- Enough lookups that call for another capacity are all that a change takes. -/
theorem isSome_wanted?_iff (u : Tuner) (h : Hierarchy K V) (l : Level) :
    (u.wanted? h l).isSome ↔ u.settings.minSamples ≤ (u.window h l).probes ∧
      (target? u.settings (h.config.tiers.get l)
        (step u.settings.stepFraction (h.tier l).capacity.value) (h.tier l).capacity.value
        (u.window h l).hitRate).isSome := by
  unfold wanted?
  by_cases hfew : (u.window h l).probes < u.settings.minSamples
  · simp [hfew, Nat.not_le.2 hfew]
  · simp only [if_neg hfew, Nat.not_lt.1 hfew, true_and]

/-- No target is zero, as long as no tier may be. -/
theorem pos_of_wanted? {u : Tuner} {h : Hierarchy K V} {l : Level} {after : Nat}
    (hmin : 0 < (h.config.tiers.get l).minCapacity) (hwanted : u.wanted? h l = some after) :
    0 < after := by
  rcases wanted?_cases hwanted with ⟨-, hgrows, -⟩ | ⟨-, -, -, hbound⟩
  · exact Nat.zero_lt_of_lt hgrows
  · exact Nat.lt_of_lt_of_le hmin hbound

theorem wanted?_congr {u u' : Tuner} {h h' : Hierarchy K V} {l : Level}
    (hsettings : u'.settings = u.settings) (hconfig : h'.config = h.config)
    (hwindow : u'.window h' l = u.window h l)
    (hcapacity : (h'.tier l).capacity = (h.tier l).capacity) :
    u'.wanted? h' l = u.wanted? h l := by
  unfold wanted?
  rw [hsettings, hconfig, hwindow, hcapacity]

theorem change?_congr {u u' : Tuner} {h h' : Hierarchy K V} {l : Level}
    (hwanted : u'.wanted? h' l = u.wanted? h l) (hwindow : u'.window h' l = u.window h l)
    (hcapacity : (h'.tier l).capacity = (h.tier l).capacity) :
    u'.change? h' l = u.change? h l := by
  unfold change?
  rw [hwanted, hwindow, hcapacity]

variable [DecidableEq K]

/-- A tier whose window calls for nothing is left alone, any other gets what is called for. -/
theorem tuneTier_cases (u : Tuner) (h : Hierarchy K V) (l : Level) (now : Int)
    (hmin : 0 < (h.config.tiers.get l).minCapacity) :
    let u' : Tuner := { u with marks := u.marks.set l (h.counters.tiers.get l) }
    (u.wanted? h l = none ∧ u.tuneTier h l now = (none, u', h)) ∨
    ∃ after : Capacity, u.wanted? h l = some after.value ∧
      u.tuneTier h l now = (u.change? h l, u', (h.resizeTier l after now).2) := by
  intro u'
  by_cases hfew : (u.window h l).probes < u.settings.minSamples
  · refine .inl ⟨if_pos hfew, ?_⟩
    exact if_pos hfew
  · have hwanted : u.wanted? h l = target? u.settings (h.config.tiers.get l)
        (step u.settings.stepFraction (h.tier l).capacity.value) (h.tier l).capacity.value
        (u.window h l).hitRate := if_neg hfew
    rw [window] at hfew hwanted
    simp only [tuneTier, if_neg hfew, ← hwanted]
    cases hafter : u.wanted? h l with
    | none => exact .inl ⟨rfl, rfl⟩
    | some after =>
      have hpos := pos_of_wanted? hmin hafter
      refine .inr ⟨⟨after, hpos⟩, rfl, ?_⟩
      rw [change?, hafter, Option.bind_some, Capacity.ofNat?, dif_pos hpos]
      rfl

theorem window_tuneTier (u : Tuner) (h : Hierarchy K V) {l m : Level} (hm : m ≠ l) (now : Int) :
    (u.tuneTier h l now).2.1.window (u.tuneTier h l now).2.2 m = u.window h m := by
  have hcounted : (u.tuneTier h l now).2.2.counters.tiers = h.counters.tiers :=
    congrArg Records.tiers (Hierarchy.records_tuneTier u h l now)
  rw [window, window, hcounted, marks_tuneTier, PerLevel.get_set_of_ne _ _ hm]

/-- A tier that has been tuned has the capacity that was called for; the others are as before, and
what their windows call for is the same. -/
theorem tuneTier_frame (u : Tuner) (h : Hierarchy K V) (l : Level) (now : Int)
    (hmin : 0 < (h.config.tiers.get l).minCapacity) :
    let h' := (u.tuneTier h l now).2.2
    h'.config = h.config ∧ (u.tuneTier h l now).2.1.settings = u.settings ∧
      (h'.tier l).capacity.value = (u.wanted? h l).getD (h.tier l).capacity.value ∧
      ∀ m, m ≠ l → (h'.tier m).capacity = (h.tier m).capacity := by
  intro h'
  rcases u.tuneTier_cases h l now hmin with ⟨hwanted, htune⟩ | ⟨after, hwanted, htune⟩
  · rw [hwanted]
    dsimp only [h']
    rw [htune]
    exact ⟨rfl, rfl, rfl, fun _ _ => rfl⟩
  · rw [hwanted]
    dsimp only [h']
    rw [htune]
    refine ⟨h.config_resizeTier l after now, rfl, ?_, fun m hm => ?_⟩
    · rw [h.capacity_resizeTier, if_pos rfl]
      rfl
    · rw [h.capacity_resizeTier, if_neg hm]

/-- A pass makes the changes that the windows call for when it begins, one tier after the other. -/
theorem tuneTiers_eq (now : Int) (levels : List Level) (hnodup : levels.Nodup) (u : Tuner)
    (h : Hierarchy K V) (hmin : ∀ l, 0 < (h.config.tiers.get l).minCapacity) :
    let r := tuneTiers now levels u h
    r.1 = levels.filterMap (u.change? h) ∧ r.2.2.config = h.config ∧
      ∀ m, (r.2.2.tier m).capacity.value =
        if m ∈ levels then (u.wanted? h m).getD (h.tier m).capacity.value
        else (h.tier m).capacity.value := by
  induction levels generalizing u h with
  | nil => exact ⟨rfl, rfl, fun m => rfl⟩
  | cons l rest ih =>
    rw [List.nodup_cons] at hnodup
    obtain ⟨hconfig, hsettings, hself, hothers⟩ := u.tuneTier_frame h l now (hmin l)
    have hwindow := fun m hm => u.window_tuneTier h (l := l) (m := m) hm now
    have hwanted := fun m hm => wanted?_congr hsettings hconfig (hwindow m hm) (hothers m hm)
    obtain ⟨hchanges, hconfig', hcapacity⟩ :=
      ih hnodup.2 (u.tuneTier h l now).2.1 (u.tuneTier h l now).2.2 (hconfig ▸ hmin)
    have hone : (u.tuneTier h l now).1 = u.change? h l := by
      rcases u.tuneTier_cases h l now (hmin l) with ⟨hnone, htune⟩ | ⟨after, -, htune⟩
      · rw [htune, change?, hnone]
        rfl
      · rw [htune]
    intro r
    refine ⟨?_, hconfig'.trans hconfig, fun m => ?_⟩
    · have hrest : rest.filterMap ((u.tuneTier h l now).2.1.change? (u.tuneTier h l now).2.2) =
          rest.filterMap (u.change? h) := by
        apply List.filterMap_congr
        intro m hm
        have hne : m ≠ l := fun heq => hnodup.1 (heq ▸ hm)
        exact change?_congr (hwanted m hne) (hwindow m hne) (hothers m hne)
      have hr : r.1 = (u.tuneTier h l now).1.toList ++
          (tuneTiers now rest (u.tuneTier h l now).2.1 (u.tuneTier h l now).2.2).1 := rfl
      rw [hr, hchanges, hrest, hone, List.filterMap_cons]
      cases u.change? h l <;> rfl
    · refine (hcapacity m).trans ?_
      by_cases hm : m = l
      · subst hm
        rw [if_neg hnodup.1, if_pos List.mem_cons_self, hself]
      · rw [hwanted m hm, hothers m hm]
        simp only [List.mem_cons, hm, false_or]

theorem tune_eq (u : Tuner) (h : Hierarchy K V) (now : Int)
    (hmin : ∀ l, 0 < (h.config.tiers.get l).minCapacity) :
    let r := u.tune h now
    r.1 = Level.all.filterMap (u.change? h) ∧ r.2.2.config = h.config ∧
      ∀ l, (r.2.2.tier l).capacity.value =
        (u.wanted? h l).getD (h.tier l).capacity.value := by
  obtain ⟨hchanges, hconfig, hcapacity⟩ := tuneTiers_eq now Level.all (by decide) u h hmin
  refine ⟨hchanges, hconfig, fun l => (hcapacity l).trans ?_⟩
  rw [if_pos (Level.mem_all l)]

section Pass

variable {u : Tuner} {h : Hierarchy K V} {now : Int}
  (hmin : ∀ l, 0 < (h.config.tiers.get l).minCapacity)

include hmin

theorem mem_tune_iff {c : CapacityChange} :
    c ∈ (u.tune h now).1 ↔ u.change? h c.level = some c := by
  rw [(u.tune_eq h now hmin).1, List.mem_filterMap]
  constructor
  · rintro ⟨l, -, hc⟩
    obtain ⟨n, -, rfl⟩ := Option.map_eq_some_iff.1 hc
    exact hc
  · exact fun hc => ⟨c.level, Level.mem_all _, hc⟩

theorem exists_mem_tune_iff (l : Level) :
    (∃ c ∈ (u.tune h now).1, c.level = l) ↔ (u.wanted? h l).isSome := by
  constructor
  · rintro ⟨c, hc, rfl⟩
    obtain ⟨n, hn, -⟩ := Option.map_eq_some_iff.1 ((mem_tune_iff hmin).1 hc)
    exact Option.isSome_of_eq_some hn
  · intro hwanted
    obtain ⟨n, hn⟩ := Option.isSome_iff_exists.1 hwanted
    exact ⟨⟨l, (h.tier l).capacity.value, n, (u.window h l).hitRate⟩,
      (mem_tune_iff hmin).2 (by rw [change?, hn]; rfl), rfl⟩

theorem levels_tune :
    (u.tune h now).1.map CapacityChange.level =
      Level.all.filter fun l => (u.wanted? h l).isSome := by
  rw [(u.tune_eq h now hmin).1, List.map_filterMap, ← List.filterMap_eq_filter]
  apply List.filterMap_congr
  intro l _
  cases hwanted : u.wanted? h l <;> simp [change?, Option.guard, hwanted]

theorem isStep_of_mem_tune {c : CapacityChange} (hc : c ∈ (u.tune h now).1) :
    c.IsStep u.settings (u.window h c.level) (h.tier c.level).capacity.value
      ((u.tune h now).2.2.tier c.level).capacity.value := by
  obtain ⟨after, hwanted, hchange⟩ := Option.map_eq_some_iff.1 ((mem_tune_iff hmin).1 hc)
  have hcases := wanted?_cases hwanted
  have hafter := (u.tune_eq h now hmin).2.2 c.level
  rw [hwanted, Option.getD_some] at hafter
  generalize c.level = l at hchange hcases hafter ⊢
  subst hchange
  constructor
  case before_eq => rfl
  case after_eq => exact hafter.symm
  case hitRate_eq => rfl
  all_goals
    dsimp only
    rcases hcases with ⟨hrate, hlt, hle, -⟩ | ⟨hrate, hlt, hle, -⟩
  case ne.inl => exact Nat.ne_of_gt hlt
  case ne.inr => exact Nat.ne_of_lt hlt
  case le_add.inl => exact hle
  case le_add.inr => exact Nat.le_add_right_of_le hlt.le
  case le_add'.inl => exact Nat.le_add_right_of_le hlt.le
  case le_add'.inr => exact hle
  case grows.inl => exact fun _ => hrate
  case grows.inr => exact fun hgt => absurd hgt (Nat.lt_asymm hlt)
  case shrinks.inl => exact fun hgt => absurd hgt (Nat.lt_asymm hlt)
  case shrinks.inr => exact fun _ => hrate

end Pass

end Tuner

/-! ### Runs -/

namespace Hierarchy

variable {K V : Type}

/-- All capacities lie within the bounds of the configuration, the least of which are not zero. -/
structure WithinLimits (h : Hierarchy K V) : Prop where
  min_pos : ∀ l, 0 < (h.config.tiers.get l).minCapacity
  min_le : ∀ l, (h.config.tiers.get l).minCapacity ≤ (h.tier l).capacity.value
  le_max : ∀ l, (h.tier l).capacity.value ≤ (h.config.tiers.get l).maxCapacity

theorem WithinLimits.of_capacity {h h' : Hierarchy K V} (hh : h.WithinLimits)
    (hconfig : h'.config = h.config)
    (hcapacity : ∀ l, (h'.tier l).capacity = (h.tier l).capacity) : h'.WithinLimits where
  min_pos l := hconfig ▸ hh.min_pos l
  min_le l := by
    rw [hconfig, hcapacity]
    exact hh.min_le l
  le_max l := by
    rw [hconfig, hcapacity]
    exact hh.le_max l

theorem withinLimits_of_new {config : Config} {stripe : K → Nat} {h : Hierarchy K V}
    (hnew : new config stripe = .ok h) : h.WithinLimits := by
  obtain ⟨hordered, -⟩ := Config.ordered_and_positive_of_validate (validate_of_new hnew)
  obtain ⟨capacities, hcapacity, rfl⟩ := eq_fresh_of_new hnew
  constructor
  · exact fun l => (hordered l).min_pos
  · intro l
    rw [tier_fresh]
    exact (hordered l).min_le.trans_eq (hcapacity l).symm
  · intro l
    rw [tier_fresh]
    exact (hcapacity l).trans_le (hordered l).le_max

variable [DecidableEq K]

theorem WithinLimits.tune {h : Hierarchy K V} (hh : h.WithinLimits) (u : Tuner) (now : Int) :
    (u.tune h now).2.2.WithinLimits := by
  obtain ⟨-, hconfig, hcapacity⟩ := u.tune_eq h now hh.min_pos
  have hbounds : ∀ l, (h.config.tiers.get l).minCapacity ≤
        (u.wanted? h l).getD (h.tier l).capacity.value ∧
      (u.wanted? h l).getD (h.tier l).capacity.value ≤ (h.config.tiers.get l).maxCapacity := by
    intro l
    have hmin := hh.min_le l
    have hmax := hh.le_max l
    cases hwanted : u.wanted? h l with
    | none => exact ⟨hmin, hmax⟩
    | some after =>
      rw [Option.getD_some]
      rcases Tuner.wanted?_cases hwanted with ⟨-, hgrows, -, hle⟩ | ⟨-, hshrinks, -, hge⟩
      · exact ⟨by omega, hle⟩
      · exact ⟨hge, by omega⟩
  constructor
  · exact fun l => hconfig ▸ hh.min_pos l
  · intro l
    rw [hconfig, hcapacity]
    exact (hbounds l).1
  · intro l
    rw [hconfig, hcapacity]
    exact (hbounds l).2

end Hierarchy

/-- Whether an operation sets the capacity of a tier itself. -/
def Operation.isResize {K V : Type} : Operation K V → Bool
  | .resizeTier _ _ => true
  | _ => false

namespace Session

variable {K V : Type} [DecidableEq K]

theorem withinLimits_step {s : Session K V} (hs : s.hierarchy.WithinLimits) (op : Operation K V)
    (hop : op.isResize = false) : (s.step op).2.hierarchy.WithinLimits := by
  have hconfig : (s.step op).2.hierarchy.config = s.hierarchy.config :=
    step_kept (P := fun _ h _ => h.config = s.hierarchy.config)
      (fun now => Hierarchy.config_keptByWrites now s.hierarchy.config) (fun _ _ _ hh => hh) s op
      rfl
  cases op with
  | get k => exact hs.of_capacity hconfig (s.hierarchy.capacity_get k s.now)
  | put k v => exact hs.of_capacity hconfig (s.hierarchy.capacity_put k v s.now)
  | putSpeculative k v =>
    exact hs.of_capacity hconfig (s.hierarchy.capacity_putSpeculative k v s.now)
  | remove k =>
    refine hs.of_capacity hconfig fun l => ?_
    rw [show (s.step (.remove k)).2.hierarchy = s.hierarchy.remove k from rfl,
      Hierarchy.tier_remove]
    exact ((s.hierarchy.tier l).remove_alike k).capacity
  | clear => exact hs.of_capacity hconfig fun l => by cases l <;> rfl
  | contains k => exact hs
  | levelOf k => exact hs
  | resizeTier l capacity => exact absurd hop (by simp [Operation.isResize])
  | purgeExpired => exact hs.of_capacity hconfig fun l => by cases l <;> rfl
  | pruneHistories staleness => exact hs.of_capacity hconfig fun l => rfl
  | sweep staleness => exact hs.of_capacity hconfig fun l => by cases l <;> rfl
  | tune => exact hs.tune s.tuner s.now
  | loadAhead keys load =>
    exact hs.of_capacity hconfig (s.hierarchy.capacity_loadAll load keys s.now)
  | advance time => exact hs

theorem withinLimits_run {s : Session K V} (hs : s.hierarchy.WithinLimits)
    (ops : List (Operation K V)) (hops : ∀ op ∈ ops, op.isResize = false) :
    (s.run ops).2.hierarchy.WithinLimits := by
  induction ops generalizing s with
  | nil => exact hs
  | cons op rest ih =>
    rw [run_cons]
    exact ih (withinLimits_step hs op (hops op List.mem_cons_self))
      fun op' hop' => hops op' (List.mem_cons_of_mem op hop')

/-- A configuration whose tiers have room to grow or to shrink by one entry. -/
def elastic : Config where
  tiers := ⟨⟨1, 1, 2, 5⟩, ⟨1, 2, 2, 10⟩, ⟨1, 2, 2, 20⟩⟩
  migration := { hotMinFrequency := 0 }
  autoTune := { minSamples := 1 }

/-- A session that starts with this configuration. -/
def elasticStart : Session Nat Nat :=
  start (.fresh elastic (fun _ => 0) ⟨⟨1, Nat.one_pos⟩, ⟨2, Nat.two_pos⟩, ⟨2, Nat.two_pos⟩⟩)
    elastic.autoTune 0

/-- As long as no capacity is set directly, all capacities stay within the bounds of the
configuration and no tier holds more than it has room for. A pass lists at most one change for each
tier, hottest first. Each is one step that the tier's window demands, and a tier without one keeps
its capacity. There is a change wherever enough lookups call for one: no target is refused. -/
theorem capacities_within_limits {config : Config} {stripe : K → Nat} (s : Session K V)
    (hnew : Hierarchy.new config stripe = .ok s.hierarchy) (ops : List (Operation K V))
    (hops : ∀ op ∈ ops, op.isResize = false) :
    let t := (s.run ops).2
    let capacity := fun l => (t.hierarchy.tier l).capacity.value
    let settings := t.tuner.settings
    let window := t.tuner.window t.hierarchy
    let changes := (t.tuner.tune t.hierarchy t.now).1
    let after := fun l => ((t.tuner.tune t.hierarchy t.now).2.2.tier l).capacity.value
    (∀ l, (config.tiers.get l).minCapacity ≤ capacity l ∧
      capacity l ≤ (config.tiers.get l).maxCapacity ∧
      (t.hierarchy.tier l).size ≤ capacity l) ∧
    (changes.map CapacityChange.level).Sublist Level.all ∧
    (∀ c ∈ changes,
      c.IsStep settings (window c.level) (capacity c.level) (after c.level)) ∧
    (∀ l, (∀ c ∈ changes, c.level ≠ l) → after l = capacity l) ∧
    ∀ l, (∃ c ∈ changes, c.level = l) ↔ settings.minSamples ≤ (window l).probes ∧
      (Tuner.target? settings (config.tiers.get l)
        (Tuner.step settings.stepFraction (capacity l)) (capacity l) (window l).hitRate).isSome := by
  intro t capacity settings window changes after
  have hlimits := withinLimits_run (Hierarchy.withinLimits_of_new hnew) ops hops
  have hsound := sound_run hnew ops
  have hconfig : t.hierarchy.config = config := by
    obtain ⟨capacities, -, hfresh⟩ := Hierarchy.eq_fresh_of_new hnew
    exact run_kept (P := fun _ h _ => h.config = config)
      (fun now => Hierarchy.config_keptByWrites now config) (fun _ _ _ hh => hh) s ops
      (by rw [hfresh]; rfl)
  refine ⟨fun l => ?_, ?_, fun c hc => Tuner.isStep_of_mem_tune hlimits.min_pos hc,
    fun l hnone => ?_, fun l => ?_⟩
  · have hmin := hlimits.min_le l
    have hmax := hlimits.le_max l
    rw [hconfig] at hmin hmax
    refine ⟨hmin, hmax, ?_⟩
    rw [← (hsound.consistent l).indexed.length_recency]
    exact (hsound.consistent l).fits
  · have hlevels : changes.map CapacityChange.level = _ := Tuner.levels_tune hlimits.min_pos
    exact hlevels ▸ List.filter_sublist
  · have hwanted : t.tuner.wanted? t.hierarchy l = none := by
      rw [← Option.not_isSome_iff_eq_none, ← Tuner.exists_mem_tune_iff hlimits.min_pos l]
      rintro ⟨c, hc, hl⟩
      exact hnone c hc hl
    have hafter := (t.tuner.tune_eq t.hierarchy t.now hlimits.min_pos).2.2 l
    rwa [hwanted] at hafter
  · have hlisted : (∃ c ∈ changes, c.level = l) ↔ _ :=
      Tuner.exists_mem_tune_iff hlimits.min_pos l
    refine hlisted.trans ?_
    rw [Tuner.isSome_wanted?_iff, hconfig]

/-- The hot tier serves most of its probes and grows, the others serve none and shrink. -/
theorem capacities_within_limits_of_elastic :
    let ops : List (Operation Nat Nat) := .put 1 10 :: .get 9 :: List.replicate 9 (.get 1)
    let t := (elasticStart.run ops).2
    let changes := (t.tuner.tune t.hierarchy t.now).1
    Hierarchy.new elastic (fun _ => 0) = .ok elasticStart.hierarchy ∧
      (∀ op ∈ ops, op.isResize = false) ∧
      (∃ c ∈ changes, c.level = .hot ∧ c.before = 1 ∧ c.after = 2) ∧
      (∃ c ∈ changes, c.level = .warm) ∧ (∃ c ∈ changes, c.level = .cold) ∧
      (changes.map CapacityChange.level).Sublist Level.all := by
  intro ops t changes
  have hnew : Hierarchy.new elastic (fun _ => 0) = .ok elasticStart.hierarchy := rfl
  have hops : ∀ op ∈ ops, op.isResize = false := by decide
  obtain ⟨-, hlevels, hsteps, -, hlisted⟩ := capacities_within_limits elasticStart hnew ops hops
  obtain ⟨c, hc, hhot⟩ := (hlisted .hot).2 (by decide +kernel)
  have hstep := hsteps c hc
  rw [hhot] at hstep
  have hbefore : c.before = 1 := hstep.before_eq
  obtain ⟨hbounds, -⟩ := capacities_within_limits elasticStart hnew (ops ++ [.tune])
    (by decide)
  obtain ⟨hmin, hmax, -⟩ := hbounds .hot
  have hafter := hstep.after_eq
  have hne := hstep.ne
  rw [run_append] at hmin hmax
  refine ⟨hnew, hops, ⟨c, hc, hhot, hbefore, ?_⟩, (hlisted .warm).2 (by decide +kernel),
    (hlisted .cold).2 (by decide +kernel), hlevels⟩
  have hmax' : c.after ≤ 2 := hafter.trans_le hmax
  have hmin' : 1 ≤ c.after := hmin.trans_eq hafter.symm
  omega

end Session

end TieredCache
