import TieredCache.Proofs.Bookkeeping

/-!
# Lookups narrow down from tier to tier

A lookup reaches a tier if no hotter one has served it, and ends as a hit or as a miss. So what a
tier is probed for is what the one above it was probed for and did not serve, over a whole run and
over each part of one, the windows of the tuner included.
-/

namespace TieredCache

namespace Counters

/-- What has been counted since an earlier reading. -/
def since (later earlier : Counters) : Counters where
  tiers := ⟨later.tiers.hot.since earlier.tiers.hot, later.tiers.warm.since earlier.tiers.warm,
    later.tiers.cold.since earlier.tiers.cold⟩
  misses := later.misses - earlier.misses
  evictions := later.evictions - earlier.evictions
  demotions := later.demotions - earlier.demotions
  promotions := later.promotions - earlier.promotions
  prefetched := later.prefetched - earlier.prefetched

/-- What is counted of a number of lookups. Each tier passes on what it does not serve. -/
structure Funnel (c : Counters) (lookups : Nat) : Prop where
  hot : c.tiers.hot.probes = lookups
  warm : c.tiers.warm.probes = c.tiers.hot.probes - c.tiers.hot.hits
  cold : c.tiers.cold.probes = c.tiers.warm.probes - c.tiers.warm.hits
  misses : c.misses = c.tiers.cold.probes - c.tiers.cold.hits
  hits_le : ∀ l, (c.tiers.get l).hits ≤ (c.tiers.get l).probes
  requests : (c.tiers.map TierCounters.hits).sum + c.misses = lookups
  promotions_le : c.promotions ≤ c.tiers.warm.hits + c.tiers.cold.hits

/-- The second reading counts some lookups more than the first one. -/
structure Extends (c c' : Counters) (lookups : Nat) : Prop where
  hot : c'.tiers.hot.probes = c.tiers.hot.probes + lookups
  warm : c'.tiers.warm.probes + c'.tiers.hot.hits + c.tiers.hot.probes =
    c.tiers.warm.probes + c.tiers.hot.hits + c'.tiers.hot.probes
  cold : c'.tiers.cold.probes + c'.tiers.warm.hits + c.tiers.warm.probes =
    c.tiers.cold.probes + c.tiers.warm.hits + c'.tiers.warm.probes
  missed : c'.misses + c'.tiers.cold.hits + c.tiers.cold.probes =
    c.misses + c.tiers.cold.hits + c'.tiers.cold.probes
  hits_le : ∀ l, (c.tiers.get l).hits ≤ (c'.tiers.get l).hits
  misses_le : c.misses ≤ c'.misses
  promoted : c'.promotions + c.tiers.warm.hits + c.tiers.cold.hits ≤
    c.promotions + c'.tiers.warm.hits + c'.tiers.cold.hits

namespace Extends

variable {c c' c'' : Counters} {m n : Nat}

theorem refl (c : Counters) : c.Extends c 0 :=
  ⟨rfl, rfl, rfl, rfl, fun _ => le_rfl, le_rfl, le_rfl⟩

theorem trans (h : c.Extends c' m) (h' : c'.Extends c'' n) : c.Extends c'' (m + n) where
  hot := by rw [h'.hot, h.hot, Nat.add_assoc]
  warm := by have := h.warm; have := h'.warm; omega
  cold := by have := h.cold; have := h'.cold; omega
  missed := by have := h.missed; have := h'.missed; omega
  hits_le l := (h.hits_le l).trans (h'.hits_le l)
  misses_le := h.misses_le.trans h'.misses_le
  promoted := by have := h.promoted; have := h'.promoted; omega

/-- Whatever was counted before, the difference narrows down. -/
theorem funnel (h : c.Extends c' n) : (c'.since c).Funnel n := by
  obtain ⟨hhot, hwarm, hcold, hmissed, hhits, hmisses, hpromoted⟩ := h
  have hhotHits : c.tiers.hot.hits ≤ c'.tiers.hot.hits := hhits .hot
  have hwarmHits : c.tiers.warm.hits ≤ c'.tiers.warm.hits := hhits .warm
  have hcoldHits : c.tiers.cold.hits ≤ c'.tiers.cold.hits := hhits .cold
  constructor
  case hits_le =>
    intro l
    cases l <;> simp only [since, TierCounters.since, PerLevel.get] <;> omega
  all_goals
    simp only [since, TierCounters.since, PerLevel.map, PerLevel.sum]
    omega

end Extends

/-- One lookup, with the tier that serves it if any does, and whether its key has moved up. -/
theorem extends_lookup {c c' : Counters} (hot warm cold raised : Nat) (hone : hot + warm + cold ≤ 1)
    (hraised : raised ≤ warm + cold)
    (htiers : c'.tiers =
      ⟨⟨c.tiers.hot.probes + 1, c.tiers.hot.hits + hot⟩,
        ⟨c.tiers.warm.probes + (1 - hot), c.tiers.warm.hits + warm⟩,
        ⟨c.tiers.cold.probes + (1 - hot - warm), c.tiers.cold.hits + cold⟩⟩)
    (hmisses : c'.misses = c.misses + (1 - hot - warm - cold))
    (hpromotions : c'.promotions = c.promotions + raised) : c.Extends c' 1 where
  hot := by rw [htiers]
  warm := by simp only [htiers]; omega
  cold := by simp only [htiers]; omega
  missed := by simp only [htiers, hmisses]; omega
  hits_le l := by cases l <;> simp only [htiers, PerLevel.get, Nat.le_add_right]
  misses_le := by rw [hmisses]; exact Nat.le_add_right _ _
  promoted := by simp only [htiers, hpromotions]; omega

end Counters

namespace Hierarchy

variable {K V : Type}

theorem extends_of_records {h h' : Hierarchy K V} (hsame : h'.records = h.records) :
    h.counters.Extends h'.counters 0 := by
  obtain ⟨-, htiers, hmisses, hpromotions⟩ := Records.mk.inj hsame
  have hrefl := Counters.Extends.refl h.counters
  exact ⟨htiers ▸ hrefl.hot, htiers ▸ hrefl.warm, htiers ▸ hrefl.cold,
    by rw [htiers, hmisses], fun l => by rw [htiers], hmisses.ge,
    by rw [htiers, hpromotions]⟩

variable [DecidableEq K]

theorem extends_get (h : Hierarchy K V) (k : K) (now : Int) :
    h.counters.Extends (h.get k now).2.counters 1 := by
  obtain ⟨-, -, hrecords⟩ | ⟨l, e, -, -, -, raised, hraised, hrecords⟩ := h.get_cases k now
  · obtain ⟨-, htiers, hmisses, hpromotions⟩ := Records.mk.inj hrecords
    exact Counters.extends_lookup 0 0 0 0 (by decide) le_rfl htiers hmisses hpromotions
  · obtain ⟨-, htiers, hmisses, hpromotions⟩ := Records.mk.inj hrecords
    cases l with
    | hot => exact Counters.extends_lookup 1 0 0 raised le_rfl hraised htiers hmisses hpromotions
    | warm => exact Counters.extends_lookup 0 1 0 raised le_rfl hraised htiers hmisses hpromotions
    | cold => exact Counters.extends_lookup 0 0 1 raised le_rfl hraised htiers hmisses hpromotions

end Hierarchy

/-! ### Marks of the tuner -/

namespace Tuner

variable {K V : Type} [DecidableEq K]

theorem marks_tuneTier (u : Tuner) (h : Hierarchy K V) (l : Level) (now : Int) :
    (u.tuneTier h l now).2.1.marks = u.marks.set l (h.counters.tiers.get l) := by
  rw [tuneTier]
  simp only
  split
  · rfl
  · split <;> rfl

theorem marks_tuneTiers (now : Int) (levels : List Level) (u : Tuner) (h : Hierarchy K V)
    (m : Level) : (tuneTiers now levels u h).2.1.marks.get m =
      if m ∈ levels then h.counters.tiers.get m else u.marks.get m := by
  induction levels generalizing u h with
  | nil => rfl
  | cons l rest ih =>
    have htiers : (u.tuneTier h l now).2.2.counters.tiers = h.counters.tiers :=
      congrArg Records.tiers (Hierarchy.records_tuneTier u h l now)
    refine (ih (u.tuneTier h l now).2.1 (u.tuneTier h l now).2.2).trans ?_
    rw [htiers, marks_tuneTier]
    by_cases hm : m = l
    · subst hm
      simp
    · simp [hm, PerLevel.get_set_of_ne _ _ hm]

theorem marks_tune (u : Tuner) (h : Hierarchy K V) (now : Int) (l : Level) :
    (u.tune h now).2.1.marks.get l = h.counters.tiers.get l :=
  (marks_tuneTiers now Level.all u h l).trans (if_pos (Level.mem_all l))

end Tuner

/-- Whether an operation is a lookup. -/
def Operation.isGet {K V : Type} : Operation K V → Bool
  | .get _ => true
  | _ => false

namespace Session

variable {K V : Type} [DecidableEq K]

theorem extends_step (s : Session K V) (op : Operation K V) :
    s.hierarchy.counters.Extends (s.step op).2.hierarchy.counters (if op.isGet then 1 else 0) := by
  cases op with
  | get k => exact s.hierarchy.extends_get k s.now
  | put k v =>
    have hrecords := s.hierarchy.records_put k v s.now
    exact Hierarchy.extends_of_records (h := (s.hierarchy.recordAccess k s.now).2) hrecords
  | putSpeculative k v =>
    exact Hierarchy.extends_of_records (s.hierarchy.records_putSpeculative k v s.now)
  | remove k => exact .refl _
  | clear => exact .refl _
  | contains k => exact .refl _
  | levelOf k => exact .refl _
  | resizeTier l capacity =>
    exact Hierarchy.extends_of_records (s.hierarchy.records_resizeTier l capacity s.now)
  | purgeExpired => exact .refl _
  | pruneHistories staleness => exact .refl _
  | sweep staleness => exact .refl _
  | tune =>
    exact Hierarchy.extends_of_records
      (Hierarchy.records_tuneTiers s.now Level.all s.tuner s.hierarchy)
  | loadAhead keys load =>
    exact Hierarchy.extends_of_records (s.hierarchy.records_loadAll load keys s.now)
  | advance time => exact .refl _

theorem extends_run (s : Session K V) (ops : List (Operation K V)) :
    s.hierarchy.counters.Extends (s.run ops).2.hierarchy.counters
      (ops.countP Operation.isGet) := by
  induction ops generalizing s with
  | nil => exact .refl _
  | cons op rest ih =>
    rw [run_cons, List.countP_cons, Nat.add_comm]
    exact (extends_step s op).trans (ih _)

/-- The tuner compares with the counters as they were at some earlier point of the run. -/
theorem marks_run {s : Session K V}
    (hs : ∀ l, s.tuner.marks.get l = s.hierarchy.counters.tiers.get l)
    (ops : List (Operation K V)) : ∃ before after, ops = before ++ after ∧
      ∀ l, (s.run ops).2.tuner.marks.get l = (s.run before).2.hierarchy.counters.tiers.get l := by
  induction ops using List.reverseRecOn with
  | nil => exact ⟨[], [], rfl, hs⟩
  | append_singleton ops op ih =>
    obtain ⟨before, after, rfl, hmarks⟩ := ih
    have hkept : ((s.run (before ++ after)).2.step op).2.tuner =
          (s.run (before ++ after)).2.tuner ∨ op = .tune := by
      cases op with
      | tune => exact .inr rfl
      | _ => exact .inl rfl
    rw [run_append]
    obtain hkept | rfl := hkept
    · refine ⟨before, after ++ [op], List.append_assoc _ _ _, fun l => ?_⟩
      exact (congrArg (fun u => u.marks.get l) hkept).trans (hmarks l)
    · refine ⟨before ++ after, [.tune], rfl, fun l => ?_⟩
      exact Tuner.marks_tune _ _ _ l

/-- At every point of a run the counters narrow down to the misses, and so does what was counted
since any earlier point. The hot tier is probed by every lookup. A window of the tuner is such a
difference, so it has no more hits than probes. -/
theorem lookups_form_funnel {config : Config} {stripe : K → Nat} {settings : AutoTuneSettings}
    (s : Session K V) (hnew : Hierarchy.new config stripe = .ok s.hierarchy)
    (htuner : s.tuner = Tuner.new settings s.hierarchy) (before during : List (Operation K V)) :
    let t := (s.run before).2
    let u := (t.run during).2
    let n := u.hierarchy.statistics
    u.hierarchy.counters.Funnel ((before ++ during).countP Operation.isGet) ∧
    n.totalRequests = (before ++ during).countP Operation.isGet ∧
    n.hits.sum + n.misses = n.totalRequests ∧
    (u.hierarchy.counters.since t.hierarchy.counters).Funnel (during.countP Operation.isGet) ∧
    ∀ l, ((u.hierarchy.counters.tiers.get l).since (u.tuner.marks.get l)).hits ≤
      ((u.hierarchy.counters.tiers.get l).since (u.tuner.marks.get l)).probes := by
  intro t u n
  have hu : u = (s.run (before ++ during)).2 := by rw [run_append]
  have hfunnel : u.hierarchy.counters.Funnel ((before ++ during).countP Operation.isGet) := by
    have hextends := extends_run s (before ++ during)
    obtain ⟨capacities, -, hfresh⟩ := Hierarchy.eq_fresh_of_new hnew
    rw [hfresh] at hextends
    rw [hu]
    exact hextends.funnel
  refine ⟨hfunnel, hfunnel.requests, rfl, (extends_run t during).funnel, ?_⟩
  have hmarks : ∀ l, s.tuner.marks.get l = s.hierarchy.counters.tiers.get l := fun l => by
    rw [htuner]
    rfl
  obtain ⟨earlier, later, hsplit, hmarks⟩ := marks_run hmarks (before ++ during)
  intro l
  have hwindow := (extends_run (s.run earlier).2 later).funnel.hits_le l
  rw [hu, hmarks, hsplit, run_append]
  cases l <;> exact hwindow

/-- Three lookups after a pass of the tuner: one is served by the warm tier and moves its key up, one
by the hot tier, and one by none. -/
theorem lookups_form_funnel_after_pass :
    let before : List (Operation Nat Nat) := [.put 1 10, .put 2 20, .get 9, .tune]
    let during : List (Operation Nat Nat) := [.get 1, .get 1, .get 8]
    let t := (narrowStart.run before).2
    let u := (t.run during).2
    let window := u.hierarchy.counters.since t.hierarchy.counters
    Hierarchy.new narrow (fun _ => 0) = .ok narrowStart.hierarchy ∧
      narrowStart.tuner = Tuner.new narrow.autoTune narrowStart.hierarchy ∧
      window.tiers = ⟨⟨3, 1⟩, ⟨2, 1⟩, ⟨1, 0⟩⟩ ∧ window.promotions = 1 ∧
      window.Funnel (during.countP Operation.isGet) ∧
      u.hierarchy.statistics.totalRequests = (before ++ during).countP Operation.isGet ∧
      (u.hierarchy.counters.tiers.hot.since u.tuner.marks.hot).probes = 3 ∧
      ∀ l, ((u.hierarchy.counters.tiers.get l).since (u.tuner.marks.get l)).hits ≤
        ((u.hierarchy.counters.tiers.get l).since (u.tuner.marks.get l)).probes := by
  have hnew : Hierarchy.new narrow (fun _ => 0) = .ok narrowStart.hierarchy := rfl
  have hstart : narrowStart.tuner = Tuner.new narrow.autoTune narrowStart.hierarchy := rfl
  obtain ⟨-, hrequests, -, hwindow, htuner⟩ := lookups_form_funnel narrowStart hnew hstart
    [.put 1 10, .put 2 20, .get 9, .tune] [.get 1, .get 1, .get 8]
  exact ⟨hnew, hstart, by decide, by decide, hwindow, hrequests, by decide, htuner⟩

end Session

end TieredCache
