import Mathlib.Data.List.DropRight
import TieredCache.Proofs.FreshStart
import TieredCache.Proofs.TunedCapacities

/-!
# The windows of the tuner

A pass moves all marks to the counters that it reads, whatever it makes of them, and resizing a tier
counts no lookup. The counters themselves add up what the lookups count one by one. So the window of
a tier is its traffic since the pass before, and the windows of all passes are the whole traffic.
What a pass changes is what its windows call for, each in its tier.
-/

namespace TieredCache

namespace TierCounters

theorem plus_empty (c : TierCounters) : c.plus {} = c := rfl

theorem empty_plus (c : TierCounters) : plus {} c = c := by
  simp only [plus, Nat.zero_add]

theorem plus_assoc (c d e : TierCounters) : (c.plus d).plus e = c.plus (d.plus e) := by
  simp only [plus, Nat.add_assoc]

theorem since_plus_self (c d : TierCounters) : (c.plus d).since c = d := by
  simp only [since, plus, Nat.add_sub_cancel_left]

/-- What a lookup counts of a tier, given the tier that serves it, if one does. It gets as far as
that one. -/
def ofLookup (server : Option Level) (l : Level) : TierCounters where
  probes := if server.any fun m => m.isHotterThan l then 0 else 1
  hits := if server = some l then 1 else 0

/-- What some readings, each of one tier, count of a tier in all. -/
def total (l : Level) (readings : List (Level × TierCounters)) : TierCounters :=
  readings.foldr (fun r sum => if r.1 = l then r.2.plus sum else sum) {}

theorem total_append (l : Level) (first second : List (Level × TierCounters)) :
    total l (first ++ second) = (total l first).plus (total l second) := by
  induction first with
  | nil => exact (empty_plus _).symm
  | cons r first ih =>
    simp only [total, List.cons_append, List.foldr_cons] at ih ⊢
    rw [ih]
    split
    · exact (plus_assoc _ _ _).symm
    · rfl

theorem total_all (l : Level) (f : Level → TierCounters) :
    total l (Level.all.map fun m => (m, f m)) = f l := by
  cases l <;> rfl

end TierCounters

namespace Counters

theorem get_miss (c : Counters) (l : Level) :
    c.miss.tiers.get l = (c.tiers.get l).plus (.ofLookup none l) := by
  cases l <;> rfl

theorem get_hit (c : Counters) (server l : Level) :
    (c.hit server).tiers.get l = (c.tiers.get l).plus (.ofLookup (some server) l) := by
  cases server <;> cases l <;> rfl

end Counters

namespace Tuner

variable {K V : Type} [DecidableEq K]

/-- The windows that a pass over some tiers looks at. Each tier is tuned before the next one is
looked at. -/
def windows (now : Int) : List Level → Tuner → Hierarchy K V → List (Level × TierCounters)
  | [], _, _ => []
  | l :: rest, u, h =>
    (l, u.window h l) :: windows now rest (u.tuneTier h l now).2.1 (u.tuneTier h l now).2.2

theorem windows_eq (now : Int) (levels : List Level) (hnodup : levels.Nodup) (u : Tuner)
    (h : Hierarchy K V) : windows now levels u h = levels.map fun l => (l, u.window h l) := by
  induction levels generalizing u h with
  | nil => rfl
  | cons l rest ih =>
    rw [List.nodup_cons] at hnodup
    rw [windows, ih hnodup.2, List.map_cons]
    congr 1
    apply List.map_congr_left
    intro m hm
    have hne : m ≠ l := fun heq => hnodup.1 (heq ▸ hm)
    rw [u.window_tuneTier h hne]

/-- A tier gets the capacity that its window calls for, unless that is zero. -/
theorem tuneTier_eq (u : Tuner) (h : Hierarchy K V) (l : Level) (now : Int) :
    u.tuneTier h l now =
      let u' : Tuner := { u with marks := u.marks.set l (h.counters.tiers.get l) }
      match (u.wanted? h l).bind Capacity.ofNat? with
      | none => (none, u', h)
      | some after =>
        (some ⟨l, (h.tier l).capacity.value, after.value, (u.window h l).hitRate⟩, u',
          (h.resizeTier l after now).2) := by
  by_cases hfew : (u.window h l).probes < u.settings.minSamples
  · rw [wanted?, if_pos hfew]
    exact if_pos hfew
  · rw [wanted?, if_neg hfew]
    exact if_neg hfew

theorem settings_tuneTier (u : Tuner) (h : Hierarchy K V) (l : Level) (now : Int) :
    (u.tuneTier h l now).2.1.settings = u.settings := by
  rw [tuneTier_eq]
  dsimp only
  split <;> rfl

theorem config_tuneTier (u : Tuner) (h : Hierarchy K V) (l : Level) (now : Int) :
    (u.tuneTier h l now).2.2.config = h.config := by
  rw [tuneTier_eq]
  dsimp only
  split
  · rfl
  · exact h.config_resizeTier l _ now

theorem capacity_tuneTier (u : Tuner) (h : Hierarchy K V) {l m : Level} (hm : m ≠ l) (now : Int) :
    ((u.tuneTier h l now).2.2.tier m).capacity = (h.tier m).capacity := by
  rw [tuneTier_eq]
  dsimp only
  split
  · rfl
  · rw [h.capacity_resizeTier, if_neg hm]

theorem settings_tuneTiers (now : Int) (levels : List Level) (u : Tuner) (h : Hierarchy K V) :
    (tuneTiers now levels u h).2.1.settings = u.settings := by
  induction levels generalizing u h with
  | nil => rfl
  | cons l rest ih => exact (ih _ _).trans (u.settings_tuneTier h l now)

/-- The change that a window calls for in a tier of some capacity, unless that is to zero. -/
def called? (settings : AutoTuneSettings) (limits : TierLimits) (l : Level) (capacity : Nat)
    (window : TierCounters) : Option CapacityChange :=
  if window.probes < settings.minSamples then none
  else
    let target := target? settings limits (step settings.stepFraction capacity) capacity
      window.hitRate
    (target.bind Capacity.ofNat?).map fun after => ⟨l, capacity, after.value, window.hitRate⟩

theorem of_called? {settings : AutoTuneSettings} {limits : TierLimits} {l : Level} {capacity : Nat}
    {window : TierCounters} {c : CapacityChange}
    (hc : called? settings limits l capacity window = some c) :
    c.level = l ∧ c.before = capacity ∧ c.hitRate = window.hitRate := by
  rw [called?] at hc
  split at hc
  · exact absurd hc (by simp)
  · obtain ⟨after, -, rfl⟩ := Option.map_eq_some_iff.1 hc
    exact ⟨rfl, rfl, rfl⟩

theorem change_tuneTier (u : Tuner) (h : Hierarchy K V) (l : Level) (now : Int) :
    (u.tuneTier h l now).1 = called? u.settings (h.config.tiers.get l) l (h.tier l).capacity.value
      (u.window h l) := by
  rw [tuneTier_eq, called?, wanted?]
  by_cases hfew : (u.window h l).probes < u.settings.minSamples
  · rw [if_pos hfew, if_pos hfew]
    rfl
  · rw [if_neg hfew, if_neg hfew]
    dsimp only
    split
    · rename_i hnone
      rw [hnone]
      rfl
    · rename_i after hafter
      rw [hafter]
      rfl

/-- A pass makes the changes that the windows call for in the tiers as it finds them. -/
theorem changes_tuneTiers (now : Int) (levels : List Level) (hnodup : levels.Nodup) (u : Tuner)
    (h : Hierarchy K V) : (tuneTiers now levels u h).1 = levels.filterMap fun l =>
      called? u.settings (h.config.tiers.get l) l (h.tier l).capacity.value (u.window h l) := by
  induction levels generalizing u h with
  | nil => rfl
  | cons l rest ih =>
    rw [List.nodup_cons] at hnodup
    have hrest := ih hnodup.2 (u.tuneTier h l now).2.1 (u.tuneTier h l now).2.2
    have hothers : rest.filterMap (fun m =>
          called? (u.tuneTier h l now).2.1.settings
            ((u.tuneTier h l now).2.2.config.tiers.get m) m
            ((u.tuneTier h l now).2.2.tier m).capacity.value
            ((u.tuneTier h l now).2.1.window (u.tuneTier h l now).2.2 m)) =
        rest.filterMap fun m =>
          called? u.settings (h.config.tiers.get m) m (h.tier m).capacity.value (u.window h m) := by
      apply List.filterMap_congr
      intro m hm
      have hne : m ≠ l := fun heq => hnodup.1 (heq ▸ hm)
      rw [settings_tuneTier, config_tuneTier, capacity_tuneTier _ _ hne, window_tuneTier _ _ hne]
    rw [tuneTiers]
    dsimp only
    rw [hrest, hothers, change_tuneTier, List.filterMap_cons]
    split
    · rename_i hnone
      rw [hnone]
      rfl
    · rename_i c hc
      rw [hc]
      rfl

end Tuner

namespace Operation

variable {K V : Type}

/-- Whether an operation is a pass of the tuner. -/
def isTune : Operation K V → Bool
  | .tune => true
  | _ => false

/-- A run up to its last pass of the tuner, that one included. -/
def upToPass (ops : List (Operation K V)) : List (Operation K V) :=
  ops.rdropWhile fun op => !op.isTune

/-- What comes after the last pass of the tuner, or the whole run if there is none. -/
def sincePass (ops : List (Operation K V)) : List (Operation K V) :=
  ops.rtakeWhile fun op => !op.isTune

theorem upToPass_append (ops : List (Operation K V)) : upToPass ops ++ sincePass ops = ops :=
  List.rdropWhile_append_rtakeWhile

theorem upToPass_concat (ops : List (Operation K V)) (op : Operation K V) :
    upToPass (ops ++ [op]) = if op.isTune then ops ++ [op] else upToPass ops := by
  rw [upToPass, List.rdropWhile_concat]
  cases op.isTune <;> rfl

end Operation

namespace Session

variable {K V : Type} [DecidableEq K]

/-- What an operation counts of a tier. -/
def counted (s : Session K V) (l : Level) : Operation K V → TierCounters
  | .get k => .ofLookup (s.hierarchy.levelOf? k s.now) l
  | _ => {}

/-- The lookups of a run that get as far as a tier, and those that it serves. -/
def traffic (l : Level) : Session K V → List (Operation K V) → TierCounters
  | _, [] => {}
  | s, op :: rest => (s.counted l op).plus (traffic l (s.step op).2 rest)

/-- What has been counted of a tier since the last pass of the tuner. -/
def recent (s : Session K V) (ops : List (Operation K V)) (l : Level) : TierCounters :=
  traffic l (s.run (Operation.upToPass ops)).2 (Operation.sincePass ops)

/-- The windows that the passes of a run look at, in their order. -/
def windows : Session K V → List (Operation K V) → List (Level × TierCounters)
  | _, [] => []
  | s, op :: rest =>
    (if op.isTune then Tuner.windows s.now Level.all s.tuner s.hierarchy else []) ++
      windows (s.step op).2 rest

theorem tiers_step {s : Session K V} {op : Operation K V} (hop : op.isGet = false) :
    (s.step op).2.hierarchy.counters.tiers = s.hierarchy.counters.tiers := by
  cases op with
  | get k => exact absurd hop (by simp [Operation.isGet])
  | put k v => exact congrArg Records.tiers (s.hierarchy.records_put k v s.now)
  | putSpeculative k v =>
    exact congrArg Records.tiers (s.hierarchy.records_putSpeculative k v s.now)
  | remove k => rfl
  | clear => rfl
  | contains k => rfl
  | levelOf k => rfl
  | resizeTier l capacity =>
    exact congrArg Records.tiers (s.hierarchy.records_resizeTier l capacity s.now)
  | purgeExpired => rfl
  | pruneHistories staleness => rfl
  | sweep staleness => rfl
  | tune =>
    exact congrArg Records.tiers
      (Hierarchy.records_tuneTiers s.now Level.all s.tuner s.hierarchy)
  | loadAhead keys load =>
    exact congrArg Records.tiers (s.hierarchy.records_loadAll load keys s.now)
  | advance time => rfl

theorem counted_get (s : Session K V) (k : K) (l : Level) :
    (s.step (.get k)).2.hierarchy.counters.tiers.get l =
      (s.hierarchy.counters.tiers.get l).plus (s.counted l (.get k)) := by
  rw [counted]
  obtain ⟨hlevel, -, hrecords⟩ | ⟨server, e, hlevel, -, -, raised, -, hrecords⟩ :=
    s.hierarchy.get_cases k s.now
  · rw [hlevel, ← s.hierarchy.counters.get_miss l]
    exact congrArg (fun r : Records K => r.tiers.get l) hrecords
  · rw [hlevel, ← s.hierarchy.counters.get_hit server l]
    exact congrArg (fun r : Records K => r.tiers.get l) hrecords

theorem counters_step (s : Session K V) (op : Operation K V) (l : Level) :
    (s.step op).2.hierarchy.counters.tiers.get l =
      (s.hierarchy.counters.tiers.get l).plus (s.counted l op) := by
  cases hop : op.isGet with
  | false =>
    have hnone : s.counted l op = {} := by
      cases op with
      | get k => exact absurd hop (by simp [Operation.isGet])
      | _ => rfl
    rw [tiers_step hop, hnone, TierCounters.plus_empty]
  | true =>
    cases op with
    | get k => exact s.counted_get k l
    | _ => exact absurd hop Bool.false_ne_true

/-- The counters add up what the lookups of a run have counted. -/
theorem counters_run (s : Session K V) (ops : List (Operation K V)) (l : Level) :
    (s.run ops).2.hierarchy.counters.tiers.get l =
      (s.hierarchy.counters.tiers.get l).plus (traffic l s ops) := by
  induction ops generalizing s with
  | nil => rfl
  | cons op rest ih =>
    rw [run_cons, traffic, ← TierCounters.plus_assoc, ← counters_step]
    exact ih (s.step op).2

theorem traffic_append (l : Level) (s : Session K V) (first second : List (Operation K V)) :
    traffic l s (first ++ second) =
      (traffic l s first).plus (traffic l (s.run first).2 second) := by
  induction first generalizing s with
  | nil => exact (TierCounters.empty_plus _).symm
  | cons op rest ih =>
    rw [List.cons_append, traffic, traffic, ih, TierCounters.plus_assoc]
    rfl

theorem traffic_concat_tune (l : Level) (s : Session K V) (ops : List (Operation K V)) :
    traffic l s (ops ++ [.tune]) = traffic l s ops := by
  rw [traffic_append]
  rfl

theorem windows_append (s : Session K V) (first second : List (Operation K V)) :
    s.windows (first ++ second) = s.windows first ++ (s.run first).2.windows second := by
  induction first generalizing s with
  | nil => rfl
  | cons op rest ih =>
    rw [List.cons_append, windows, windows, ih, List.append_assoc]
    rfl

theorem windows_tune (s : Session K V) :
    s.windows [.tune] = Tuner.windows s.now Level.all s.tuner s.hierarchy :=
  List.append_nil _

theorem tuner_step {s : Session K V} {op : Operation K V} (hop : op.isTune = false) :
    (s.step op).2.tuner = s.tuner := by
  cases op with
  | tune => exact absurd hop (by simp [Operation.isTune])
  | _ => rfl

theorem settings_run (s : Session K V) (ops : List (Operation K V)) :
    (s.run ops).2.tuner.settings = s.tuner.settings := by
  induction ops generalizing s with
  | nil => rfl
  | cons op rest ih =>
    rw [run_cons]
    refine (ih (s.step op).2).trans ?_
    cases hop : op.isTune with
    | false => rw [tuner_step hop]
    | true =>
      cases op with
      | tune => exact Tuner.settings_tuneTiers s.now Level.all s.tuner s.hierarchy
      | _ => exact absurd hop Bool.false_ne_true

theorem traffic_eq (s : Session K V) (ops : List (Operation K V)) (l : Level) :
    traffic l s ops = (traffic l s (Operation.upToPass ops)).plus (s.recent ops l) := by
  rw [recent, ← traffic_append, Operation.upToPass_append]

section Marks

variable {s : Session K V} (hs : ∀ l, s.tuner.marks.get l = s.hierarchy.counters.tiers.get l)
  (ops : List (Operation K V)) (l : Level)

include hs

/-- The marks are the counters as they were at the last pass. -/
theorem marks_eq : (s.run ops).2.tuner.marks.get l =
    (s.run (Operation.upToPass ops)).2.hierarchy.counters.tiers.get l := by
  induction ops using List.reverseRecOn with
  | nil => exact hs l
  | append_singleton ops op ih =>
    have hlast : (s.run (ops ++ [op])).2 = ((s.run ops).2.step op).2 := by
      rw [run_append]
      rfl
    rw [Operation.upToPass_concat]
    cases hop : op.isTune with
    | false =>
      rw [hlast, tuner_step hop]
      exact ih
    | true =>
      cases op with
      | tune =>
        rw [if_pos rfl, hlast, tiers_step rfl]
        exact Tuner.marks_tune _ _ _ l
      | _ => exact absurd hop Bool.false_ne_true

/-- No lookup is counted since the last pass but those that were made since then. -/
theorem marks_plus_recent : ((s.run ops).2.tuner.marks.get l).plus (s.recent ops l) =
    (s.run ops).2.hierarchy.counters.tiers.get l := by
  rw [marks_eq hs, counters_run, counters_run s ops, TierCounters.plus_assoc, ← traffic_eq]

theorem window_eq : (s.run ops).2.tuner.window (s.run ops).2.hierarchy l = s.recent ops l := by
  rw [Tuner.window, ← marks_plus_recent hs, TierCounters.since_plus_self]

theorem windows_pass :
    Tuner.windows (s.run ops).2.now Level.all (s.run ops).2.tuner (s.run ops).2.hierarchy =
      Level.all.map fun l => (l, s.recent ops l) := by
  rw [Tuner.windows_eq _ _ (by decide)]
  simp only [window_eq hs]

/-- The windows up to the last pass have counted all lookups up to there. -/
theorem total_windows : TierCounters.total l (s.windows ops) =
    traffic l s (Operation.upToPass ops) := by
  induction ops using List.reverseRecOn with
  | nil => rfl
  | append_singleton ops op ih =>
    rw [windows_append, TierCounters.total_append, ih, Operation.upToPass_concat]
    cases hop : op.isTune with
    | false =>
      have hnone : (s.run ops).2.windows [op] = [] := by
        rw [windows, hop]
        rfl
      rw [hnone]
      rfl
    | true =>
      cases op with
      | tune =>
        rw [windows_tune, windows_pass hs, TierCounters.total_all, if_pos rfl, ← traffic_eq,
          traffic_concat_tune]
      | _ => exact absurd hop Bool.false_ne_true

end Marks

theorem config_run (s : Session K V) (ops : List (Operation K V)) :
    (s.run ops).2.hierarchy.config = s.hierarchy.config :=
  run_kept (P := fun _ h _ => h.config = s.hierarchy.config)
    (fun now => Hierarchy.config_keptByWrites now s.hierarchy.config) (fun _ _ _ hh => hh) s ops
    rfl

/-- The changes of a pass are those that the traffic since the pass before calls for. -/
theorem changes_pass (h : Hierarchy K V) (settings : AutoTuneSettings) (now : Int)
    (ops : List (Operation K V)) :
    let s := start h settings now
    let t := (s.run ops).2
    (t.tuner.tune t.hierarchy t.now).1 = Level.all.filterMap fun l =>
      Tuner.called? settings (h.config.tiers.get l) l (t.hierarchy.tier l).capacity.value
        (s.recent ops l) := by
  intro s t
  have hs : ∀ l, s.tuner.marks.get l = s.hierarchy.counters.tiers.get l := fun l => rfl
  have hsettings : t.tuner.settings = settings := settings_run s ops
  have hconfig : t.hierarchy.config = h.config := config_run s ops
  have hwindow : ∀ l, t.tuner.window t.hierarchy l = s.recent ops l := fun l => window_eq hs ops l
  rw [Tuner.tune, Tuner.changes_tuneTiers _ _ (by decide), hsettings, hconfig]
  simp only [hwindow]

/-- From the creation of a tuner, in any state and over every run: the windows that a pass looks at
are the traffic since the pass before, whatever that one made of its windows, and a mark together
with what has come since is the counter. All windows together are the whole traffic. The changes of
a pass are those that this traffic calls for, at the capacities that the pass finds, so nothing else
of what has happened matters for them. -/
theorem windows_partition_traffic (h : Hierarchy K V) (settings : AutoTuneSettings) (now : Int)
    (ops : List (Operation K V)) :
    let s := start h settings now
    let t := (s.run ops).2
    Tuner.windows t.now Level.all t.tuner t.hierarchy =
      Level.all.map (fun l => (l, s.recent ops l)) ∧
    (∀ l, (t.tuner.marks.get l).plus (s.recent ops l) = t.hierarchy.counters.tiers.get l) ∧
    (∀ l, TierCounters.total l (s.windows (ops ++ [.tune])) = traffic l s ops ∧
      t.hierarchy.counters.tiers.get l = (h.counters.tiers.get l).plus (traffic l s ops)) ∧
    (t.tuner.tune t.hierarchy t.now).1 = Level.all.filterMap (fun l =>
      Tuner.called? settings (h.config.tiers.get l) l (t.hierarchy.tier l).capacity.value
        (s.recent ops l)) ∧
    ∀ (h' : Hierarchy K V) (now' : Int) (ops' : List (Operation K V)),
      let s' := start h' settings now'
      let t' := (s'.run ops').2
      h'.config = h.config → (∀ l, s'.recent ops' l = s.recent ops l) →
      (∀ l, (t'.hierarchy.tier l).capacity = (t.hierarchy.tier l).capacity) →
      (t'.tuner.tune t'.hierarchy t'.now).1 = (t.tuner.tune t.hierarchy t.now).1 := by
  intro s t
  have hs : ∀ l, s.tuner.marks.get l = s.hierarchy.counters.tiers.get l := fun l => rfl
  refine ⟨windows_pass hs ops, marks_plus_recent hs ops,
    fun l => ⟨?_, counters_run s ops l⟩, changes_pass h settings now ops, ?_⟩
  · have hlast : Operation.upToPass (ops ++ [.tune]) = ops ++ [.tune] :=
      Operation.upToPass_concat ops .tune
    rw [total_windows hs, hlast, traffic_concat_tune]
  · intro h' now' ops' s' t' hconfig hrecent hcapacity
    rw [changes_pass h settings now ops, changes_pass h' settings now' ops', hconfig]
    simp only [s', t', hrecent, hcapacity]
    rfl

/-- Two passes had too few samples before the hot tier serves most of its probes and grows. Another
run has these lookups and the capacities in common with it, but no key, entry or instant. -/
theorem windows_partition_traffic_of_elastic :
    let h := (elasticStart.run [.put 1 10, .get 1, .get 9]).2.hierarchy
    let settings : AutoTuneSettings := { minSamples := 5 }
    let ops : List (Operation Nat Nat) :=
      [.get 1, .tune, .advance 1, .get 1, .tune, .get 8] ++ List.replicate 9 (.get 1)
    let ops' : List (Operation Nat Nat) :=
      [.get 7, .get 7, .tune, .put 5 50] ++ List.replicate 9 (.get 5) ++ [.advance 6, .get 5]
    let s := start h settings 0
    let s' := start elasticStart.hierarchy settings 3
    let changes := fun t : Session Nat Nat => (t.tuner.tune t.hierarchy t.now).1
    TierCounters.total .hot (s.windows (ops ++ [.tune])) = ⟨12, 11⟩ ∧
      (∀ l, s'.recent ops' l = s.recent ops l) ∧
      (∀ l, ((s'.run ops').2.hierarchy.tier l).capacity =
        ((s.run ops).2.hierarchy.tier l).capacity) ∧
      changes (s'.run ops').2 = changes (s.run ops).2 ∧
      (changes (s.run ops).2).map CapacityChange.level = [.hot] ∧
      ∀ c ∈ changes (s.run ops).2, c.before = 1 ∧ c.hitRate = 0.9 := by
  intro h settings ops ops'
  dsimp only
  obtain ⟨-, -, htotal, hchanges, hsame⟩ := windows_partition_traffic h settings 0 ops
  have hrecent : ∀ l, (start elasticStart.hierarchy settings 3).recent ops' l =
      (start h settings 0).recent ops l := by
    intro l
    cases l <;> decide +kernel
  have hcapacity : ∀ l,
      (((start elasticStart.hierarchy settings 3).run ops').2.hierarchy.tier l).capacity =
        (((start h settings 0).run ops).2.hierarchy.tier l).capacity := by
    intro l
    cases l <;> decide +kernel
  have hconfig : elasticStart.hierarchy.config = h.config := by rw [config_run]
  have hmin : ∀ l,
      0 < (((start h settings 0).run ops).2.hierarchy.config.tiers.get l).minCapacity := by
    intro l
    rw [config_run, show (start h settings 0).hierarchy.config = _ from hconfig.symm]
    cases l <;> exact Nat.one_pos
  have hlevels : (((start h settings 0).run ops).2.tuner.tune
      ((start h settings 0).run ops).2.hierarchy ((start h settings 0).run ops).2.now).1.map
        CapacityChange.level = [.hot] :=
    (Tuner.levels_tune hmin).trans (by decide +kernel)
  refine ⟨(htotal .hot).1.trans (by decide +kernel), hrecent, hcapacity,
    hsame elasticStart.hierarchy 3 ops' hconfig hrecent hcapacity, hlevels, fun c hc => ?_⟩
  have hhot : c.level ∈ [Level.hot] := hlevels ▸ List.mem_map_of_mem hc
  rw [hchanges] at hc
  obtain ⟨l, -, hl⟩ := List.mem_filterMap.1 hc
  obtain ⟨hlevel, hbefore, hrate⟩ := Tuner.of_called? hl
  rw [hbefore, hrate, ← hlevel, List.mem_singleton.1 hhot]
  exact ⟨by decide +kernel, by decide +kernel⟩

end Session

end TieredCache
