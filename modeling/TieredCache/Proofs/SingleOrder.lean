import TieredCache.Proofs.TidyTiers

/-!
# Three tiers as one cache

With no bound on the frequency of hot keys, every access that is not idle for too long earns the
hottest tier. As long as all accesses are like that and no entry grows too old, the three tiers
cannot be told from one cache that keeps its entries in one list and drops the last one.
-/

namespace TieredCache

/-- A cache with its entries in one list, most recently touched first. -/
structure RecencyCache (K V : Type) where
  capacity : Nat
  entries : List (K × V)
  drops : Nat

namespace RecencyCache

variable {K V : Type}

def empty (capacity : Nat) : RecencyCache K V := ⟨capacity, [], 0⟩

variable [DecidableEq K]

def find? (c : RecencyCache K V) (k : K) : Option V :=
  (c.entries.find? fun p => p.1 = k).map Prod.snd

def without (c : RecencyCache K V) (k : K) : List (K × V) :=
  c.entries.filter fun p => p.1 ≠ k

def get (c : RecencyCache K V) (k : K) : Option V × RecencyCache K V :=
  match c.find? k with
  | some v => (some v, { c with entries := (k, v) :: c.without k })
  | none => (none, c)

/-- A write puts its entry first. If there are too many entries then, the last one is dropped. -/
def put (c : RecencyCache K V) (k : K) (v : V) : RecencyCache K V :=
  let entries := (k, v) :: c.without k
  if c.capacity < entries.length then
    { c with entries := entries.dropLast, drops := c.drops + 1 }
  else { c with entries }

def step (c : RecencyCache K V) : Operation K V → Answer V × RecencyCache K V
  | .get k =>
    let (v, c) := c.get k
    (.found v, c)
  | .put k v => (.done, c.put k v)
  | .contains k => (.truth (c.find? k).isSome, c)
  | .remove k => (.done, { c with entries := c.without k })
  | .clear => (.done, { c with entries := [] })
  | _ => (.done, c)

def run (c : RecencyCache K V) : List (Operation K V) → List (Answer V) × RecencyCache K V
  | [] => ([], c)
  | op :: rest =>
    let (answer, c) := c.step op
    let (answers, c) := c.run rest
    (answer :: answers, c)

/-- Whether the last entry is dropped or not, those are kept that fit. -/
theorem put_eq {c : RecencyCache K V} {k : K} (v : V) (hfits : (c.without k).length ≤ c.capacity) :
    c.put k v = ⟨c.capacity, ((k, v) :: c.without k).take c.capacity,
      c.drops + (((k, v) :: c.without k).length - c.capacity)⟩ := by
  rw [put]
  simp only [List.length_cons]
  split
  · have hlength : (c.without k).length + 1 - c.capacity = 1 := by omega
    have hlast : ((k, v) :: c.without k).length - 1 = c.capacity := by
      rw [List.length_cons]
      omega
    rw [List.dropLast_eq_take, hlast, hlength]
  · rename_i hroom
    rw [Nat.not_lt] at hroom
    rw [List.take_of_length_le hroom, Nat.sub_eq_zero_of_le hroom, Nat.add_zero]

end RecencyCache

theorem Migration.placement_record {K : Type} [DecidableEq K] (m : Migration) (t : Tracker K)
    (k : K) (now : Int) (hzero : m.hotMinFrequency = 0)
    (hidle : (t.get? k).all fun history => history.idle now ≤ m.hotRecency) :
    m.placement (t.record k now).1 now = .hot := by
  have hfrequency : m.hotMinFrequency < (t.record k now).1.frequency := by
    have hlimit : 0 < Tracker.frequencyLimit := by decide
    rw [hzero, Tracker.record]
    exact Nat.lt_min.2 ⟨Nat.succ_pos _, hlimit⟩
  have hrecent : (t.record k now).1.idle now ≤ m.hotRecency := by
    rw [Tracker.record]
    cases hbefore : t.get? k with
    | none =>
      have hgap : elapsed now now = 0 := by simp [elapsed]
      exact (Nat.le_of_eq hgap).trans (Nat.zero_le _)
    | some before =>
      rw [hbefore] at hidle
      exact of_decide_eq_true hidle
  rw [placement, if_pos ⟨hfrequency, hrecent⟩]

/-- One of the operations that the single cache has as well. -/
def Operation.isPlain {K V : Type} : Operation K V → Bool
  | .get _ | .put _ _ | .contains _ | .remove _ | .clear | .advance _ => true
  | _ => false

namespace Session

variable {K V : Type} [DecidableEq K]

/-- The key that an operation accesses. A lookup that finds nothing is no access. -/
def accessed? (s : Session K V) : Operation K V → Option K
  | .get k => if s.hierarchy.contains k s.now then some k else none
  | .put k _ => some k
  | _ => none

/-- Whether a plain operation happens while all entries are young, and accesses no key that has been
idle for longer than a hot key may be. -/
def isCalm (s : Session K V) (op : Operation K V) : Bool :=
  op.isPlain && s.hierarchy.isYoung s.now && (s.accessed? op).all fun k =>
    (s.hierarchy.tracker.get? k).all fun history =>
      history.idle s.now ≤ s.hierarchy.config.migration.hotRecency

def isCalmRun (s : Session K V) : List (Operation K V) → Bool
  | [] => true
  | op :: rest => s.isCalm op && (s.step op).2.isCalmRun rest

end Session

namespace Hierarchy

variable {K V : Type} [DecidableEq K]

theorem config_keptByWrites (now : Int) (config : Config) :
    KeptByWrites now fun (h : Hierarchy K V) _ => h.config = config where
  noted h tracker counters flight hh := hh
  lookedUp h l k hh := hh
  touched h l k hh := hh
  raised h source target k e _ _ hh := by
    rw [placed_eq]
    exact hh
  resized h l capacity hh := by
    rw [takeOver_eq]
    exact hh
  purged h hh := hh
  gone h k e rest hh := hh
  superseded h k e rest _ hh := hh
  lands h k e rest l _ _ hh := by
    rw [landed, takeOver_eq]
    exact hh
  written h l k v hh := by
    rw [placed_eq]
    exact hh
  loaded h k v _ hh := by
    rw [takeOver_eq]
    exact hh
  removed h k hh := hh
  cleared h hh := hh

/-- The list of all entries, and what has been given up, are those of a single cache. -/
structure Mirrors (h : Hierarchy K V) (c : RecencyCache K V) : Prop where
  room : h.room Level.all = c.capacity
  entries : (h.ordered Level.all).map (fun p => (p.1, p.2.value)) = c.entries
  drops : h.counters.evictions = c.drops

variable {h : Hierarchy K V} {c : RecencyCache K V} {now : Int}

theorem Mirrors.without (hc : h.Mirrors c) (k : K) :
    ((h.ordered Level.all).filter fun p => p.1 ≠ k).map (fun p => (p.1, p.2.value)) =
      c.without k := by
  rw [RecencyCache.without, ← hc.entries, List.filter_map]
  rfl

theorem Mirrors.find? (hc : h.Mirrors c) (hh : h.Tidy [] now) (k : K) :
    c.find? k = (h.located? k).map fun p => p.2.value := by
  have hfind := hh.find?_ordered k
  rw [RecencyCache.find?, ← hc.entries, List.find?_map]
  simp only [Function.comp_def, hfind, Option.map_map]

theorem put_of_hot {k : K} (v : V)
    (hhot : h.config.migration.placement (h.tracker.record k now).1 now = .hot) :
    h.put k v now =
      ({ h with tracker := (h.tracker.record k now).2 } : Hierarchy K V).insertAt .hot k ⟨v, now⟩
        now := by
  rw [Hierarchy.put]
  simp only [recordAccess, hhot]
  split
  · rename_i current _
    cases current <;> rfl
  · rfl

theorem Mirrors.put (hc : h.Mirrors c) (hh : h.Tidy [] now) {k : K} (v : V)
    (hhot : h.config.migration.placement (h.tracker.record k now).1 now = .hot) :
    (h.put k v now).Mirrors (c.put k v) := by
  have hwithout := hc.without k
  have hlength : (c.without k).length = ((h.ordered Level.all).filter fun p => p.1 ≠ k).length := by
    rw [← hwithout, List.length_map]
  have hfits : (c.without k).length ≤ c.capacity := by
    rw [hlength, ← hc.room]
    exact Nat.le_trans (List.length_filter_le _ _) (length_ordered_le hh.consistent Level.all)
  obtain ⟨hordered, hcount⟩ := (hh.noted (h.tracker.record k now).2 h.counters).insertAt_hot k
    fun l => Entry.not_expired_when_written v (h.tier l).ttl now
  rw [put_of_hot v hhot, RecencyCache.put_eq v hfits]
  constructor
  · rw [← hc.room]
    exact room_congr fun l _ => capacity_insertAt _ .hot l k ⟨v, now⟩ now
  · simp only [← hwithout, ← hc.room]
    rw [hordered, List.map_take, List.map_cons]
    rfl
  · rw [List.length_cons, hlength, ← hc.drops, ← hc.room]
    exact hcount

theorem Mirrors.get (hc : h.Mirrors c) (hh : h.Tidy [] now) {k : K}
    (hhot : h.contains k now →
      h.config.migration.placement (h.tracker.record k now).1 now = .hot) :
    (h.get k now).1 = (c.get k).1 ∧ (h.get k now).2.Mirrors (c.get k).2 := by
  have hfind := hc.find? hh k
  cases hk : h.located? k with
  | none =>
    rw [hk, Option.map_none] at hfind
    rw [hh.get_of_not_located hk, RecencyCache.get, hfind]
    exact ⟨rfl, hc.room, hc.entries, hc.drops⟩
  | some found =>
    obtain ⟨l, e⟩ := found
    have hcontains : h.contains k now := by rw [hh.contains_eq, hk]; rfl
    obtain ⟨hordered, hcount, hroom⟩ := hh.serve (stored_of_located? hk) (hhot hcontains)
    rw [hk, Option.map_some] at hfind
    rw [hh.get_of_located? hk, RecencyCache.get, hfind]
    refine ⟨rfl, hroom.trans hc.room, ?_, hcount.trans hc.drops⟩
    rw [hordered, List.map_cons, hc.without]

theorem Mirrors.remove (hc : h.Mirrors c) (hh : h.Tidy [] now) (k : K) :
    (h.remove k).Mirrors { c with entries := c.without k } := by
  have htier : ∀ l, (h.remove k).tier l = ((h.tier l).remove k).2 :=
    fun l => PerLevel.get_map _ h.tiers l
  have hordered : (h.remove k).ordered Level.all =
      (h.ordered Level.all).filter fun p => p.1 ≠ k := by
    rw [ordered, ordered, List.filter_flatMap]
    apply List.flatMap_congr
    intro l _
    rw [htier, (hh.consistent l).indexed.ordered_remove]
  refine ⟨?_, ?_, hc.drops⟩
  · rw [← hc.room]
    apply room_congr
    intro l _
    rw [htier, (Tier.remove_alike _ _).capacity]
  · rw [hordered, hc.without]

theorem Mirrors.clear (hc : h.Mirrors c) : h.clear.Mirrors { c with entries := [] } :=
  ⟨hc.room, rfl, hc.drops⟩

theorem Mirrors.keys (hc : h.Mirrors c) (hconsistent : ∀ l, (h.tier l).Consistent) :
    (h.tier .hot).recency ++ (h.tier .warm).recency ++ (h.tier .cold).recency =
      c.entries.map Prod.fst := by
  have hrecency := fun l => (hconsistent l).indexed.map_fst_ordered
  rw [← hc.entries, List.map_map, ordered, ← hrecency, ← hrecency, ← hrecency]
  simp only [Level.all, List.flatMap_cons, List.flatMap_nil, List.append_nil, List.map_append,
    List.append_assoc]
  rfl

theorem mirrors_new {config : Config} {stripe : K → Nat} (hnew : new config stripe = .ok h) :
    h.Mirrors (.empty (config.tiers.hot.capacity + config.tiers.warm.capacity +
      config.tiers.cold.capacity)) := by
  obtain ⟨capacities, hcapacity, rfl⟩ := eq_fresh_of_new hnew
  refine ⟨?_, rfl, rfl⟩
  rw [Hierarchy.room, ← Nat.add_zero (RecencyCache.capacity _)]
  simp only [Level.all, List.map_cons, List.map_nil, List.sum_cons, List.sum_nil, tier_fresh,
    Tier.empty, hcapacity, ← Nat.add_assoc]
  rfl

end Hierarchy

namespace Session

variable {K V : Type} [DecidableEq K]

theorem mirrors_step {s : Session K V} {c : RecencyCache K V} {op : Operation K V}
    (hsound : s.hierarchy.Sound s.now) (hzero : s.hierarchy.config.migration.hotMinFrequency = 0)
    (hcalm : s.isCalm op) (hc : s.hierarchy.Mirrors c) :
    (s.step op).1 = (c.step op).1 ∧ (s.step op).2.hierarchy.Mirrors (c.step op).2 := by
  rw [isCalm, Bool.and_eq_true, Bool.and_eq_true] at hcalm
  obtain ⟨⟨hplain, hyoung⟩, haccess⟩ := hcalm
  have htidy := hsound.tidy hyoung
  have hhot : ∀ k, s.accessed? op = some k → s.hierarchy.config.migration.placement
      (s.hierarchy.tracker.record k s.now).1 s.now = .hot := by
    intro k hk
    rw [hk] at haccess
    exact Migration.placement_record _ _ k s.now hzero haccess
  cases op with
  | get k =>
    obtain ⟨hanswer, hmirrors⟩ := hc.get htidy fun hcontains => hhot k (if_pos hcontains)
    exact ⟨congrArg Answer.found hanswer, hmirrors⟩
  | put k v => exact ⟨rfl, hc.put htidy v (hhot k rfl)⟩
  | contains k =>
    refine ⟨congrArg Answer.truth ?_, hc⟩
    rw [htidy.contains_eq, hc.find? htidy, Option.isSome_map]
  | remove k => exact ⟨rfl, hc.remove htidy k⟩
  | clear => exact ⟨rfl, hc.clear⟩
  | advance time => exact ⟨rfl, hc⟩
  | putSpeculative k v => exact absurd hplain Bool.false_ne_true
  | levelOf k => exact absurd hplain Bool.false_ne_true
  | resizeTier l capacity => exact absurd hplain Bool.false_ne_true
  | purgeExpired => exact absurd hplain Bool.false_ne_true
  | pruneHistories staleness => exact absurd hplain Bool.false_ne_true
  | sweep staleness => exact absurd hplain Bool.false_ne_true
  | tune => exact absurd hplain Bool.false_ne_true
  | loadAhead keys load => exact absurd hplain Bool.false_ne_true

theorem mirrors_run {s : Session K V} {c : RecencyCache K V} {ops : List (Operation K V)}
    (hsound : s.hierarchy.Sound s.now) (hzero : s.hierarchy.config.migration.hotMinFrequency = 0)
    (hcalm : s.isCalmRun ops) (hc : s.hierarchy.Mirrors c) :
    (s.run ops).1 = (c.run ops).1 ∧ (s.run ops).2.hierarchy.Mirrors (c.run ops).2 := by
  induction ops generalizing s c with
  | nil => exact ⟨rfl, hc⟩
  | cons op rest ih =>
    rw [isCalmRun, Bool.and_eq_true] at hcalm
    have hsound' := step_kept (P := fun now h _ => h.Sound now) Hierarchy.sound_keptByWrites
      Hierarchy.sound_later s op hsound
    have hconfig := step_kept (P := fun _ h _ => h.config = s.hierarchy.config)
      (fun now => Hierarchy.config_keptByWrites now s.hierarchy.config) (fun _ _ _ hh => hh) s op
      rfl
    obtain ⟨hanswer, hstep⟩ := mirrors_step hsound hzero hcalm.1 hc
    obtain ⟨hanswers, hrest⟩ := ih hsound' (by rw [hconfig, hzero]) hcalm.2 hstep
    exact ⟨List.cons_eq_cons.2 ⟨hanswer, hanswers⟩, hrest⟩

theorem isCalmRun_of_append {s : Session K V} {before after : List (Operation K V)}
    (hcalm : s.isCalmRun (before ++ after)) : s.isCalmRun before := by
  induction before generalizing s with
  | nil => rfl
  | cons op rest ih =>
    rw [List.cons_append, isCalmRun, Bool.and_eq_true] at hcalm
    rw [isCalmRun, Bool.and_eq_true]
    exact ⟨hcalm.1, ih hcalm.2⟩

/-- A calm run answers like one cache with room for as many entries as the three tiers together. At
each of its instants the tiers, hottest first, hold the keys of that cache in its order, and as many
entries have been evicted as that cache has dropped. -/
theorem tiers_form_single_cache {config : Config} {stripe : K → Nat} (s : Session K V)
    (hnew : Hierarchy.new config stripe = .ok s.hierarchy)
    (hzero : config.migration.hotMinFrequency = 0) (ops : List (Operation K V))
    (hcalm : s.isCalmRun ops) :
    let single : RecencyCache K V := .empty (config.tiers.hot.capacity +
      config.tiers.warm.capacity + config.tiers.cold.capacity)
    (s.run ops).1 = (single.run ops).1 ∧
    ∀ before after, ops = before ++ after →
      let h := (s.run before).2.hierarchy
      h.counters.evictions = (single.run before).2.drops ∧
      (h.tier .hot).recency ++ (h.tier .warm).recency ++ (h.tier .cold).recency =
        (single.run before).2.entries.map Prod.fst := by
  intro single
  have hsound := Hierarchy.sound_new hnew s.now
  have hstart := Hierarchy.mirrors_new hnew
  have hfrequency : s.hierarchy.config.migration.hotMinFrequency = 0 := by
    obtain ⟨capacities, -, hfresh⟩ := Hierarchy.eq_fresh_of_new hnew
    rw [hfresh]
    exact hzero
  refine ⟨(mirrors_run hsound hfrequency hcalm hstart).1, ?_⟩
  rintro before after rfl h
  -- The beginning of a calm run is a calm run.
  have hmirrors := (mirrors_run hsound hfrequency (isCalmRun_of_append hcalm) hstart).2
  exact ⟨hmirrors.drops, hmirrors.keys (sound_run hnew before).consistent⟩

/-- Three tiers with room for one entry each make up a cache of three. -/
theorem tiers_form_single_cache_of_three :
    let ops : List (Operation Nat Nat) := [.put 1 10, .put 2 20, .put 3 30, .get 1, .put 4 40,
      .contains 2, .get 3, .remove 4, .put 5 50]
    let single := (RecencyCache.empty 3 : RecencyCache Nat Nat).run ops
    Hierarchy.new narrow (fun _ => 0) = .ok narrowStart.hierarchy ∧
      narrow.migration.hotMinFrequency = 0 ∧ narrowStart.isCalmRun ops ∧
      (narrowStart.run ops).1 = single.1 ∧
      (narrowStart.run ops).2.hierarchy.counters.evictions = single.2.drops ∧
      single.2.drops = 1 ∧ single.2.entries.map Prod.fst = [5, 3, 1] := by
  intro ops single
  have hnew : Hierarchy.new narrow (fun _ => 0) = .ok narrowStart.hierarchy := rfl
  have hcalm : narrowStart.isCalmRun ops := by decide
  obtain ⟨hanswers, hafter⟩ := tiers_form_single_cache narrowStart hnew rfl ops hcalm
  exact ⟨hnew, rfl, hcalm, hanswers, (hafter ops [] (List.append_nil ops).symm).1, by decide,
    by decide⟩

end Session

end TieredCache
