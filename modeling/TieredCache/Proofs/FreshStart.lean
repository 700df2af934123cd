import TieredCache.Proofs.EntryPaths
import TieredCache.Proofs.LookupFunnel
import TieredCache.Proofs.MoveBalance
import TieredCache.Proofs.SingleOrder

/-!
# Clearing starts anew

A hierarchy can differ from another one by its past alone: by what it has counted before. No
operation looks at that, so the two answer alike from then on and count the same. Clearing leaves a
hierarchy that differs in this way from a new one with the same capacities. Open moves are no part
of a past, since none is left over from one.
-/

namespace TieredCache

namespace TierCounters

/-- What is counted in two periods. -/
def plus (c d : TierCounters) : TierCounters :=
  ⟨c.probes + d.probes, c.hits + d.hits⟩

theorem since_plus (c d past : TierCounters) : (c.plus past).since (d.plus past) = c.since d := by
  simp only [since, plus, Nat.add_sub_add_right]

end TierCounters

namespace Counters

/-- What is counted in two periods. -/
def plus (c d : Counters) : Counters where
  tiers := ⟨c.tiers.hot.plus d.tiers.hot, c.tiers.warm.plus d.tiers.warm,
    c.tiers.cold.plus d.tiers.cold⟩
  misses := c.misses + d.misses
  evictions := c.evictions + d.evictions
  demotions := c.demotions + d.demotions
  promotions := c.promotions + d.promotions
  prefetched := c.prefetched + d.prefetched

variable (c d past : Counters)

theorem get_plus (l : Level) :
    (c.plus past).tiers.get l = (c.tiers.get l).plus (past.tiers.get l) := by
  cases l <;> rfl

theorem since_plus : (c.plus past).since (d.plus past) = c.since d := by
  simp only [since, plus, TierCounters.since_plus, Nat.add_sub_add_right]

theorem hit_plus (l : Level) : (c.plus past).hit l = (c.hit l).plus past := by
  cases l <;>
    simp [hit, probe, plus, TierCounters.plus, Level.probed, PerLevel.modify, PerLevel.set,
      PerLevel.get, Nat.add_right_comm]

theorem miss_plus : (c.plus past).miss = c.miss.plus past := by
  simp [miss, probe, plus, TierCounters.plus, Level.all, PerLevel.modify, PerLevel.set,
    PerLevel.get, Nat.add_right_comm]

end Counters

namespace Tier

variable {K V : Type}

/-- The same tier, had some entries expired in it before. -/
def after (t : Tier K V) (n : Nat) : Tier K V :=
  { t with expirations := t.expirations + n }

@[simp] theorem capacity_after (t : Tier K V) (n : Nat) : (t.after n).capacity = t.capacity := rfl

@[simp] theorem ttl_after (t : Tier K V) (n : Nat) : (t.after n).ttl = t.ttl := rfl

@[simp] theorem store_after (t : Tier K V) (n : Nat) : (t.after n).store = t.store := rfl

@[simp] theorem recency_after (t : Tier K V) (n : Nat) : (t.after n).recency = t.recency := rfl

theorem clear_after (t : Tier K V) (n : Nat) : (t.after n).clear = t.clear.after n := rfl

end Tier

/-- The same displacement from a tier with a past. -/
def Displacement.after {K V : Type} (d : Displacement K V) (n : Nat) : Displacement K V :=
  { d with tier := d.tier.after n }

namespace Tier

variable {K V : Type} [DecidableEq K] (t : Tier K V) (n : Nat)

theorem contains_after (k : K) (now : Int) : (t.after n).contains k now = t.contains k now := rfl

theorem lookup_after (k : K) (now : Int) :
    (t.after n).lookup k now = ((t.lookup k now).1, (t.lookup k now).2.after n) := by
  rw [lookup, lookup, store_after]
  cases t.store.get? k with
  | none => rfl
  | some e =>
    cases hage : e.expired t.ttl now with
    | true => simp only [hage, if_true, discard, after, Nat.add_right_comm]
    | false => simp only [ttl_after, hage, Bool.false_eq_true, if_false]

theorem touch_after (k : K) : (t.after n).touch k = (t.touch k).after n := by
  rw [touch, touch, recency_after]
  split <;> rfl

theorem evict_after : (t.after n).evict = t.evict.after n := by
  rw [evict, evict, store_after, recency_after]
  cases leastRecent t.store t.recency.reverse with
  | mk victim newer => cases victim <;> rfl

theorem put_after (k : K) (e : Entry V) : (t.after n).put k e = (t.put k e).after n := by
  rw [put, put, evict_after, recency_after, capacity_after]
  by_cases hfull : k ∉ t.recency ∧ t.capacity.value ≤ t.recency.length
  · simp only [if_pos hfull]
    rfl
  · simp only [if_neg hfull]
    rfl

theorem remove_after (k : K) :
    (t.after n).remove k = ((t.remove k).1, (t.remove k).2.after n) := by
  rw [remove, remove, store_after]
  cases t.store.get? k <;> rfl

theorem evictTo_after (bound rounds : Nat) :
    evictTo bound rounds (t.after n) = (evictTo bound rounds t).after n := by
  induction rounds generalizing t with
  | zero => rfl
  | succ rounds ih =>
    rw [evictTo, evictTo, evict_after, recency_after]
    split
    · rfl
    · simp only [Displacement.after, ih]

theorem resize_after (capacity : Capacity) :
    (t.after n).resize capacity = (t.resize capacity).after n :=
  evictTo_after { t with capacity := capacity } n _ _

theorem purge_after (now : Int) :
    (t.after n).purge now = ((t.purge now).1, (t.purge now).2.after n) := by
  simp only [purge, after, isExpired, Nat.add_right_comm]

end Tier

/-- What a hierarchy still has of its past once it is empty. -/
structure Past where
  counters : Counters
  expirations : PerLevel Nat

namespace Hierarchy

variable {K V : Type} {past : Past} {h h' : Hierarchy K V}

/-- The first hierarchy is the second one with a past. -/
structure AfterPast (past : Past) (h h' : Hierarchy K V) : Prop where
  config : h.config = h'.config
  tier : ∀ l, h.tier l = (h'.tier l).after (past.expirations.get l)
  tracker : h.tracker = h'.tracker
  counters : h.counters = h'.counters.plus past.counters

namespace AfterPast

theorem ttl (hh : AfterPast past h h') (l : Level) : (h.tier l).ttl = (h'.tier l).ttl := by
  rw [hh.tier]
  rfl

theorem counted (hh : AfterPast past h h') {c c' : Counters} (hc : c = c'.plus past.counters) :
    AfterPast past { h with counters := c } { h' with counters := c' } :=
  ⟨hh.config, hh.tier, hh.tracker, hc⟩

theorem finishMove (hh : AfterPast past h h') (k : K) :
    AfterPast past (h.finishMove k) (h'.finishMove k) :=
  ⟨hh.config, hh.tier, hh.tracker, hh.counters⟩

theorem countEviction (hh : AfterPast past h h') :
    AfterPast past h.countEviction h'.countEviction := by
  apply hh.counted
  rw [hh.counters]
  simp only [Counters.plus, Nat.add_right_comm]

theorem countDemotion (hh : AfterPast past h h') :
    AfterPast past h.countDemotion h'.countDemotion := by
  apply hh.counted
  rw [hh.counters]
  simp only [Counters.plus, Nat.add_right_comm]

theorem setTier (hh : AfterPast past h h') {l : Level} {t t' : Tier K V}
    (ht : t = t'.after (past.expirations.get l)) :
    AfterPast past (h.setTier l t) (h'.setTier l t') where
  config := hh.config
  tier m := by
    rw [tier_setTier, tier_setTier]
    by_cases hm : m = l
    · rw [if_pos hm, if_pos hm, ht, hm]
    · rw [if_neg hm, if_neg hm, hh.tier]
  tracker := hh.tracker
  counters := hh.counters

theorem takeOver (hh : AfterPast past h h') {l : Level} {d d' : Displacement K V}
    (hd : d = d'.after (past.expirations.get l)) :
    AfterPast past (h.takeOver l d) (h'.takeOver l d') := by
  have hset := hh.setTier (l := l) (congrArg Displacement.tier hd)
  rw [takeOver_eq, takeOver_eq]
  exact ⟨hset.config, hset.tier, hset.tracker, hset.counters⟩

theorem clear (hh : AfterPast past h h') : AfterPast past h.clear h'.clear where
  config := hh.config
  tier l := by
    rw [tier_clear, tier_clear, hh.tier, Tier.clear_after]
  tracker := rfl
  counters := hh.counters

variable [DecidableEq K]

theorem contains (hh : AfterPast past h h') (k : K) (now : Int) :
    h.contains k now = h'.contains k now := by
  simp only [Hierarchy.contains, hh.tier, Tier.contains_after]

theorem levelOf? (hh : AfterPast past h h') (k : K) (now : Int) :
    h.levelOf? k now = h'.levelOf? k now := by
  simp only [Hierarchy.levelOf?, hh.tier, Tier.contains_after]

/-! ### Entries on the way -/

theorem put_tier (hh : AfterPast past h h') (l : Level) (k : K) (e : Entry V) :
    (h.tier l).put k e = ((h'.tier l).put k e).after (past.expirations.get l) := by
  rw [hh.tier, Tier.put_after]

theorem evicted_put (hh : AfterPast past h h') (l : Level) (k : K) (e : Entry V) :
    ((h.tier l).put k e).evicted = ((h'.tier l).put k e).evicted := by
  rw [hh.put_tier]
  rfl

theorem placed (hh : AfterPast past h h') (l : Level) (k : K) (e : Entry V) :
    AfterPast past (h.placed l k e) (h'.placed l k e) where
  config := by
    rw [placed_eq, placed_eq h']
    exact hh.config
  tier m := by
    rw [tier_placed, tier_placed]
    by_cases hm : m = l
    · rw [if_pos hm, if_pos hm, hh.put_tier, hm]
      rfl
    · rw [if_neg hm, if_neg hm, hh.tier, Tier.remove_after]
  tracker := by
    rw [placed_eq, placed_eq h']
    exact hh.tracker
  counters := by
    rw [counters_placed, counters_placed, hh.counters]

theorem landed (hh : AfterPast past h h') (l : Level) (k : K) (e : Entry V) :
    AfterPast past (h.landed l k e) (h'.landed l k e) :=
  (hh.countDemotion.takeOver (hh.put_tier l k e)).finishMove k

theorem foldl_settle (now : Int) (levels : List Level) (victims : List (K × Entry V))
    (hh : AfterPast past h h') :
    AfterPast past (victims.foldl (settle now levels) h) (victims.foldl (settle now levels) h') := by
  induction levels generalizing h h' victims with
  | nil =>
    induction victims generalizing h h' with
    | nil => exact hh
    | cons victim victims ih => exact ih (hh.countEviction.finishMove victim.1)
  | cons l colder ihlevels =>
    induction victims generalizing h h' with
    | nil => exact hh
    | cons victim victims ih =>
      obtain ⟨k, e⟩ := victim
      rw [List.foldl_cons, List.foldl_cons]
      apply ih
      rw [settle_cons, settle_cons, hh.ttl, hh.contains, hh.evicted_put]
      split
      · exact hh.countEviction.finishMove k
      · split
        · exact hh.finishMove k
        · exact ihlevels _ (hh.landed l k e)

theorem settleAll (hh : AfterPast past h h') (l : Level) (victims : List (K × Entry V))
    (now : Int) : AfterPast past (h.settleAll l victims now) (h'.settleAll l victims now) :=
  hh.foldl_settle now l.below victims

/-! ### Lookups -/

theorem lookup_tier (hh : AfterPast past h h') (l : Level) (k : K) (now : Int) :
    ((h.tier l).lookup k now).1 = ((h'.tier l).lookup k now).1 ∧
      AfterPast past (h.setTier l ((h.tier l).lookup k now).2)
        (h'.setTier l ((h'.tier l).lookup k now).2) := by
  have hlookup := (h'.tier l).lookup_after (past.expirations.get l) k now
  rw [← hh.tier] at hlookup
  rw [hlookup]
  exact ⟨rfl, hh.setTier rfl⟩

theorem probe (hh : AfterPast past h h') (k : K) (now : Int) (levels : List Level) :
    (probe k now levels h).1 = (probe k now levels h').1 ∧
      AfterPast past (probe k now levels h).2 (probe k now levels h').2 := by
  induction levels generalizing h h' with
  | nil => exact ⟨rfl, hh⟩
  | cons l colder ih =>
    obtain ⟨hfst, hset⟩ := hh.lookup_tier l k now
    rw [Hierarchy.probe, Hierarchy.probe]
    cases hfound : (h.tier l).lookup k now with
    | mk found t =>
      cases hfound' : (h'.tier l).lookup k now with
      | mk found' t' =>
        rw [hfound, hfound'] at hfst hset
        simp only at hfst
        subst hfst
        cases found with
        | some e => exact ⟨rfl, hset⟩
        | none => exact ih hset

theorem recordAccess (hh : AfterPast past h h') (k : K) (now : Int) :
    AfterPast past (h.recordAccess k now).2 (h'.recordAccess k now).2 :=
  ⟨hh.config, hh.tier, congrArg (fun t => (t.record k now).2) hh.tracker, hh.counters⟩

theorem served (hh : AfterPast past h h') (l : Level) (k : K) (now : Int) :
    AfterPast past (h.served l k now) (h'.served l k now) := by
  have htouched : AfterPast past (h.setTier l ((h.tier l).touch k))
      (h'.setTier l ((h'.tier l).touch k)) := by
    apply hh.setTier
    rw [hh.tier, Tier.touch_after]
  refine AfterPast.recordAccess (htouched.counted ?_) k now
  rw [htouched.counters, Counters.hit_plus]

theorem raised (hh : AfterPast past h h') (target : Level) (k : K) (e : Entry V) :
    AfterPast past (h.raised target k e) (h'.raised target k e) := by
  have hplaced := hh.placed target k e
  refine hplaced.counted ?_
  rw [hplaced.counters]
  simp only [Counters.plus, Nat.add_right_comm]

theorem promote (hh : AfterPast past h h') (k : K) (source target : Level) (now : Int) :
    AfterPast past (h.promote k source target now) (h'.promote k source target now) := by
  obtain ⟨hfst, hset⟩ := hh.lookup_tier source k now
  rw [Hierarchy.promote, Hierarchy.promote]
  cases hfound : (h.tier source).lookup k now with
  | mk found t =>
    cases hfound' : (h'.tier source).lookup k now with
    | mk found' t' =>
      rw [hfound, hfound'] at hfst hset
      simp only at hfst
      subst hfst
      cases found with
      | none => exact hset
      | some e =>
        simp only [place_eq, hset.ttl, hset.evicted_put]
        split
        · exact hset
        · exact (hset.raised target k e).settleAll target _ now

theorem serve (hh : AfterPast past h h') (k : K) (l : Level) (now : Int) :
    AfterPast past (h.serve k l now) (h'.serve k l now) := by
  have hserved := hh.served l k now
  rw [serve_eq, serve_eq, hh.config, hh.tracker]
  split
  · exact hserved
  · exact hserved.promote k l _ now

theorem get (hh : AfterPast past h h') (k : K) (now : Int) :
    (h.get k now).1 = (h'.get k now).1 ∧ AfterPast past (h.get k now).2 (h'.get k now).2 := by
  obtain ⟨hfound, hprobe⟩ := hh.probe k now Level.all
  rw [get_eq h, get_eq h', hfound]
  split
  · exact ⟨rfl, hprobe.serve k _ now⟩
  · refine ⟨rfl, hprobe.counted ?_⟩
    rw [hprobe.counters, Counters.miss_plus]

/-! ### Writes -/

theorem insertAt (hh : AfterPast past h h') (l : Level) (k : K) (e : Entry V) (now : Int) :
    AfterPast past (h.insertAt l k e now) (h'.insertAt l k e now) := by
  rw [Hierarchy.insertAt, Hierarchy.insertAt, place_eq, place_eq, hh.evicted_put]
  exact (hh.placed l k e).settleAll l _ now

theorem put (hh : AfterPast past h h') (k : K) (v : V) (now : Int) :
    AfterPast past (h.put k v now) (h'.put k v now) := by
  have hrecorded := hh.recordAccess k now
  rw [Hierarchy.put, Hierarchy.put]
  simp only [hrecorded.config, hrecorded.levelOf?]
  rw [Hierarchy.recordAccess, hh.tracker] at hrecorded ⊢
  exact hrecorded.insertAt _ k ⟨v, now⟩ now

theorem loaded (hh : AfterPast past h h') (k : K) (e : Entry V) :
    AfterPast past (h.loaded k e) (h'.loaded k e) := by
  have htaken := hh.takeOver (hh.put_tier .cold k e)
  refine htaken.counted ?_
  rw [htaken.counters]
  simp only [Counters.plus, Nat.add_right_comm]

theorem putSpeculative (hh : AfterPast past h h') (k : K) (v : V) (now : Int) :
    (h.putSpeculative k v now).1 = (h'.putSpeculative k v now).1 ∧
      AfterPast past (h.putSpeculative k v now).2 (h'.putSpeculative k v now).2 := by
  rw [putSpeculative_eq, putSpeculative_eq, hh.contains, hh.evicted_put]
  split
  · exact ⟨rfl, hh⟩
  · exact ⟨rfl, (hh.loaded k _).settleAll .cold _ now⟩

theorem loadAll (hh : AfterPast past h h') (load : K → LoadResult V) (keys : List K)
    (now : Int) : (h.loadAll load keys now).1 = (h'.loadAll load keys now).1 ∧
      AfterPast past (h.loadAll load keys now).2 (h'.loadAll load keys now).2 := by
  have hfold : ∀ (keys : List K) (report : PrefetchReport) (g g' : Hierarchy K V),
      AfterPast past g g' →
        (keys.foldl (loadOne load now) (report, g)).1 =
          (keys.foldl (loadOne load now) (report, g')).1 ∧
        AfterPast past (keys.foldl (loadOne load now) (report, g)).2
          (keys.foldl (loadOne load now) (report, g')).2 := by
    intro keys
    induction keys with
    | nil => exact fun report g g' hg => ⟨rfl, hg⟩
    | cons k keys ih =>
      intro report g g' hg
      rw [List.foldl_cons, List.foldl_cons, loadOne, loadOne]
      cases load k with
      | value v =>
        obtain ⟨hinserted, hput⟩ := hg.putSpeculative k v now
        simp only [hinserted]
        exact ih _ _ _ hput
      | absent => exact ih _ _ _ hg
      | failed => exact ih _ _ _ hg
  exact hfold keys {} h h' hh

/-! ### Removals, sweeps and changes of capacity -/

theorem remove (hh : AfterPast past h h') (k : K) :
    AfterPast past (h.remove k) (h'.remove k) where
  config := hh.config
  tier l := by
    rw [tier_remove, tier_remove, hh.tier, Tier.remove_after]
  tracker := congrArg (fun t => t.remove k) hh.tracker
  counters := hh.counters

theorem purgeExpired (hh : AfterPast past h h') (now : Int) :
    (h.purgeExpired now).1 = (h'.purgeExpired now).1 ∧
      AfterPast past (h.purgeExpired now).2 (h'.purgeExpired now).2 := by
  have hpurge : ∀ l, (h.tier l).purge now = (((h'.tier l).purge now).1,
      ((h'.tier l).purge now).2.after (past.expirations.get l)) := by
    intro l
    rw [hh.tier, Tier.purge_after]
  constructor
  · have hhot := congrArg Prod.fst (hpurge .hot)
    have hwarm := congrArg Prod.fst (hpurge .warm)
    have hcold := congrArg Prod.fst (hpurge .cold)
    exact congrArg₂ (· + ·) (congrArg₂ (· + ·) hhot hwarm) hcold
  · refine ⟨hh.config, fun l => ?_, hh.tracker, hh.counters⟩
    rw [tier_purgeExpired, tier_purgeExpired, hpurge]

theorem pruneHistories (hh : AfterPast past h h') (staleness : Nat) (now : Int) :
    (h.pruneHistories staleness now).1 = (h'.pruneHistories staleness now).1 ∧
      AfterPast past (h.pruneHistories staleness now).2 (h'.pruneHistories staleness now).2 := by
  have hprune : h.tracker.prune staleness now (fun k => h.contains k now) =
      h'.tracker.prune staleness now fun k => h'.contains k now := by
    simp only [hh.tracker, hh.contains]
  rw [Hierarchy.pruneHistories, Hierarchy.pruneHistories, hprune]
  exact ⟨rfl, hh.config, hh.tier, rfl, hh.counters⟩

theorem sweep (hh : AfterPast past h h') (staleness : Nat) (now : Int) :
    (h.sweep staleness now).1 = (h'.sweep staleness now).1 ∧
      AfterPast past (h.sweep staleness now).2 (h'.sweep staleness now).2 := by
  obtain ⟨hexpired, hpurged⟩ := hh.purgeExpired now
  obtain ⟨hpruned, hswept⟩ := hpurged.pruneHistories staleness now
  exact ⟨by simp only [Hierarchy.sweep, hexpired, hpruned], hswept⟩

theorem resizeTier (hh : AfterPast past h h') (l : Level) (capacity : Capacity) (now : Int) :
    (h.resizeTier l capacity now).1 = (h'.resizeTier l capacity now).1 ∧
      AfterPast past (h.resizeTier l capacity now).2 (h'.resizeTier l capacity now).2 := by
  have hresize : (h.tier l).resize capacity =
      ((h'.tier l).resize capacity).after (past.expirations.get l) := by
    rw [hh.tier, Tier.resize_after]
  have hevicted : ((h.tier l).resize capacity).evicted =
      ((h'.tier l).resize capacity).evicted := by
    rw [hresize]
    rfl
  rw [Hierarchy.resizeTier, Hierarchy.resizeTier, hevicted]
  exact ⟨rfl, (hh.takeOver hresize).settleAll l _ now⟩

end AfterPast

end Hierarchy

/-! ### The tuner -/

namespace Tuner

variable {K V : Type} {past : Past} {u u' : Tuner}

/-- The first tuner has the window of the second one, with a past before it. -/
structure AfterPast (past : Past) (u u' : Tuner) : Prop where
  settings : u.settings = u'.settings
  marks : ∀ l, u.marks.get l = (u'.marks.get l).plus (past.counters.tiers.get l)

variable [DecidableEq K] {h h' : Hierarchy K V}

theorem AfterPast.tuneTier (hu : AfterPast past u u') (hh : h.AfterPast past h') (l : Level)
    (now : Int) :
    (u.tuneTier h l now).1 = (u'.tuneTier h' l now).1 ∧
      AfterPast past (u.tuneTier h l now).2.1 (u'.tuneTier h' l now).2.1 ∧
      (u.tuneTier h l now).2.2.AfterPast past (u'.tuneTier h' l now).2.2 := by
  have hcounters : h.counters.tiers.get l =
      (h'.counters.tiers.get l).plus (past.counters.tiers.get l) := by
    rw [hh.counters, Counters.get_plus]
  have hwindow : (h.counters.tiers.get l).since (u.marks.get l) =
      (h'.counters.tiers.get l).since (u'.marks.get l) := by
    rw [hcounters, hu.marks, TierCounters.since_plus]
  have hmarked : AfterPast past { u with marks := u.marks.set l (h.counters.tiers.get l) }
      { u' with marks := u'.marks.set l (h'.counters.tiers.get l) } := by
    refine ⟨hu.settings, fun m => ?_⟩
    by_cases hm : m = l
    · rw [hm, PerLevel.get_set_self, PerLevel.get_set_self, hcounters]
    · rw [PerLevel.get_set_of_ne _ _ hm, PerLevel.get_set_of_ne _ _ hm, hu.marks]
  rw [Tuner.tuneTier, Tuner.tuneTier]
  simp only [hwindow, hu.settings, hh.config, hh.tier, Tier.capacity_after]
  simp only [hu.settings] at hmarked
  split
  · exact ⟨rfl, hmarked, hh⟩
  · generalize Option.bind _ Capacity.ofNat? = target
    cases target with
    | none => exact ⟨rfl, hmarked, hh⟩
    | some after => exact ⟨rfl, hmarked, (hh.resizeTier l after now).2⟩

theorem AfterPast.tuneTiers (hu : AfterPast past u u') (hh : h.AfterPast past h') (now : Int)
    (levels : List Level) :
    (tuneTiers now levels u h).1 = (tuneTiers now levels u' h').1 ∧
      AfterPast past (tuneTiers now levels u h).2.1 (tuneTiers now levels u' h').2.1 ∧
      (tuneTiers now levels u h).2.2.AfterPast past (tuneTiers now levels u' h').2.2 := by
  induction levels generalizing u u' h h' with
  | nil => exact ⟨rfl, hu, hh⟩
  | cons l rest ih =>
    obtain ⟨hchange, hmarked, hresized⟩ := hu.tuneTier hh l now
    obtain ⟨hchanges, hlast⟩ := ih hmarked hresized
    rw [Tuner.tuneTiers, Tuner.tuneTiers]
    exact ⟨by simp only [hchange, hchanges], hlast⟩

end Tuner

/-! ### Runs -/

namespace Session

variable {K V : Type}

/-- The first session is the second one with a past. If there are passes of the tuner to come, its
window has begun with the present. -/
structure AfterPast (past : Past) (tuned : Prop) (s s' : Session K V) : Prop where
  hierarchy : s.hierarchy.AfterPast past s'.hierarchy
  now : s.now = s'.now
  tuner : tuned → s.tuner.AfterPast past s'.tuner

variable [DecidableEq K] {past : Past} {tuned : Prop} {s s' : Session K V}

theorem AfterPast.step (hs : AfterPast past tuned s s') (op : Operation K V)
    (hop : op = .tune → tuned) :
    (s.step op).1 = (s'.step op).1 ∧ AfterPast past tuned (s.step op).2 (s'.step op).2 := by
  obtain ⟨h, u, now⟩ := s
  obtain ⟨h', u', now'⟩ := s'
  obtain ⟨hh, hnow, htuner⟩ := hs
  obtain rfl : now = now' := hnow
  cases op with
  | get k =>
    obtain ⟨hfound, hget⟩ := hh.get k now
    exact ⟨congrArg Answer.found hfound, hget, rfl, htuner⟩
  | put k v => exact ⟨rfl, hh.put k v now, rfl, htuner⟩
  | putSpeculative k v =>
    obtain ⟨hwritten, hput⟩ := hh.putSpeculative k v now
    exact ⟨congrArg Answer.truth hwritten, hput, rfl, htuner⟩
  | remove k => exact ⟨rfl, hh.remove k, rfl, htuner⟩
  | clear => exact ⟨rfl, hh.clear, rfl, htuner⟩
  | contains k => exact ⟨congrArg Answer.truth (hh.contains k now), hh, rfl, htuner⟩
  | levelOf k => exact ⟨congrArg Answer.level (hh.levelOf? k now), hh, rfl, htuner⟩
  | resizeTier l capacity =>
    obtain ⟨hcount, hresized⟩ := hh.resizeTier l capacity now
    exact ⟨congrArg Answer.count hcount, hresized, rfl, htuner⟩
  | purgeExpired =>
    obtain ⟨hcount, hpurged⟩ := hh.purgeExpired now
    exact ⟨congrArg Answer.count hcount, hpurged, rfl, htuner⟩
  | pruneHistories staleness =>
    obtain ⟨hcount, hpruned⟩ := hh.pruneHistories staleness now
    exact ⟨congrArg Answer.count hcount, hpruned, rfl, htuner⟩
  | sweep staleness =>
    obtain ⟨hreport, hswept⟩ := hh.sweep staleness now
    exact ⟨congrArg Answer.swept hreport, hswept, rfl, htuner⟩
  | tune =>
    obtain ⟨hchanges, hmarked, htuned⟩ := (htuner (hop rfl)).tuneTiers hh now Level.all
    exact ⟨congrArg Answer.tuned hchanges, htuned, rfl, fun _ => hmarked⟩
  | loadAhead keys load =>
    obtain ⟨hreport, hloaded⟩ := hh.loadAll load keys now
    exact ⟨congrArg Answer.loaded hreport, hloaded, rfl, htuner⟩
  | advance time => exact ⟨rfl, hh, rfl, htuner⟩

theorem AfterPast.run (hs : AfterPast past tuned s s') (ops : List (Operation K V))
    (hops : .tune ∈ ops → tuned) :
    (s.run ops).1 = (s'.run ops).1 ∧ AfterPast past tuned (s.run ops).2 (s'.run ops).2 := by
  induction ops generalizing s s' with
  | nil => exact ⟨rfl, hs⟩
  | cons op rest ih =>
    obtain ⟨hanswer, hstep⟩ := hs.step op fun hop => hops (hop ▸ List.mem_cons_self)
    obtain ⟨hanswers, hrun⟩ := ih hstep fun hrest => hops (List.mem_cons_of_mem op hrest)
    rw [run_cons, run_cons, hanswer, hanswers]
    exact ⟨rfl, hrun⟩

end Session

/-! ### Empty hierarchies -/

namespace Hierarchy

variable {K V : Type}

theorem level_setTier {h : Hierarchy K V} (hh : ∀ m, (h.tier m).level = m) {l : Level}
    {t : Tier K V} (ht : t.level = (h.tier l).level) (m : Level) :
    ((h.setTier l t).tier m).level = m := by
  rw [tier_setTier]
  by_cases hm : m = l
  · rw [if_pos hm, ht, hh, hm]
  · rw [if_neg hm, hh]

/-- Whether a configuration is accepted does not depend on how keys are spread over stripes. -/
theorem new_of_new {config : Config} {stripe : K → Nat} {h : Hierarchy K V}
    (hnew : new config stripe = .ok h) (stripe' : K → Nat) :
    new config stripe' = .ok { h with stripe := stripe' } := by
  rw [new] at hnew ⊢
  obtain ⟨_, hvalid, hnew⟩ := Except.bind_eq_ok hnew
  obtain ⟨hot, hhot, hnew⟩ := Except.bind_eq_ok hnew
  obtain ⟨warm, hwarm, hnew⟩ := Except.bind_eq_ok hnew
  obtain ⟨cold, hcold, hnew⟩ := Except.bind_eq_ok hnew
  obtain rfl := Except.ok.inj hnew
  rw [hvalid, hhot, hwarm, hcold]
  rfl

variable [DecidableEq K]

theorem level_placed {h : Hierarchy K V} (hh : ∀ m, (h.tier m).level = m) (l : Level) (k : K)
    (e : Entry V) (m : Level) : ((h.placed l k e).tier m).level = m := by
  rw [tier_placed]
  by_cases hm : m = l
  · rw [if_pos hm, (Tier.put_alike _ k e).level, hh, hm]
  · rw [if_neg hm, (Tier.remove_alike _ k).level, hh]

theorem level_keptByWrites (now : Int) :
    KeptByWrites now fun (h : Hierarchy K V) _ => ∀ l, (h.tier l).level = l where
  noted h tracker counters flight hh := hh
  lookedUp h l k hh := by
    apply level_setTier hh
    rw [Tier.lookup]
    split
    · rfl
    · split <;> rfl
  touched h l k hh := level_setTier hh ((h.tier l).touch_alike k).level
  raised h source target k e _ _ hh := level_placed hh target k e
  resized h l capacity hh := by
    rw [takeOver_eq]
    exact level_setTier hh ((h.tier l).resize_alike capacity).level
  purged h hh l := by
    rw [tier, PerLevel.get_map]
    exact hh l
  gone h k e rest hh := hh
  superseded h k e rest _ hh := hh
  lands h k e rest l _ _ hh := by
    rw [landed, takeOver_eq]
    exact level_setTier hh ((h.tier l).put_alike k e).level
  written h l k v hh := level_placed hh l k ⟨v, now⟩
  loaded h k v _ hh := by
    rw [takeOver_eq]
    exact level_setTier hh ((h.tier .cold).put_alike k ⟨v, now⟩).level
  removed h k hh l := by
    rw [tier, PerLevel.get_map, (Tier.remove_alike _ k).level]
    exact hh l
  cleared h hh l := by
    rw [tier, PerLevel.get_map]
    exact hh l

end Hierarchy

namespace Session

variable {K V : Type} [DecidableEq K]

/-- The capacities of the tiers, as operations that set them. -/
def resizes (h : Hierarchy K V) : List (Operation K V) :=
  Level.all.map fun l => .resizeTier l (h.tier l).capacity

/-- Nothing has to leave an empty tier. -/
theorem run_resizes (config : Config) (stripe : K → Nat) (capacities : PerLevel Capacity)
    (settings : AutoTuneSettings) (now : Int) (h : Hierarchy K V) :
    ((start (.fresh config stripe capacities) settings now).run (resizes h)).2 =
      start (.fresh config stripe (h.tiers.map Tier.capacity)) settings now := rfl

/-- What is left of a run once the cache is cleared. -/
def past (s : Session K V) : Past where
  counters := s.hierarchy.counters
  expirations := s.hierarchy.tiers.map Tier.expirations

theorem afterPast_clear {config : Config} {stripe : K → Nat} {s : Session K V}
    (hnew : Hierarchy.new config stripe = .ok s.hierarchy) (ops : List (Operation K V))
    (stripe' : K → Nat) :
    (s.run ops).2.hierarchy.clear.AfterPast (s.run ops).2.past
      (.fresh config stripe' ((s.run ops).2.hierarchy.tiers.map Tier.capacity)) := by
  obtain ⟨capacities, -, hfresh⟩ := Hierarchy.eq_fresh_of_new hnew
  constructor
  case config =>
    exact run_kept (P := fun _ h _ => h.config = config)
      (fun now => Hierarchy.config_keptByWrites now config) (fun _ _ _ hh => hh) s ops
      (by rw [hfresh]; rfl)
  case tier =>
    intro l
    have hlevel : ((s.run ops).2.hierarchy.tier l).level = l :=
      run_kept (P := fun _ h _ => ∀ l, (h.tier l).level = l) Hierarchy.level_keptByWrites
        (fun _ _ _ hh => hh) s ops (fun m => by rw [hfresh, Hierarchy.tier_fresh]; rfl) l
    have httl : ((s.run ops).2.hierarchy.tier l).ttl = (config.tiers.get l).ttl := by
      rw [ttl_run, hfresh, Hierarchy.tier_fresh]
      rfl
    rw [Hierarchy.tier_clear, Hierarchy.tier_fresh, Tier.clear, Tier.empty, Tier.after, past,
      PerLevel.get_map, PerLevel.get_map, hlevel, httl, Nat.zero_add]
    rfl
  case tracker => rfl
  case counters =>
    simp [Hierarchy.clear, Hierarchy.fresh, Counters.plus, past, TierCounters.plus,
      PerLevel.replicate]

/-- After clearing, a run answers as it does after the start of a new cache with the same
capacities, ends with the same sizes, capacities and histories, and counts the same. If it contains
passes of the tuner, the window of the tuner has to start anew as well. No lookup finds a move open
that it would have to wait for. -/
theorem clear_starts_anew {config : Config} {stripe : K → Nat} (s : Session K V)
    (hnew : Hierarchy.new config stripe = .ok s.hierarchy) (stripe' : K → Nat)
    (before ops : List (Operation K V))
    (htune : .tune ∈ ops →
      (s.run before).2.tuner.marks = (s.run before).2.hierarchy.counters.tiers) :
    let t := ((s.run before).2.step .clear).2
    let u := (t.run ops).2
    ∃ h', Hierarchy.new config stripe' = .ok h' ∧
      let t' := ((start h' t.tuner.settings t.now).run (resizes t.hierarchy)).2
      let u' := (t'.run ops).2
      (t.run ops).1 = (t'.run ops).1 ∧
      (∀ l, (u.hierarchy.tier l).size = (u'.hierarchy.tier l).size ∧
        (u.hierarchy.tier l).capacity = (u'.hierarchy.tier l).capacity ∧
        (u.hierarchy.tier l).expirations - (t.hierarchy.tier l).expirations =
          (u'.hierarchy.tier l).expirations - (t'.hierarchy.tier l).expirations) ∧
      u.hierarchy.counters.since t.hierarchy.counters =
        u'.hierarchy.counters.since t'.hierarchy.counters ∧
      u.hierarchy.tracker = u'.hierarchy.tracker ∧
      ∀ i, u.hierarchy.moves.openOn i = 0 ∧ u'.hierarchy.moves.openOn i = 0 := by
  intro t u
  obtain ⟨capacities, -, hfresh⟩ := Hierarchy.eq_fresh_of_new hnew
  have hnew' : Hierarchy.new config stripe' =
      .ok (.fresh config stripe' capacities : Hierarchy K V) := by
    rw [Hierarchy.new_of_new hnew stripe', hfresh]
    rfl
  refine ⟨_, hnew', ?_⟩
  intro t' u'
  have hclear := afterPast_clear hnew before stripe'
  have hstart : AfterPast (s.run before).2.past (.tune ∈ ops) t t' := by
    rw [show t' = _ from run_resizes config stripe' capacities _ _ _]
    refine ⟨hclear, rfl, fun htuned => ⟨rfl, fun l => ?_⟩⟩
    have hmarks := (htune htuned).trans (congrArg Counters.tiers hclear.counters)
    rw [show t.tuner.marks = _ from hmarks, Counters.get_plus]
    rfl
  obtain ⟨hanswers, hend⟩ := hstart.run ops id
  have hopen : ∀ i, u.hierarchy.moves.openOn i = 0 := by
    have hbalanced := balanced_run hnew (before ++ .clear :: ops)
    rw [run_append, run_cons] at hbalanced
    exact hbalanced.openOn
  have hopen' : ∀ i, u'.hierarchy.moves.openOn i = 0 := by
    have hbalanced := balanced_run (s := start (.fresh config stripe' capacities)
      t.tuner.settings t.now) hnew' (resizes t.hierarchy ++ ops)
    rw [run_append] at hbalanced
    exact hbalanced.openOn
  refine ⟨hanswers, fun l => ?_, ?_, hend.hierarchy.tracker, fun i => ⟨hopen i, hopen' i⟩⟩
  · rw [hend.hierarchy.tier, hstart.hierarchy.tier]
    exact ⟨rfl, rfl, Nat.add_sub_add_right _ _ _⟩
  · rw [hend.hierarchy.counters, hstart.hierarchy.counters, Counters.since_plus]

/-- A cache with a larger hot tier, an expired entry and misses in its past. -/
theorem clear_starts_anew_after_pass :
    let before : List (Operation Nat Nat) := [.resizeTier .hot ⟨2, by decide⟩, .put 1 10,
      .put 2 20, .put 3 30, .advance 6, .get 2, .get 9, .tune]
    let ops : List (Operation Nat Nat) := [.put 4 40, .put 5 50, .put 6 60, .get 4, .get 9, .tune]
    let t := ((narrowStart.run before).2.step .clear).2
    Hierarchy.new narrow (fun _ => 0) = .ok narrowStart.hierarchy ∧
      (narrowStart.run before).2.tuner.marks = (narrowStart.run before).2.hierarchy.counters.tiers ∧
      (t.hierarchy.tier .hot).expirations = 1 ∧ t.hierarchy.counters.misses = 2 ∧
      (t.run ops).2.hierarchy.counters.misses = 3 ∧
      ∃ h', Hierarchy.new narrow (fun k => k) = .ok h' ∧
        let t' := ((start h' t.tuner.settings t.now).run (resizes t.hierarchy)).2
        (t.run ops).1 = (t'.run ops).1 := by
  intro before ops t
  have hnew : Hierarchy.new narrow (fun _ => 0) = .ok narrowStart.hierarchy := rfl
  have hmarks : (narrowStart.run before).2.tuner.marks =
      (narrowStart.run before).2.hierarchy.counters.tiers := by decide +kernel
  obtain ⟨h', hnew', hanswers, -⟩ := clear_starts_anew narrowStart hnew
    (fun k => k) before ops fun _ => hmarks
  refine ⟨hnew, hmarks, ?_, ?_, ?_, h', hnew', hanswers⟩
  all_goals decide +kernel

end Session

end TieredCache
