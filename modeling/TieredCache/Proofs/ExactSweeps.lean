import TieredCache.KeyByKey
import TieredCache.Proofs.Insertions

/-!
# What a sweep removes

Taking out one key that is due leaves the others due and brings a sweep nearer to its end, whichever
key it was. So a sweep key by key ends where `Hierarchy.sweep` does, in all orders, and nothing is
due then. Residence is the same before and after the first of its two passes, since an expired entry
makes no key resident.
-/

namespace TieredCache

/-! ### One key after the other -/

/-- A step takes out its key if that is due, `whole` does so for all keys, and a single step is part
of it. -/
structure StepwiseRemoval {σ K : Type} [DecidableEq K] (I : σ → Prop) (due : σ → K → Bool)
    (step : σ → K → Bool × σ) (whole : σ → Nat × σ) : Prop where
  kept : ∀ {s} k, I s → I (step s k).2
  due_step : ∀ {s} k j, I s → due (step s k).2 j = (due s j && j ≠ k)
  absorbs : ∀ {s} k, I s → whole s =
    ((step s k).1.toNat + (whole (step s k).2).1, (whole (step s k).2).2)
  done : ∀ {s}, I s → (∀ k, due s k = false) → whole s = (0, s)

namespace StepwiseRemoval

variable {σ K : Type} [DecidableEq K] {I : σ → Prop} {due : σ → K → Bool}
  {step : σ → K → Bool × σ} {whole : σ → Nat × σ}

/-- Going through keys that include all that are due has the effect of `whole`, in any order and
with any repetitions. -/
theorem removeEach_eq (hstep : StepwiseRemoval I due step whole) {s : σ} (hs : I s)
    {keys : List K} (hkeys : ∀ k, due s k → k ∈ keys) : removeEach step keys s = whole s := by
  -- What the first step takes out is due no more, so that the rest of the keys suffices for it.
  induction keys generalizing s with
  | nil =>
    have hnone : ∀ k, due s k = false := by
      intro k
      rw [← Bool.not_eq_true]
      exact fun hk => List.not_mem_nil (hkeys k hk)
    rw [hstep.done hs hnone]
    rfl
  | cons k keys ih =>
    have hrest : ∀ j, due (step s k).2 j → j ∈ keys := by
      intro j hj
      rw [hstep.due_step k j hs, Bool.and_eq_true, decide_eq_true_iff] at hj
      exact (List.mem_cons.1 (hkeys j hj.1)).resolve_left hj.2
    rw [hstep.absorbs k hs, ← ih (hstep.kept k hs) hrest]
    rfl

end StepwiseRemoval

namespace Store

variable {K α : Type}

theorem eq_of_entries {s s' : Store K α} (h : s.entries = s'.entries) : s = s' := by
  cases s
  cases s'
  cases h
  rfl

variable [DecidableEq K] (s : Store K α) (p : K → α → Bool) (k : K)

theorem any_get?_erase (j : K) :
    ((s.erase k).get? j).any (p j) = ((s.get? j).any (p j) && j ≠ k) := by
  rw [get?_erase]
  by_cases hj : j = k <;> simp [hj]

theorem any_get?_removeIf (j : K) :
    ((s.removeIf p k).2.get? j).any (p j) = ((s.get? j).any (p j) && j ≠ k) := by
  rw [removeIf]
  split
  · exact s.any_get?_erase p k j
  · rename_i hk
    by_cases hj : j = k
    · subst hj
      simp [hk]
    · simp [hj]

/-- What is left in the end does not depend on what was taken out before. -/
theorem filter_removeIf :
    ((s.removeIf p k).2.filter fun j a => !p j a) = s.filter fun j a => !p j a := by
  rw [removeIf]
  split
  · rename_i hk
    apply eq_of_entries
    simp only [filter, erase, List.filter_filter]
    apply List.filter_congr
    rintro ⟨j, a⟩ he
    rw [mem_entries_iff] at he
    by_cases hj : j = k
    · subst hj
      rw [he, Option.any_some] at hk
      simp [hk]
    · simp [hj]
  · rfl

theorem count_removeIf :
    s.count p = (s.removeIf p k).1.toNat + (s.removeIf p k).2.count p := by
  rw [removeIf]
  split
  · rename_i hk
    obtain ⟨a, ha, hpa⟩ := (Option.any_eq_true _ _).1 hk
    rw [count, (s.entries_perm_erase ha).countP_eq, List.countP_cons, if_pos hpa, Nat.add_comm]
    rfl
  · exact (Nat.zero_add _).symm

variable {s p}

theorem filter_of_none (h : ∀ k, (s.get? k).any (p k) = false) :
    (s.filter fun j a => !p j a) = s ∧ s.count p = 0 := by
  have hentries : ∀ e ∈ s.entries, p e.1 e.2 = false := by
    rintro ⟨j, a⟩ he
    have hj := h j
    rw [mem_entries_iff] at he
    rwa [he] at hj
  constructor
  · apply eq_of_entries
    apply List.filter_eq_self.2
    intro e he
    simp only [hentries e he, Bool.not_false]
  · rw [count, List.countP_eq_zero]
    intro e he
    rw [hentries e he]
    exact Bool.false_ne_true

/-- What is left is not taken out by a second pass. -/
theorem any_get?_filter_not (s : Store K α) (p : K → α → Bool) (k : K) :
    ((s.filter fun j a => !p j a).get? k).any (p k) = false := by
  rw [get?_filter]
  cases s.get? k with
  | none => rfl
  | some a => cases hpa : p k a <;> simp [Option.filter_some, hpa]

theorem mem_keys_of_any (h : (s.get? k).any (p k)) : k ∈ s.keys := by
  rw [mem_keys_iff, contains]
  cases hk : s.get? k with
  | none =>
    rw [hk] at h
    exact absurd h Bool.false_ne_true
  | some a => rfl

end Store

namespace Tier

variable {K V : Type} [DecidableEq K] {t : Tier K V}

theorem expire_eq (t : Tier K V) (k : K) (now : Int) :
    t.expire now k =
      let removal := t.store.removeIf (fun _ e => e.expired t.ttl now) k
      (removal.1, { t with
        store := removal.2
        recency := if removal.1 then t.recency.erase k else t.recency
        expirations := t.expirations + removal.1.toNat }) := by
  rw [expire, Store.removeIf]
  cases (t.store.get? k).any fun e => e.expired t.ttl now <;> rfl

theorem isExpired_expire (t : Tier K V) (j k : K) (now : Int) :
    (t.expire now k).2.isExpired now j = (t.isExpired now j && j ≠ k) := by
  rw [expire_eq]
  exact t.store.any_get?_removeIf (fun _ e => e.expired t.ttl now) k j

theorem expire_of_not_expired {k : K} {now : Int} (h : t.isExpired now k = false) :
    t.expire now k = (false, t) := by
  have hkept : ((t.store.get? k).any fun e => e.expired t.ttl now) = false := h
  simp only [expire, Store.removeIf, hkept, Bool.false_eq_true, if_false]

theorem expire_of_expired {k : K} {now : Int} (h : t.isExpired now k = true) :
    t.expire now k = (true, { t.discard k with expirations := t.expirations + 1 }) := by
  have hdropped : ((t.store.get? k).any fun e => e.expired t.ttl now) = true := h
  simp only [expire, Store.removeIf, hdropped, if_true]
  rfl

theorem nodup_recency_expire (h : t.recency.Nodup) (k : K) (now : Int) :
    (t.expire now k).2.recency.Nodup := by
  cases hk : t.isExpired now k with
  | true =>
    rw [expire_of_expired hk]
    exact h.erase k
  | false =>
    rw [expire_of_not_expired hk]
    exact h

theorem purge_of_none_expired {now : Int} (h : ∀ k, t.isExpired now k = false) :
    t.purge now = (0, t) := by
  obtain ⟨hstore, hcount⟩ := Store.filter_of_none
    (p := fun _ (e : Entry V) => e.expired t.ttl now) h
  have hrecency : (t.recency.filter fun k => !t.isExpired now k) = t.recency := by
    apply List.filter_eq_self.2
    intro k _
    rw [h k]
    rfl
  simp only [purge, hstore, hcount, hrecency]
  rfl

theorem filter_recency_expire (h : t.recency.Nodup) (k : K) (now : Int) :
    ((t.expire now k).2.recency.filter fun j => !(t.expire now k).2.isExpired now j) =
      t.recency.filter fun j => !t.isExpired now j := by
  cases hk : t.isExpired now k with
  | true =>
    have hrecency : (t.expire now k).2.recency = t.recency.filter (· ≠ k) := by
      rw [expire_of_expired hk]
      exact erase_recency h k
    simp only [isExpired_expire]
    rw [hrecency, List.filter_filter]
    apply List.filter_congr
    intro j _
    by_cases hj : j = k
    · subst hj
      simp [hk]
    · simp [hj]
  | false => rw [expire_of_not_expired hk]

/-- A sweep of a tier goes on from where a single key has been dropped. -/
theorem purge_absorbs (h : t.recency.Nodup) (k : K) (now : Int) :
    t.purge now = ((t.expire now k).1.toNat + ((t.expire now k).2.purge now).1,
      ((t.expire now k).2.purge now).2) := by
  have hstore := t.store.filter_removeIf (fun _ e => e.expired t.ttl now) k
  have hcount := t.store.count_removeIf (fun _ e => e.expired t.ttl now) k
  have hrecency := filter_recency_expire h k now
  rw [expire_eq] at hrecency ⊢
  simp only [Tier.purge, hrecency, hstore, hcount, Nat.add_assoc]

theorem purge_stepwise (now : Int) : StepwiseRemoval (fun t : Tier K V => t.recency.Nodup)
    (fun t => t.isExpired now) (expire now) (fun t => t.purge now) where
  kept k h := nodup_recency_expire h k now
  due_step k j _ := isExpired_expire _ j k now
  absorbs k h := purge_absorbs h k now
  done _ hnone := purge_of_none_expired hnone

/-- The order in which the store lists its keys does not matter. -/
theorem purgeAlong_eq (h : t.recency.Nodup) {keys : List K} (hkeys : keys.Perm t.store.keys)
    (now : Int) : t.purgeAlong keys now = t.purge now := by
  apply (purge_stepwise now).removeEach_eq h
  intro k hk
  have hmem := Store.mem_keys_of_any (p := fun _ (e : Entry V) => e.expired t.ttl now) k hk
  exact List.mem_filter.2 ⟨hkeys.mem_iff.2 hmem, hk⟩

/-- The lookup of a key that is not found drops the same entry as a sweep. -/
theorem lookup_snd_eq_expire (t : Tier K V) (k : K) (now : Int) :
    (t.lookup k now).2 = (t.expire now k).2 := by
  rw [lookup, expire, Store.removeIf]
  cases t.store.get? k with
  | none => rfl
  | some e =>
    cases hage : e.expired t.ttl now <;> simp only [hage, Option.any_some] <;> rfl

theorem get?_purge_eq_some_iff (t : Tier K V) (k : K) (e : Entry V) (now : Int) :
    (t.purge now).2.store.get? k = some e ↔ t.store.get? k = some e ∧ e.age now ≤ t.ttl := by
  rw [purge, Store.get?_filter, Option.filter_eq_some_iff, Entry.expired]
  simp

theorem isExpired_purge (t : Tier K V) (k : K) (now : Int) :
    (t.purge now).2.isExpired now k = false :=
  t.store.any_get?_filter_not (fun _ e => e.expired t.ttl now) k

end Tier

namespace Tracker

variable {K : Type}

theorem size_prune (t : Tracker K) (staleness : Nat) (now : Int) (resident : K → Bool) :
    (t.prune staleness now resident).2.size + (t.prune staleness now resident).1 = t.size := by
  have hsplit := t.histories.entries.length_eq_countP_add_countP
    fun e => isStale staleness now resident e.1 e.2
  have hleft : (t.prune staleness now resident).2.size =
      t.histories.entries.countP fun e => !isStale staleness now resident e.1 e.2 :=
    List.countP_eq_length_filter.symm
  simp only [decide_not, Bool.decide_eq_true] at hsplit
  rw [hleft, Nat.add_comm]
  exact hsplit.symm

variable [DecidableEq K] {t : Tracker K} {staleness : Nat} {now : Int} {resident : K → Bool}

/-- Whether a key has a history that pruning drops. -/
def isDue (t : Tracker K) (staleness : Nat) (now : Int) (resident : K → Bool) (k : K) : Bool :=
  (t.get? k).any (isStale staleness now resident k)

theorem forget_eq (t : Tracker K) (k : K) : t.forget staleness now resident k =
    ((t.histories.removeIf (isStale staleness now resident) k).1,
      ⟨(t.histories.removeIf (isStale staleness now resident) k).2⟩) := by
  rw [forget, Store.removeIf, Store.removeIf]
  cases hk : resident k <;> cases t.histories.get? k <;> simp [isStale, hk]

theorem prune_stepwise (staleness : Nat) (now : Int) (resident : K → Bool) :
    StepwiseRemoval (fun _ : Tracker K => True) (fun t => t.isDue staleness now resident)
      (forget staleness now resident) (fun t => t.prune staleness now resident) where
  kept _ _ := trivial
  due_step {t} k j _ := by
    rw [forget_eq]
    exact t.histories.any_get?_removeIf (isStale staleness now resident) k j
  absorbs {t} k _ := by
    have hfilter := t.histories.filter_removeIf (isStale staleness now resident) k
    have hcount := t.histories.count_removeIf (isStale staleness now resident) k
    rw [forget_eq]
    simp only [prune, hfilter, hcount]
  done {t} _ hnone := by
    obtain ⟨hfilter, hcount⟩ := Store.filter_of_none (s := t.histories) hnone
    simp only [prune, hfilter, hcount]

theorem pruneAlong_eq (t : Tracker K) {keys : List K} (hkeys : keys.Perm t.histories.keys) :
    t.pruneAlong keys staleness now resident = t.prune staleness now resident := by
  apply (prune_stepwise staleness now resident).removeEach_eq trivial
  intro k hk
  have hmem := Store.mem_keys_of_any (p := isStale staleness now resident) k hk
  refine List.mem_filter.2 ⟨hkeys.mem_iff.2 hmem, ?_⟩
  obtain ⟨history, hhistory, hstale⟩ := (Option.any_eq_true _ _).1 hk
  rw [isStale, Bool.and_eq_true] at hstale
  exact (Option.any_eq_true _ _).2 ⟨history, hhistory, hstale.1⟩

end Tracker

namespace Hierarchy

variable {K V : Type} [DecidableEq K] {h : Hierarchy K V} {staleness : Nat} {now : Int}

theorem purgeAlong_eq (hindexed : ∀ l, (h.tier l).Indexed) {stored : PerLevel (List K)}
    (hstored : ∀ l, (stored.get l).Perm (h.tier l).store.keys) (now : Int) :
    h.purgeAlong stored now = h.purgeExpired now := by
  have htier : ∀ l, (h.tier l).purgeAlong (stored.get l) now = (h.tier l).purge now :=
    fun l => Tier.purgeAlong_eq (hindexed l).nodup (hstored l) now
  have hhot : h.tiers.hot.purgeAlong stored.hot now = h.tiers.hot.purge now := htier .hot
  have hwarm : h.tiers.warm.purgeAlong stored.warm now = h.tiers.warm.purge now := htier .warm
  have hcold : h.tiers.cold.purgeAlong stored.cold now = h.tiers.cold.purge now := htier .cold
  rw [purgeAlong, hhot, hwarm, hcold]
  rfl

/-- A sweep has the same effect in whatever orders the maps list their keys. -/
theorem sweepAlong_eq (hindexed : ∀ l, (h.tier l).Indexed) {stored : PerLevel (List K)}
    (hstored : ∀ l, (stored.get l).Perm (h.tier l).store.keys) {tracked : List K}
    (htracked : tracked.Perm h.tracker.histories.keys) (staleness : Nat) (now : Int) :
    h.sweepAlong stored tracked staleness now = h.sweep staleness now := by
  have hprune : (h.purgeExpired now).2.pruneAlong tracked staleness now =
      (h.purgeExpired now).2.pruneHistories staleness now := by
    have htracker : (h.purgeExpired now).2.tracker = h.tracker := rfl
    rw [pruneAlong, htracker, Tracker.pruneAlong_eq _ htracked]
    rfl
  rw [sweepAlong, purgeAlong_eq hindexed hstored]
  simp only [hprune]
  rfl

theorem tier_sweep (h : Hierarchy K V) (staleness : Nat) (now : Int) (l : Level) :
    (h.sweep staleness now).2.tier l = ((h.tier l).purge now).2 :=
  h.tier_purgeExpired now l

/-- Pruning finds the same keys resident as before the expired entries were dropped. -/
theorem prune_sweep (h : Hierarchy K V) (staleness : Nat) (now : Int) :
    ((h.sweep staleness now).1.pruned, (h.sweep staleness now).2.tracker) =
      h.tracker.prune staleness now fun k => h.contains k now := by
  have hresident : (fun k => (h.purgeExpired now).2.contains k now) = fun k => h.contains k now :=
    funext fun k => h.contains_purgeExpired k now
  rw [← hresident]
  rfl

theorem find?_sweep (h : Hierarchy K V) (staleness : Nat) (now : Int) (l : Level) (k : K) :
    ((h.sweep staleness now).2.tier l).find? k now = (h.tier l).find? k now := by
  rw [tier_sweep, Tier.find?_purge]

theorem contains_sweep (h : Hierarchy K V) (staleness : Nat) (k : K) (now : Int) :
    (h.sweep staleness now).2.contains k now = h.contains k now := by
  simp only [contains, Tier.contains, find?_sweep]

/-- What a sweep leaves of a hierarchy, and what it reports. -/
structure Swept (h h' : Hierarchy K V) (report : SweepReport) (staleness : Nat) (now : Int) :
    Prop where
  stored : ∀ l k e, (h'.tier l).store.get? k = some e ↔
    (h.tier l).store.get? k = some e ∧ e.age now ≤ (h.tier l).ttl
  order : ∀ l, (h'.tier l).recency = (h.tier l).recency.filter fun k =>
    ((h.tier l).store.get? k).any fun e => e.age now ≤ (h.tier l).ttl
  history : ∀ k, h'.tracker.get? k = (h.tracker.get? k).filter fun history =>
    history.idle now ≤ staleness || h.contains k now
  expired : h'.statistics.expirations = h.statistics.expirations + report.expired
  pruned : h'.tracker.size + report.pruned = h.tracker.size
  visible : ∀ k, h'.contains k now = h.contains k now ∧ (h'.get k now).1 = (h.get k now).1
  statistics : h'.statistics = { h.statistics with
    expirations := h'.statistics.expirations
    sizes := h'.statistics.sizes }
  others : h' = { h with tiers := h'.tiers, tracker := h'.tracker }

theorem swept_sweep (hindexed : ∀ l, (h.tier l).Indexed) (staleness : Nat) (now : Int) :
    h.Swept (h.sweep staleness now).2 (h.sweep staleness now).1 staleness now where
  stored l k e := by
    rw [tier_sweep, Tier.get?_purge_eq_some_iff]
  order l := by
    rw [tier_sweep, Tier.purge]
    apply List.filter_congr
    intro k hk
    obtain ⟨e, he⟩ := (hindexed l).exists_of_mem hk
    rw [Tier.isExpired, he, Option.any_some, Option.any_some, Entry.expired, ← decide_not]
    simp
  history k := by
    have htracker := congrArg Prod.snd (h.prune_sweep staleness now)
    simp only at htracker
    rw [htracker, Tracker.get?_prune]
    congr 1
    funext history
    simp only [Tracker.isStale, Bool.not_and, Bool.not_not, ← decide_not, Nat.not_lt]
  expired := by
    have hpurge : ∀ t : Tier K V, (t.purge now).2.expirations = t.expirations + (t.purge now).1 :=
      fun t => rfl
    simp only [statistics, sweep, pruneHistories, purgeExpired, PerLevel.map, PerLevel.sum, hpurge]
    omega
  pruned := by
    have hprune := h.prune_sweep staleness now
    have hsize := h.tracker.size_prune staleness now fun k => h.contains k now
    rw [← hprune] at hsize
    exact hsize
  visible k := by
    refine ⟨h.contains_sweep staleness k now, ?_⟩
    rw [get_fst, get_fst]
    simp only [find?_sweep]
  statistics := rfl
  others := rfl

theorem sweep_sweep (h : Hierarchy K V) (staleness : Nat) (now : Int) :
    (h.sweep staleness now).2.sweep staleness now = (⟨0, 0⟩, (h.sweep staleness now).2) := by
  have htier : ∀ l, ((h.sweep staleness now).2.tier l).purge now =
      (0, (h.sweep staleness now).2.tier l) := by
    intro l
    apply Tier.purge_of_none_expired
    intro k
    rw [tier_sweep, Tier.isExpired_purge]
  have hpurge : (h.sweep staleness now).2.purgeExpired now =
      (0, (h.sweep staleness now).2) := by
    have hhot := htier .hot
    have hwarm := htier .warm
    have hcold := htier .cold
    simp only [tier, PerLevel.get] at hhot hwarm hcold
    simp only [purgeExpired, PerLevel.map, hhot, hwarm, hcold]
    rfl
  have hprune : (h.sweep staleness now).2.pruneHistories staleness now =
      (0, (h.sweep staleness now).2) := by
    have htracker := congrArg Prod.snd (h.prune_sweep staleness now)
    simp only at htracker
    have hdone := (Tracker.prune_stepwise staleness now fun k => h.contains k now).done
      (s := (h.sweep staleness now).2.tracker) trivial fun k => by
        rw [htracker]
        exact h.tracker.histories.any_get?_filter_not _ k
    simp only [pruneHistories, contains_sweep, hdone]
  rw [sweep]
  simp only [hpurge, hprune]

end Hierarchy

namespace Session

variable {K V : Type} [DecidableEq K]

/-- After every run, at every instant and in whatever orders the maps list their keys: a sweep drops
the entries that have expired in their tier and then the histories that are idle and whose key no
tier holds, reports how many these were, and shows in no lookup. A second one changes nothing. -/
theorem sweep_exact {config : Config} {stripe : K → Nat} (s : Session K V)
    (hnew : Hierarchy.new config stripe = .ok s.hierarchy) (ops : List (Operation K V))
    (staleness : Nat) (now : Int) (stored : PerLevel (List K)) (tracked : List K)
    (hstored : ∀ l, (stored.get l).Perm ((s.run ops).2.hierarchy.tier l).store.keys)
    (htracked : tracked.Perm (s.run ops).2.hierarchy.tracker.histories.keys) :
    let h := (s.run ops).2.hierarchy
    let swept := h.sweepAlong stored tracked staleness now
    swept = h.sweep staleness now ∧ h.Swept swept.2 swept.1 staleness now ∧
    ∀ (stored : PerLevel (List K)) (tracked : List K),
      (∀ l, (stored.get l).Perm (swept.2.tier l).store.keys) →
      tracked.Perm swept.2.tracker.histories.keys →
      swept.2.sweepAlong stored tracked staleness now = (⟨0, 0⟩, swept.2) := by
  intro h swept
  have hconsistent := (sound_run hnew ops).consistent
  have hswept : swept = h.sweep staleness now :=
    Hierarchy.sweepAlong_eq (fun l => (hconsistent l).indexed) hstored htracked staleness now
  refine ⟨hswept, ?_, ?_⟩
  · rw [hswept]
    exact Hierarchy.swept_sweep (fun l => (hconsistent l).indexed) staleness now
  · intro stored' tracked' hstored' htracked'
    have hindexed : ∀ l, (swept.2.tier l).Indexed := by
      intro l
      rw [hswept, Hierarchy.tier_sweep]
      exact (hconsistent l).indexed.purge now
    rw [Hierarchy.sweepAlong_eq hindexed hstored' htracked', hswept, Hierarchy.sweep_sweep]

/-- Both keys have an expired entry. One of them is held all the same, since its value was loaded
anew, and keeps its history. -/
theorem sweep_exact_beside_load :
    let h := (narrowStart.run
      [.put 2 20, .put 1 10, .advance 11, .putSpeculative 1 11]).2.hierarchy
    let swept := h.sweepAlong ⟨[1], [2], [1]⟩ [2, 1] 3 11
    Hierarchy.new narrow (fun _ => 0) = .ok narrowStart.hierarchy ∧
      h.tracker.histories.keys = [1, 2] ∧ swept.1 = ⟨2, 1⟩ ∧
      h.Swept swept.2 swept.1 3 11 ∧ swept.2.contains 1 11 = true ∧
      swept.2.sweepAlong ⟨[], [], [1]⟩ [1] 3 11 = (⟨0, 0⟩, swept.2) := by
  intro h swept
  have hnew : Hierarchy.new narrow (fun _ => 0) = .ok narrowStart.hierarchy := rfl
  obtain ⟨-, hexact, hagain⟩ := sweep_exact narrowStart hnew
    [.put 2 20, .put 1 10, .advance 11, .putSpeculative 1 11] 3 11 ⟨[1], [2], [1]⟩ [2, 1]
    (by intro l; cases l <;> decide) (by decide)
  refine ⟨hnew, by decide, by decide, hexact, by decide, hagain _ _ ?_ (by decide)⟩
  intro l
  cases l <;> decide

end Session

end TieredCache
