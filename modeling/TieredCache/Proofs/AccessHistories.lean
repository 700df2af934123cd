import TieredCache.Proofs.Bookkeeping

/-!
# Histories are what a run has accessed

A history outlives the entries of its key and is forgotten by three operations, one of which looks at
the tiers. `Session.accessTimes` goes through a run and keeps the instants of the puts and hits of a
key since it was last forgotten. The tracker has counted them and knows the last one.
-/

namespace TieredCache

/-- The history that is left by accesses at some instants, the latest first. -/
def History.ofTimes : List Int → Option History
  | [] => none
  | last :: earlier => some ⟨min (earlier.length + 1) Tracker.frequencyLimit, last⟩

namespace Tracker

variable {K : Type} [DecidableEq K]

/-- Counting stops at the limit after each access, and so it does after all of them. -/
theorem get?_record_ofTimes {t : Tracker K} {k : K} {times : List Int}
    (hk : t.get? k = History.ofTimes times) (now : Int) :
    (t.record k now).2.get? k = History.ofTimes (now :: times) := by
  rw [get?_record_self, record, hk]
  cases times with
  | nil => rfl
  | cons last earlier =>
    have hmin : min (min (earlier.length + 1) frequencyLimit + 1) frequencyLimit =
        min (earlier.length + 1 + 1) frequencyLimit := by omega
    simp only [History.ofTimes, Option.getD_some, List.length_cons, hmin]

theorem get?_remove (t : Tracker K) (j k : K) :
    (t.remove j).get? k = if k = j then none else t.get? k :=
  Store.get?_erase t.histories k j

theorem get?_prune (t : Tracker K) (staleness : Nat) (now : Int) (resident : K → Bool) (k : K) :
    (t.prune staleness now resident).2.get? k =
      (t.get? k).filter fun history => !isStale staleness now resident k history :=
  Store.get?_filter t.histories _ k

theorem get?_prune_of_resident (t : Tracker K) (staleness : Nat) (now : Int) {resident : K → Bool}
    {k : K} (hk : resident k) : (t.prune staleness now resident).2.get? k = t.get? k := by
  rw [get?_prune]
  cases t.get? k with
  | none => rfl
  | some history => simp [isStale, hk]

end Tracker

namespace Tier

variable {K V : Type} [DecidableEq K]

theorem find?_purge (t : Tier K V) (k : K) (now : Int) :
    (t.purge now).2.find? k now = t.find? k now := by
  rw [find?, find?, purge, Store.get?_filter, Option.filter_filter]
  simp only [Bool.and_self]

end Tier

namespace Hierarchy

variable {K V : Type} [DecidableEq K]

theorem tracker_get (h : Hierarchy K V) (k : K) (now : Int) :
    (h.get k now).2.tracker =
      if (h.get k now).1.isSome then (h.tracker.record k now).2 else h.tracker := by
  obtain ⟨-, hfound, hrecords⟩ | ⟨l, e, -, -, hfound, raised, -, hrecords⟩ := h.get_cases k now <;>
    rw [hfound] <;> exact congrArg Records.tracker hrecords

theorem contains_purgeExpired (h : Hierarchy K V) (k : K) (now : Int) :
    (h.purgeExpired now).2.contains k now = h.contains k now := by
  simp only [contains, Tier.contains, tier_purgeExpired, Tier.find?_purge]

end Hierarchy

/-- Whether an operation leaves all histories alone, whatever it finds. -/
def Operation.isSilent {K V : Type} : Operation K V → Bool
  | .putSpeculative _ _ | .contains _ | .levelOf _ | .resizeTier _ _ | .purgeExpired | .tune
  | .loadAhead _ _ | .advance _ => true
  | _ => false

namespace Session

variable {K V : Type} [DecidableEq K]

/-- Whether an operation accesses a key. A lookup that finds nothing is no access. -/
def accesses (s : Session K V) (k : K) : Operation K V → Bool
  | .put j _ => j = k
  | .get j => j = k && (s.hierarchy.get j s.now).1.isSome
  | _ => false

/-- Whether an operation forgets a key that was last accessed at some instant. -/
def forgets (s : Session K V) (k : K) (op : Operation K V) (last : Int) : Bool :=
  match op with
  | .remove j => j = k
  | .clear => true
  | .pruneHistories staleness | .sweep staleness =>
    staleness < elapsed last s.now && !s.hierarchy.contains k s.now
  | _ => false

/-- The instants of the accesses to a key since it was last forgotten, the latest first, after an
operation. -/
def timesAfter (s : Session K V) (k : K) (times : List Int) (op : Operation K V) : List Int :=
  if s.accesses k op then s.now :: times
  else if times.head?.any (s.forgets k op) then []
  else times

/-- The same after a run, given those before it. -/
def accessTimes (s : Session K V) (k : K) (times : List Int) : List (Operation K V) → List Int
  | [] => times
  | op :: rest => (s.step op).2.accessTimes k (s.timesAfter k times op) rest

theorem tracker_of_isSilent (s : Session K V) {op : Operation K V} (hop : op.isSilent) :
    (s.step op).2.hierarchy.tracker = s.hierarchy.tracker := by
  cases op with
  | putSpeculative k v =>
    exact congrArg Records.tracker (s.hierarchy.records_putSpeculative k v s.now)
  | contains k => rfl
  | levelOf k => rfl
  | resizeTier l capacity =>
    exact congrArg Records.tracker (s.hierarchy.records_resizeTier l capacity s.now)
  | purgeExpired => rfl
  | tune =>
    exact congrArg Records.tracker
      (Hierarchy.records_tuneTiers s.now Level.all s.tuner s.hierarchy)
  | loadAhead keys load =>
    exact congrArg Records.tracker (s.hierarchy.records_loadAll load keys s.now)
  | advance time => rfl
  | get k => exact absurd hop Bool.false_ne_true
  | put k v => exact absurd hop Bool.false_ne_true
  | remove k => exact absurd hop Bool.false_ne_true
  | clear => exact absurd hop Bool.false_ne_true
  | pruneHistories staleness => exact absurd hop Bool.false_ne_true
  | sweep staleness => exact absurd hop Bool.false_ne_true

theorem timesAfter_of_accesses {s : Session K V} {k : K} {op : Operation K V}
    (hop : s.accesses k op) (times : List Int) : s.timesAfter k times op = s.now :: times :=
  if_pos hop

theorem timesAfter_of_forgets {s : Session K V} {k : K} {op : Operation K V} {times : List Int}
    (haccess : s.accesses k op = false) (hforget : ∀ last ∈ times.head?, s.forgets k op last) :
    s.timesAfter k times op = [] := by
  cases times with
  | nil => simp [timesAfter, haccess]
  | cons last earlier => simp [timesAfter, haccess, hforget last rfl]

theorem timesAfter_of_spares {s : Session K V} {k : K} {op : Operation K V} {times : List Int}
    (haccess : s.accesses k op = false)
    (hspare : ∀ last ∈ times.head?, s.forgets k op last = false) :
    s.timesAfter k times op = times := by
  cases times with
  | nil => simp [timesAfter, haccess]
  | cons last earlier => simp [timesAfter, haccess, hspare last rfl]

/-- Pruning looks at the last access, and at the tiers as they are. -/
theorem history_prune {s : Session K V} {k : K} {times : List Int}
    (hk : s.hierarchy.tracker.get? k = History.ofTimes times) {staleness : Nat} {resident : K → Bool}
    (hresident : resident k = s.hierarchy.contains k s.now) :
    (s.hierarchy.tracker.prune staleness s.now resident).2.get? k =
      History.ofTimes (s.timesAfter k times (.pruneHistories staleness)) := by
  rw [Tracker.get?_prune, hk]
  cases times with
  | nil => rfl
  | cons last earlier =>
    have hstale : Tracker.isStale staleness s.now resident k
        ⟨min (earlier.length + 1) Tracker.frequencyLimit, last⟩ =
          s.forgets k (.pruneHistories staleness) last := by
      rw [Tracker.isStale, hresident]
      rfl
    rw [History.ofTimes, Option.filter_some, hstale]
    cases hforget : s.forgets k (.pruneHistories staleness) last with
    | false =>
      rw [timesAfter_of_spares rfl]
      · rfl
      · rintro _ ⟨⟩
        exact hforget
    | true =>
      rw [timesAfter_of_forgets rfl]
      · rfl
      · rintro _ ⟨⟩
        exact hforget

theorem history_step {s : Session K V} {k : K} {times : List Int}
    (hk : s.hierarchy.tracker.get? k = History.ofTimes times) (op : Operation K V) :
    (s.step op).2.hierarchy.tracker.get? k = History.ofTimes (s.timesAfter k times op) := by
  have hsilent : op.isSilent → s.accesses k op = false → (∀ last, s.forgets k op last = false) →
      (s.step op).2.hierarchy.tracker.get? k = History.ofTimes (s.timesAfter k times op) := by
    intro hop haccess hspare
    rw [tracker_of_isSilent s hop, timesAfter_of_spares haccess fun last _ => hspare last, hk]
  cases op with
  | get j =>
    refine (congrArg (Tracker.get? · k) (s.hierarchy.tracker_get j s.now)).trans ?_
    by_cases haccess : s.accesses k (.get j)
    · rw [timesAfter_of_accesses haccess]
      simp only [accesses, Bool.and_eq_true, decide_eq_true_eq] at haccess
      obtain ⟨rfl, hfound⟩ := haccess
      rw [if_pos hfound, Tracker.get?_record_ofTimes hk]
    · rw [Bool.not_eq_true] at haccess
      rw [timesAfter_of_spares haccess fun _ _ => rfl, ← hk]
      split
      · rename_i hfound
        have hj : k ≠ j := by
          rintro rfl
          simp [accesses, hfound] at haccess
        rw [Tracker.get?_record_of_ne _ _ hj]
      · rfl
  | put j v =>
    refine (congrArg (fun r => r.tracker.get? k) (s.hierarchy.records_put j v s.now)).trans ?_
    by_cases hj : j = k
    · subst hj
      have haccess : s.accesses j (.put j v) := decide_eq_true rfl
      rw [timesAfter_of_accesses haccess]
      exact Tracker.get?_record_ofTimes hk s.now
    · have haccess : s.accesses k (.put j v) = false := decide_eq_false hj
      rw [timesAfter_of_spares haccess fun _ _ => rfl, ← hk]
      exact Tracker.get?_record_of_ne _ _ (Ne.symm hj)
  | remove j =>
    refine (Tracker.get?_remove s.hierarchy.tracker j k).trans ?_
    by_cases hj : j = k
    · have hforget : ∀ last, s.forgets k (.remove j) last := fun _ => decide_eq_true hj
      rw [timesAfter_of_forgets rfl fun last _ => hforget last, if_pos hj.symm]
      rfl
    · have hspare : ∀ last, s.forgets k (.remove j) last = false := fun _ => decide_eq_false hj
      rw [timesAfter_of_spares rfl fun last _ => hspare last, if_neg (Ne.symm hj), hk]
  | clear =>
    rw [timesAfter_of_forgets rfl fun _ _ => rfl]
    rfl
  | pruneHistories staleness => exact history_prune hk rfl
  | sweep staleness => exact history_prune hk (s.hierarchy.contains_purgeExpired k s.now)
  | _ => exact hsilent rfl rfl fun _ => rfl

theorem history_run {s : Session K V} {k : K} {times : List Int}
    (hk : s.hierarchy.tracker.get? k = History.ofTimes times) (ops : List (Operation K V)) :
    (s.run ops).2.hierarchy.tracker.get? k = History.ofTimes (s.accessTimes k times ops) := by
  induction ops generalizing s times with
  | nil => exact hk
  | cons op rest ih => exact ih (history_step hk op)

/-- After every run the history of a key counts the puts and hits of it since it was last forgotten,
and knows the last one. Without any there is none. A key that is held is forgotten by no pruning, and
operations other than puts, hits and removals change no history. -/
theorem histories_count_accesses {config : Config} {stripe : K → Nat} (s : Session K V)
    (hnew : Hierarchy.new config stripe = .ok s.hierarchy) (ops : List (Operation K V)) :
    let t := (s.run ops).2
    (∀ k, t.hierarchy.tracker.get? k = History.ofTimes (s.accessTimes k [] ops)) ∧
    (∀ k staleness, t.hierarchy.contains k t.now →
      (t.step (.pruneHistories staleness)).2.hierarchy.tracker.get? k =
        t.hierarchy.tracker.get? k ∧
      (t.step (.sweep staleness)).2.hierarchy.tracker.get? k = t.hierarchy.tracker.get? k) ∧
    (∀ op, op.isSilent → (t.step op).2.hierarchy.tracker = t.hierarchy.tracker) ∧
    ∀ k, (t.hierarchy.get k t.now).1 = none →
      (t.step (.get k)).2.hierarchy.tracker = t.hierarchy.tracker := by
  intro t
  refine ⟨fun k => ?_, fun k staleness hheld => ⟨?_, ?_⟩, fun op => tracker_of_isSilent t, ?_⟩
  · apply history_run
    obtain ⟨capacities, -, hfresh⟩ := Hierarchy.eq_fresh_of_new hnew
    rw [hfresh]
    rfl
  · exact Tracker.get?_prune_of_resident _ staleness t.now hheld
  · have hstill := (t.hierarchy.contains_purgeExpired k t.now).trans hheld
    exact Tracker.get?_prune_of_resident _ staleness t.now hstill
  · intro k hmissed
    exact (t.hierarchy.tracker_get k t.now).trans (if_neg (by simp [hmissed]))

/-- Two keys are idle for long enough to be forgotten, but one of them is held. -/
theorem histories_count_accesses_past_pruning :
    let ops : List (Operation Nat Nat) := [.put 1 10, .advance 1, .get 1, .put 2 20, .get 2,
      .advance 1, .get 2, .get 1, .get 3, .advance 4, .putSpeculative 2 21, .sweep 3, .tune]
    let t := (narrowStart.run ops).2
    Hierarchy.new narrow (fun _ => 0) = .ok narrowStart.hierarchy ∧
      t.hierarchy.contains 2 t.now = true ∧
      t.hierarchy.tracker.get? 1 = History.ofTimes (narrowStart.accessTimes 1 [] ops) ∧
      narrowStart.accessTimes 1 [] ops = [] ∧
      t.hierarchy.tracker.get? 2 = History.ofTimes (narrowStart.accessTimes 2 [] ops) ∧
      narrowStart.accessTimes 2 [] ops = [2, 1, 1] ∧
      (t.step (.pruneHistories 0)).2.hierarchy.tracker.get? 2 = t.hierarchy.tracker.get? 2 := by
  have hnew : Hierarchy.new narrow (fun _ => 0) = .ok narrowStart.hierarchy := rfl
  obtain ⟨hhistory, hpruned, -, -⟩ := histories_count_accesses narrowStart hnew
    [.put 1 10, .advance 1, .get 1, .put 2 20, .get 2,
      .advance 1, .get 2, .get 1, .get 3, .advance 4, .putSpeculative 2 21, .sweep 3, .tune]
  exact ⟨hnew, by decide, hhistory 1, by decide, hhistory 2, by decide,
    (hpruned 2 0 (by decide)).1⟩

end Session

end TieredCache
