import TieredCache.Proofs.KeyViews

/-!
# Keys do not influence each other

All keys share the tiers, their recency orders, the tracker and the counters. While no tier is short
of room, none of this lets one key notice another: a run answers for a key what it would answer if
the operations on the other keys were left out.
-/

namespace TieredCache

namespace Operation

variable {K V : Type}

/-- The key that an operation is about. -/
def key? : Operation K V → Option K
  | .get k | .put k _ | .putSpeculative k _ | .remove k | .contains k | .levelOf k => some k
  | _ => none

/-- The key that an operation writes, if it is accepted. -/
def written? : Operation K V → Option K
  | .put k _ | .putSpeculative k _ => some k
  | _ => none

/-- Whether an operation is about one key, or does to each key what it would do to it alone. -/
def isSeparable : Operation K V → Bool
  | .resizeTier _ _ | .tune | .loadAhead _ _ => false
  | _ => true

/-- Whether an operation is about a key or about all of them. -/
def concerns [DecidableEq K] (k : K) (op : Operation K V) : Bool :=
  op.key?.all fun j => j = k

end Operation

namespace Session

variable {K V : Type} [DecidableEq K]

/-- The answers of a run to the operations on a key. -/
def answersOn (s : Session K V) (k : K) (ops : List (Operation K V)) : List (Answer V) :=
  ((ops.zip (s.run ops).1).filter fun p => p.1.key? = some k).map Prod.snd

theorem answersOn_cons (s : Session K V) (k : K) (op : Operation K V)
    (rest : List (Operation K V)) :
    s.answersOn k (op :: rest) =
      (if op.key? = some k then [(s.step op).1] else []) ++ (s.step op).2.answersOn k rest := by
  rw [answersOn, run_cons, List.zip_cons_cons, List.filter_cons]
  by_cases hkey : op.key? = some k
  · rw [if_pos (decide_eq_true hkey), if_pos hkey]
    rfl
  · rw [if_neg (by simp [hkey]), if_neg hkey]
    rfl

variable {keys : Finset K} {s s' : Session K V} {k : K} {op : Operation K V}

theorem roomy_step (hop : op.isSeparable) (hwritten : ∀ j ∈ op.written?, j ∈ keys)
    (hs : s.hierarchy.Roomy keys) : (s.step op).2.hierarchy.Roomy keys := by
  cases op with
  | get j => exact hs.get j s.now
  | put j v => exact hs.put (hwritten j rfl) v s.now
  | putSpeculative j v => exact hs.putSpeculative (hwritten j rfl) v s.now
  | remove j => exact hs.remove j
  | clear => exact hs.clear
  | purgeExpired => exact hs.purgeExpired s.now
  | sweep staleness => exact hs.purgeExpired s.now
  | contains j => exact hs
  | levelOf j => exact hs
  | pruneHistories staleness => exact hs
  | advance time => exact hs
  | resizeTier l capacity => exact absurd hop (by simp [Operation.isSeparable])
  | tune => exact absurd hop (by simp [Operation.isSeparable])
  | loadAhead keys load => exact absurd hop (by simp [Operation.isSeparable])

/-- An operation on another key changes nothing that concerns a key. -/
theorem agree_step_other (hwritten : ∀ j ∈ op.written?, j ∈ keys) (hs : s.hierarchy.Roomy keys)
    (hop : op.concerns k = false) :
    Hierarchy.Agree k (s.step op).2.hierarchy s.hierarchy ∧ (s.step op).2.now = s.now := by
  have hne : ∀ j, op.key? = some j → k ≠ j := by
    rintro j hj rfl
    simp [Operation.concerns, hj] at hop
  cases op with
  | get j => exact ⟨hs.agree_get (hne j rfl) s.now, rfl⟩
  | put j v => exact ⟨hs.agree_put (hwritten j rfl) (hne j rfl) v s.now, rfl⟩
  | putSpeculative j v =>
    exact ⟨hs.agree_putSpeculative (hwritten j rfl) (hne j rfl) v s.now, rfl⟩
  | remove j => exact ⟨Hierarchy.agree_remove (hne j rfl) s.hierarchy, rfl⟩
  | contains j => exact ⟨.refl k _, rfl⟩
  | levelOf j => exact ⟨.refl k _, rfl⟩
  | _ => exact absurd hop (by simp [Operation.concerns, Operation.key?])

/-- An operation that concerns a key answers for it, and changes what concerns it, in one way. -/
theorem agree_step (hop : op.isSeparable) (hwritten : ∀ j ∈ op.written?, j ∈ keys)
    (hs : s.hierarchy.Roomy keys) (hs' : s'.hierarchy.Roomy keys)
    (hagree : Hierarchy.Agree k s.hierarchy s'.hierarchy) (hnow : s.now = s'.now)
    (hconcerns : op.concerns k) :
    (op.key? = some k → (s.step op).1 = (s'.step op).1) ∧
      Hierarchy.Agree k (s.step op).2.hierarchy (s'.step op).2.hierarchy ∧
      (s.step op).2.now = (s'.step op).2.now := by
  have hkey : ∀ j, op.key? = some j → j = k := by
    intro j hj
    simpa [Operation.concerns, hj] using hconcerns
  obtain ⟨h, tuner, now⟩ := s
  obtain ⟨h', tuner', now'⟩ := s'
  obtain rfl : now = now' := hnow
  cases op with
  | get j =>
    obtain rfl := hkey j rfl
    obtain ⟨hfound, hafter⟩ := hagree.get hs hs' now
    exact ⟨fun _ => congrArg Answer.found hfound, hafter, rfl⟩
  | put j v =>
    obtain rfl := hkey j rfl
    exact ⟨fun _ => rfl, hagree.put hs hs' (hwritten j rfl) v now, rfl⟩
  | putSpeculative j v =>
    obtain rfl := hkey j rfl
    obtain ⟨haccepted, hafter⟩ := hagree.putSpeculative hs hs' (hwritten j rfl) v now
    exact ⟨fun _ => congrArg Answer.truth haccepted, hafter, rfl⟩
  | remove j =>
    obtain rfl := hkey j rfl
    exact ⟨fun _ => rfl, hagree.remove, rfl⟩
  | contains j =>
    obtain rfl := hkey j rfl
    exact ⟨fun _ => congrArg Answer.truth (hagree.contains now), hagree, rfl⟩
  | levelOf j =>
    obtain rfl := hkey j rfl
    exact ⟨fun _ => congrArg Answer.level (hagree.levelOf? now), hagree, rfl⟩
  | clear => exact ⟨fun _ => rfl, hagree.clear, rfl⟩
  | purgeExpired => exact ⟨fun hnone => absurd hnone (by simp [Operation.key?]),
      hagree.purgeExpired now, rfl⟩
  | pruneHistories staleness => exact ⟨fun hnone => absurd hnone (by simp [Operation.key?]),
      hagree.pruneHistories staleness now, rfl⟩
  | sweep staleness => exact ⟨fun hnone => absurd hnone (by simp [Operation.key?]),
      (hagree.purgeExpired now).pruneHistories staleness now, rfl⟩
  | advance time => exact ⟨fun _ => rfl, hagree, rfl⟩
  | resizeTier l capacity => exact absurd hop (by simp [Operation.isSeparable])
  | tune => exact absurd hop (by simp [Operation.isSeparable])
  | loadAhead keys load => exact absurd hop (by simp [Operation.isSeparable])

theorem agree_run (ops : List (Operation K V)) (hops : ∀ op ∈ ops, op.isSeparable)
    (hwritten : ∀ op ∈ ops, ∀ j ∈ op.written?, j ∈ keys) (hs : s.hierarchy.Roomy keys)
    (hs' : s'.hierarchy.Roomy keys) (hagree : Hierarchy.Agree k s.hierarchy s'.hierarchy)
    (hnow : s.now = s'.now) :
    let own := ops.filter fun op => op.concerns k
    s.answersOn k ops = s'.answersOn k own ∧
      Hierarchy.Agree k (s.run ops).2.hierarchy (s'.run own).2.hierarchy ∧
      (s.run ops).2.now = (s'.run own).2.now := by
  -- An operation on another key is a step of the first run alone.
  induction ops generalizing s s' with
  | nil => exact ⟨rfl, hagree, hnow⟩
  | cons op rest ih =>
    have hop := hops op List.mem_cons_self
    have hone := hwritten op List.mem_cons_self
    have hrest : ∀ op' ∈ rest, op'.isSeparable := fun op' h => hops op' (List.mem_cons_of_mem op h)
    have hothers : ∀ op' ∈ rest, ∀ j ∈ op'.written?, j ∈ keys :=
      fun op' h => hwritten op' (List.mem_cons_of_mem op h)
    have hroomy : (s.step op).2.hierarchy.Roomy keys := roomy_step hop hone hs
    by_cases hconcerns : op.concerns k
    · obtain ⟨hanswer, hafter, hlater⟩ := agree_step hop hone hs hs' hagree hnow hconcerns
      obtain ⟨hanswers, hend⟩ :=
        ih hrest hothers hroomy (roomy_step hop hone hs') hafter hlater
      rw [List.filter_cons_of_pos hconcerns]
      refine ⟨?_, hend⟩
      rw [answersOn_cons, answersOn_cons, hanswers]
      by_cases hkey : op.key? = some k
      · rw [if_pos hkey, if_pos hkey, hanswer hkey]
      · rw [if_neg hkey, if_neg hkey]
    · rw [Bool.not_eq_true] at hconcerns
      obtain ⟨hother, hsame⟩ := agree_step_other hone hs hconcerns
      obtain ⟨hanswers, hend⟩ :=
        ih hrest hothers hroomy hs' (hother.trans hagree) (hsame.trans hnow)
      rw [List.filter_cons_of_neg (by simp [hconcerns])]
      refine ⟨?_, hend⟩
      have hkey : op.key? ≠ some k := by
        intro hkey
        simp [Operation.concerns, hkey] at hconcerns
      rw [answersOn_cons, if_neg hkey, List.nil_append, hanswers]

/-- A configuration with room for two entries in each tier. -/
def paired : Config where
  tiers := ⟨.fixed 2 5, .fixed 2 10, .fixed 2 20⟩
  migration := { hotMinFrequency := 1 }

/-- A session that starts with this configuration. -/
def pairedStart : Session Nat Nat :=
  start (.fresh paired (fun _ => 0) (.replicate ⟨2, by decide⟩)) paired.autoTune 0

/-- As long as no tier has less room than there are keys written, a run answers for a key as the run
without the operations on other keys. At each point both store the same entries of the key in the
same tiers, hold it at the same level and have the same history of it. -/
theorem keys_are_separate {config : Config} {stripe : K → Nat} (s : Session K V)
    (hnew : Hierarchy.new config stripe = .ok s.hierarchy) (ops : List (Operation K V))
    (hops : ∀ op ∈ ops, op.isSeparable)
    (hroom : ∀ l, (ops.filterMap Operation.written?).toFinset.card ≤
      (config.tiers.get l).capacity) (k : K) :
    s.answersOn k ops = s.answersOn k (ops.filter fun op => op.concerns k) ∧
    ∀ before after, ops = before ++ after →
      let t := (s.run before).2
      let u := (s.run (before.filter fun op => op.concerns k)).2
      (∀ l, (t.hierarchy.tier l).store.get? k = (u.hierarchy.tier l).store.get? k) ∧
      t.hierarchy.levelOf? k t.now = u.hierarchy.levelOf? k u.now ∧
      t.hierarchy.tracker.get? k = u.hierarchy.tracker.get? k := by
  have hroomy : s.hierarchy.Roomy (ops.filterMap Operation.written?).toFinset :=
    Hierarchy.roomy_of_new hnew hroom
  have hwritten : ∀ op ∈ ops, ∀ j ∈ op.written?,
      j ∈ (ops.filterMap Operation.written?).toFinset := by
    intro op hop j hj
    rw [List.mem_toFinset, List.mem_filterMap]
    exact ⟨op, hop, hj⟩
  refine ⟨(agree_run ops hops hwritten hroomy hroomy (.refl k _) rfl).1, ?_⟩
  rintro before after rfl t u
  obtain ⟨-, hagree, hnow⟩ := agree_run before
    (fun op hop => hops op (List.mem_append_left after hop))
    (fun op hop => hwritten op (List.mem_append_left after hop)) hroomy hroomy (.refl k _) rfl
  refine ⟨fun l => congrArg Prod.snd (hagree.tier l), ?_, hagree.history⟩
  rw [← show t.now = u.now from hnow]
  exact hagree.levelOf? t.now

/-- Two keys move up, expire and are loaded beside each other. -/
theorem keys_are_separate_of_two :
    let ops : List (Operation Nat Nat) := [.put 1 10, .putSpeculative 2 20, .get 2, .get 1,
      .advance 6, .get 2, .putSpeculative 1 11, .sweep 3, .get 1, .remove 2, .contains 1]
    let own := ops.filter fun op => op.concerns 1
    let t := (pairedStart.run ops).2
    let u := (pairedStart.run own).2
    Hierarchy.new paired (fun _ => 0) = .ok pairedStart.hierarchy ∧
      (∀ op ∈ ops, op.isSeparable) ∧ (ops.filterMap Operation.written?).toFinset.card = 2 ∧
      own.length = 7 ∧ pairedStart.answersOn 1 ops = pairedStart.answersOn 1 own ∧
      t.hierarchy.levelOf? 1 t.now = some .hot ∧
      t.hierarchy.levelOf? 1 t.now = u.hierarchy.levelOf? 1 u.now ∧
      t.hierarchy.tracker.get? 1 = u.hierarchy.tracker.get? 1 := by
  intro ops own t u
  have hnew : Hierarchy.new paired (fun _ => 0) = .ok pairedStart.hierarchy := rfl
  have hops : ∀ op ∈ ops, op.isSeparable := by decide
  have hroom : ∀ l, (ops.filterMap Operation.written?).toFinset.card ≤
      (paired.tiers.get l).capacity := by
    intro l
    cases l <;> decide
  obtain ⟨hanswers, hviews⟩ := keys_are_separate pairedStart hnew ops hops hroom 1
  obtain ⟨-, hlevel, hhistory⟩ := hviews ops [] (List.append_nil ops).symm
  exact ⟨hnew, hops, by decide, by decide, hanswers, by decide, hlevel, hhistory⟩

/-- With room for one key in each tier, a second one pushes it down. -/
example : (narrowStart.run [.put 1 10, .put 2 20]).2.hierarchy.levelOf? 1 0 = some .warm ∧
    (narrowStart.run [.put 1 10]).2.hierarchy.levelOf? 1 0 = some .hot := by decide

end Session

end TieredCache
