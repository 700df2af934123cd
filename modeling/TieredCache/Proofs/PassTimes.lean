import Mathlib.Data.List.Forall2
import Mathlib.Data.List.MinMax
import Mathlib.Data.List.Perm.Basic
import Mathlib.Tactic.Ring
import TieredCache.TaskGroup

/-!
# When passes run

A task whose passes take no time notices each of them at the instant at which it is due, so its
schedule never moves: the passes are due at the multiples of its period after it was scheduled, and
all that are due by an instant have run by then. A task that has been signalled starts no pass. Both
hold of any number of tasks side by side, however the time that passes is split up.
-/

namespace TieredCache

/-- A task as it was scheduled at some instant. -/
structure Assignment (N : Type) where
  name : N
  period : Nat
  script : Nat → Pass
  since : Int

namespace Assignment

variable {N : Type} (a : Assignment N)

/-- When a pass is due. -/
def dueAt (n : Nat) : Int := a.since + n * a.period

/-- How many passes are due by an instant. -/
def dueBy (now : Int) : Nat := ((now - a.since) / a.period).toNat

/-- What happens in a pass that takes no time. -/
def pass (n : Nat) : List (Event N) :=
  [⟨a.dueAt n, a.name, n, .started⟩, ⟨a.dueAt n, a.name, n, .ended (a.script n).outcome⟩]

/-- What happens in some passes, after a number of earlier ones. -/
def passes (earlier count : Nat) : List (Event N) :=
  (List.range' (earlier + 1) count).flatMap a.pass

/-- There is a schedule to keep, and no pass can be late. -/
structure Instant : Prop where
  period_pos : 0 < a.period
  duration : ∀ n, (a.script n).duration = 0

variable {a}

theorem Instant.le_dueBy_iff (ha : a.Instant) {n : Nat} (hn : 0 < n) (now : Int) :
    n ≤ a.dueBy now ↔ a.dueAt n ≤ now := by
  have hperiod : (0 : Int) < a.period := Int.natCast_pos.2 ha.period_pos
  have hquotient : (n : Int) ≤ (now - a.since) / a.period ↔ n * a.period ≤ now - a.since :=
    Int.le_ediv_iff_mul_le hperiod
  rw [dueBy, dueAt]
  omega

theorem Instant.dueBy_mono (ha : a.Instant) {now later : Int} (h : now ≤ later) :
    a.dueBy now ≤ a.dueBy later :=
  Int.toNat_le_toNat (Int.ediv_le_ediv (Int.natCast_pos.2 ha.period_pos) (by omega))

theorem dueBy_since (a : Assignment N) : a.dueBy a.since = 0 := by
  simp [dueBy]

theorem dueAt_zero (a : Assignment N) : a.dueAt 0 = a.since := by
  simp [dueAt]

theorem dueAt_succ (a : Assignment N) (n : Nat) : a.dueAt (n + 1) = a.dueAt n + a.period := by
  rw [dueAt, dueAt, Nat.cast_succ]
  ring

theorem passes_succ (a : Assignment N) (earlier count : Nat) :
    a.passes earlier (count + 1) = a.pass (earlier + 1) ++ a.passes (earlier + 1) count := rfl

theorem passes_append (a : Assignment N) (earlier m n : Nat) :
    a.passes earlier m ++ a.passes (earlier + m) n = a.passes earlier (m + n) := by
  rw [passes, passes, passes, ← List.flatMap_append, Nat.add_right_comm, List.range'_append_1]

end Assignment

namespace PeriodicTask

variable {N : Type} {t : PeriodicTask N} {horizon : Int}

/-! ### The steps of a task -/

theorem advance_of_over (h : t.phase = .over) : t.advance horizon = ([], t) := by
  obtain ⟨name, script, started, stopping, phase⟩ := t
  subst h
  conv_lhs => rw [advance]

theorem advance_of_spawned_later {period : Nat} {since : Int} (h : t.phase = .spawned period since)
    (hlater : horizon < since) : t.advance horizon = ([], t) := by
  obtain ⟨name, script, started, stopping, phase⟩ := t
  subst h
  conv_lhs => rw [advance]
  simp only [hlater, if_true]

theorem advance_of_spawned {period : Nat} {since : Int} (h : t.phase = .spawned period since)
    (hsince : since ≤ horizon) : t.advance horizon =
      advance horizon { t with phase := firstPhase period t.stopping since } := by
  obtain ⟨name, script, started, stopping, phase⟩ := t
  subst h
  conv_lhs => rw [advance]
  simp only [not_lt.2 hsince, if_false]

theorem advance_of_waiting_later {ticker : Ticker} {since : Int}
    (h : t.phase = .waiting ticker since) (hlater : horizon < max since ticker.due) :
    t.advance horizon = ([], t) := by
  obtain ⟨name, script, started, stopping, phase⟩ := t
  subst h
  conv_lhs => rw [advance]
  simp only [hlater, dite_true]

theorem advance_of_waiting {ticker : Ticker} {since : Int} (h : t.phase = .waiting ticker since)
    (hdue : max since ticker.due ≤ horizon) :
    let noticed := max since ticker.due
    let pass := t.script (t.started + 1)
    let r := advance horizon { t with
      started := t.started + 1
      phase := .running (ticker.tick noticed) (t.started + 1) (noticed + pass.duration)
        pass.outcome }
    t.advance horizon = (⟨noticed, r.2.name, t.started + 1, .started⟩ :: r.1, r.2) := by
  obtain ⟨name, script, started, stopping, phase⟩ := t
  subst h
  intro noticed pass r
  conv_lhs => rw [advance]
  simp only [not_lt.2 hdue, dite_false]
  rfl

theorem advance_of_running_later {ticker : Ticker} {n : Nat} {finish : Int} {outcome : Outcome}
    (h : t.phase = .running ticker n finish outcome) (hlater : horizon < finish) :
    t.advance horizon = ([], t) := by
  obtain ⟨name, script, started, stopping, phase⟩ := t
  subst h
  conv_lhs => rw [advance]
  simp only [hlater, if_true]

theorem advance_of_running {ticker : Ticker} {n : Nat} {finish : Int} {outcome : Outcome}
    (h : t.phase = .running ticker n finish outcome) (hfinish : finish ≤ horizon) :
    let r := advance horizon
      { t with phase := if t.stopping then .over else .waiting ticker finish }
    t.advance horizon = (⟨finish, r.2.name, n, .ended outcome⟩ :: r.1, r.2) := by
  obtain ⟨name, script, started, stopping, phase⟩ := t
  subst h
  intro r
  conv_lhs => rw [advance]
  simp only [not_lt.2 hfinish, if_false]
  rfl

theorem name_advance (horizon : Int) (t : PeriodicTask N) :
    (t.advance horizon).2.name = t.name := by
  induction t using advance.induct horizon with
  | case1 t h => rw [advance_of_over h]
  | case2 t period since h hlater => rw [advance_of_spawned_later h hlater]
  | case3 t period since h hsince next _ ih =>
    rw [advance_of_spawned h (not_lt.1 hsince)]
    exact ih
  | case4 t ticker since h noticed hlater => rw [advance_of_waiting_later h hlater]
  | case5 t ticker since h noticed hdue n pass next _ _ _ _ ih =>
    rw [advance_of_waiting h (not_lt.1 hdue)]
    exact ih
  | case6 t ticker n finish outcome h hlater => rw [advance_of_running_later h hlater]
  | case7 t ticker n finish outcome h hfinish next _ _ _ _ ih =>
    rw [advance_of_running h (not_lt.1 hfinish)]
    exact ih

/-! ### Passes that take no time -/

/-- The task has run a number of passes and waits for the next one, as it was scheduled. -/
structure Waits (a : Assignment N) (n : Nat) (t : PeriodicTask N) : Prop where
  name : t.name = a.name
  script : t.script = a.script
  started : t.started = n
  stopping : t.stopping = false
  phase : ∃ ticker, ticker.period = a.period ∧ ticker.due = a.dueAt (n + 1) ∧
    t.phase = .waiting ticker (a.dueAt n)

variable {a : Assignment N} {n : Nat}

/-- Before the next pass is due nothing happens. -/
theorem Waits.advance_later (ht : t.Waits a n) (hlater : horizon < a.dueAt (n + 1)) :
    t.advance horizon = ([], t) := by
  obtain ⟨ticker, -, hticker, hphase⟩ := ht.phase
  apply advance_of_waiting_later hphase
  omega

/-- A pass runs at the instant at which it is due, and the next one is due a period later. -/
theorem Waits.advance_pass (ha : a.Instant) (ht : t.Waits a n)
    (hdue : a.dueAt (n + 1) ≤ horizon) :
    ∃ u : PeriodicTask N, u.Waits a (n + 1) ∧
      t.advance horizon = (a.pass (n + 1) ++ (u.advance horizon).1, (u.advance horizon).2) := by
  obtain ⟨ticker, hperiod, hticker, hphase⟩ := ht.phase
  have hnoticed : max (a.dueAt n) ticker.due = a.dueAt (n + 1) := by
    rw [hticker, a.dueAt_succ n]
    omega
  have htick : (ticker.tick (a.dueAt (n + 1))).due = a.dueAt (n + 1 + 1) := by
    have hkept : ¬a.dueAt (n + 1) + Ticker.tolerance < a.dueAt (n + 1) := by omega
    simp only [Ticker.tick, hticker, hperiod, if_neg hkept, a.dueAt_succ (n + 1)]
  have hstart := advance_of_waiting hphase (hnoticed.trans_le hdue)
  simp only [hnoticed, ht.started, ht.script, ha.duration, Nat.cast_zero, add_zero] at hstart
  rw [hstart, advance_of_running rfl hdue]
  simp only [ht.stopping, Bool.false_eq_true, if_false]
  refine ⟨⟨t.name, a.script, n + 1, false, .waiting (ticker.tick (a.dueAt (n + 1)))
    (a.dueAt (n + 1))⟩, ⟨ht.name, rfl, rfl, rfl, ?_⟩, ?_⟩
  · exact ⟨ticker.tick (a.dueAt (n + 1)), hperiod, htick, rfl⟩
  · simp only [name_advance, ht.name]
    rfl

/-- All passes that are due by the horizon run. -/
theorem Waits.advance (ha : a.Instant) (ht : t.Waits a n) (hn : n ≤ a.dueBy horizon) :
    (t.advance horizon).1 = a.passes n (a.dueBy horizon - n) ∧
      (t.advance horizon).2.Waits a (a.dueBy horizon) := by
  obtain ⟨ahead, hahead⟩ := Nat.exists_eq_add_of_le hn
  have hsub : a.dueBy horizon - n = ahead := by omega
  rw [hsub]
  induction ahead generalizing t n with
  | zero =>
    have hlater : horizon < a.dueAt (n + 1) := by
      rw [← not_le, ← ha.le_dueBy_iff n.succ_pos]
      omega
    rw [ht.advance_later hlater, hahead]
    exact ⟨rfl, ht⟩
  | succ ahead ih =>
    have hdue : a.dueAt (n + 1) ≤ horizon := by
      rw [← ha.le_dueBy_iff n.succ_pos]
      omega
    obtain ⟨u, hu, hadvance⟩ := ht.advance_pass ha hdue
    obtain ⟨hevents, hwaits⟩ := ih hu (by omega) (by omega) (by omega)
    rw [hadvance, hevents, a.passes_succ]
    exact ⟨rfl, hwaits⟩

/-- The task has not begun yet, or waits for its next pass. -/
def OnSchedule (a : Assignment N) (n : Nat) (t : PeriodicTask N) : Prop :=
  t = spawn a.name a.period a.script false a.since ∧ n = 0 ∨ t.Waits a n

theorem OnSchedule.started (ht : t.OnSchedule a n) : t.started = n := by
  rcases ht with ⟨rfl, rfl⟩ | ht
  · rfl
  · exact ht.started

theorem onSchedule_spawn (a : Assignment N) :
    (spawn a.name a.period a.script false a.since).OnSchedule a (a.dueBy a.since) :=
  .inl ⟨rfl, a.dueBy_since⟩

theorem OnSchedule.advance (ha : a.Instant) (ht : t.OnSchedule a n) (hn : n ≤ a.dueBy horizon) :
    (t.advance horizon).1 = a.passes n (a.dueBy horizon - n) ∧
      (t.advance horizon).2.OnSchedule a (a.dueBy horizon) := by
  rcases ht with ⟨rfl, rfl⟩ | ht
  · by_cases hbegun : a.since ≤ horizon
    · -- It begins to wait at once for the first pass, a period later.
      rw [advance_of_spawned rfl hbegun]
      have hfirst : firstPhase a.period false a.since =
          .waiting ⟨a.period, ha.period_pos, a.since + a.period⟩ a.since := by
        simp [firstPhase, ha.period_pos]
      have hwaits : ({ spawn a.name a.period a.script false a.since with
          phase := firstPhase a.period false a.since } : PeriodicTask N).Waits a 0 := by
        refine ⟨rfl, rfl, rfl, rfl, ⟨a.period, ha.period_pos, a.since + a.period⟩, rfl, ?_, ?_⟩
        · rw [a.dueAt_succ, a.dueAt_zero]
        · rw [a.dueAt_zero, hfirst]
      obtain ⟨hevents, hafter⟩ := hwaits.advance ha hn
      exact ⟨hevents, .inr hafter⟩
    · have hnone : a.dueBy horizon = 0 := by
        have hfirst := ha.le_dueBy_iff (Nat.succ_pos 0) horizon
        rw [a.dueAt_succ, a.dueAt_zero] at hfirst
        omega
      rw [advance_of_spawned_later rfl (not_le.1 hbegun), hnone]
      exact ⟨rfl, .inl ⟨rfl, rfl⟩⟩
  · obtain ⟨hevents, hafter⟩ := ht.advance ha hn
    exact ⟨hevents, .inr hafter⟩

/-! ### Signalled tasks -/

/-- The task has been signalled and does not wait any longer. -/
structure Stopped (t : PeriodicTask N) : Prop where
  stopping : t.stopping = true
  phase : ∀ ticker since, t.phase ≠ .waiting ticker since

/-- Up to a horizon nothing happens to a task that has been signalled, or it ends and has started no
further pass. -/
theorem Stopped.advance_cases (ht : t.Stopped) (horizon : Int) :
    t.advance horizon = ([], t) ∧ (t.isOver = true ∨ ∀ now, horizon < t.endTime now) ∨
      (∀ e ∈ (t.advance horizon).1, e.kind ≠ .started) ∧
        (t.advance horizon).2.stopping = true ∧ (t.advance horizon).2.phase = .over := by
  cases hphase : t.phase with
  | «over» =>
    refine .inl ⟨advance_of_over hphase, .inl ?_⟩
    rw [isOver, hphase]
  | spawned period since =>
    by_cases hbegun : since ≤ horizon
    · have hover : firstPhase period t.stopping since = .over := by
        simp [firstPhase, ht.stopping]
      rw [advance_of_spawned hphase hbegun, hover, advance_of_over rfl]
      exact .inr ⟨fun e he => absurd he (by simp), ht.stopping, rfl⟩
    · refine .inl ⟨advance_of_spawned_later hphase (not_le.1 hbegun), .inr fun now => ?_⟩
      simp only [endTime, hphase]
      omega
  | waiting ticker since => exact absurd hphase (ht.phase ticker since)
  | running ticker n finish outcome =>
    by_cases hends : finish ≤ horizon
    · rw [advance_of_running hphase hends]
      simp only [ht.stopping, if_true]
      rw [advance_of_over rfl]
      refine .inr ⟨fun e he => ?_, rfl, rfl⟩
      rw [List.mem_singleton] at he
      simp [he]
    · refine .inl ⟨advance_of_running_later hphase (not_le.1 hends), .inr fun now => ?_⟩
      simp only [endTime, hphase]
      omega

/-- A pass in progress may end, but no other one starts. -/
theorem Stopped.advance (ht : t.Stopped) (horizon : Int) :
    (∀ e ∈ (t.advance horizon).1, e.kind ≠ .started) ∧ (t.advance horizon).2.Stopped := by
  rcases ht.advance_cases horizon with ⟨hnone, -⟩ | ⟨hquiet, hstopping, hover⟩
  · rw [hnone]
    exact ⟨fun e he => absurd he (by simp), ht⟩
  · exact ⟨hquiet, hstopping, fun _ _ => by simp [hover]⟩

end PeriodicTask

namespace WatchedTask

variable {N : Type}

/-- Lets time pass to one instant after the other. Returns all that happens. -/
def follow (w : WatchedTask N) : List Int → List (Event N) × WatchedTask N
  | [] => ([], w)
  | horizon :: rest =>
    let (events, w) := w.advance horizon
    let (later, w) := w.follow rest
    (events ++ later, w)

end WatchedTask

/-! ### Groups -/

namespace Occurrence

variable {N : Type}

theorem map_event_trace (instants : List Int) (events : List (Event N)) :
    (trace instants events).map event = events := by
  induction events generalizing instants with
  | nil => rfl
  | cons e rest ih => rw [trace, List.map_cons, ih]

end Occurrence

namespace TaskGroup

variable {N : Type}

/-- What happens to a group is what happens to its tasks. -/
theorem advance_perm (g : TaskGroup N) (horizon : Int) :
    (g.advance horizon).1.Perm (g.members.flatMap fun m => (m.task.advance horizon).1) := by
  have hsorted := (List.mergeSort_perm ((g.members.map (Member.advance horizon)).flatMap Prod.fst)
    Occurrence.precedes).map Occurrence.event
  refine hsorted.trans (.of_eq ?_)
  rw [List.map_flatMap, List.flatMap_map]
  apply List.flatMap_congr
  intro m _
  exact Occurrence.map_event_trace _ _

/-- What is done with a group: tasks are added, and time passes. -/
inductive Action (N : Type) where
  | schedule (name : N) (period : Nat) (script : Nat → Pass)
  | run (time : Nat)

def act (g : TaskGroup N) : Action N → List (Event N) × TaskGroup N
  | .schedule name period script => ([], g.schedule name period script)
  | .run time => g.advance (g.now + time)

/-- Does one thing after the other. Returns all that happens. -/
def follow (g : TaskGroup N) : List (Action N) → List (Event N) × TaskGroup N
  | [] => ([], g)
  | action :: rest =>
    let (events, g) := g.act action
    let (later, g) := g.follow rest
    (events ++ later, g)

/-- The tasks that are added, from some instant on. -/
def assigned : Int → List (Action N) → List (Assignment N)
  | _, [] => []
  | now, .schedule name period script :: rest => ⟨name, period, script, now⟩ :: assigned now rest
  | now, .run time :: rest => assigned (now + time) rest

/-- The group has some tasks, and each of them has run the passes that are due by now. -/
def Keeps (g : TaskGroup N) (tasks : List (Assignment N)) : Prop :=
  g.members.Forall₂ (fun m a => a.Instant ∧ m.task.OnSchedule a (a.dueBy g.now)) tasks

variable {g : TaskGroup N} {tasks : List (Assignment N)}

theorem Keeps.map_eq (hg : g.Keeps tasks) {β : Type} {f : Member N → β} {f' : Assignment N → β}
    (hf : ∀ m a, a.Instant → m.task.OnSchedule a (a.dueBy g.now) → f m = f' a) :
    g.members.map f = tasks.map f' := by
  rw [← List.forall₂_eq_eq_eq, List.forall₂_map_left_iff, List.forall₂_map_right_iff]
  exact hg.imp fun m a h => hf m a h.1 h.2

theorem Keeps.instant (hg : g.Keeps tasks) {a : Assignment N} (ha : a ∈ tasks) : a.Instant :=
  ((List.forall₂_and_left _ _).1 hg.flip).1 a ha

theorem Keeps.schedule (hg : g.Keeps tasks) {a : Assignment N} (ha : a.Instant)
    (hsince : a.since = g.now) : (g.schedule a.name a.period a.script).Keeps (tasks ++ [a]) := by
  apply List.rel_append hg
  have hspawn := PeriodicTask.onSchedule_spawn a
  rw [hsince] at hspawn
  exact .cons ⟨ha, hspawn⟩ .nil

/-- All passes that fall due run, each once. -/
theorem Keeps.advance (hg : g.Keeps tasks) {horizon : Int} (hlater : g.now ≤ horizon) :
    (g.advance horizon).1.Perm
        (tasks.flatMap fun a => a.passes (a.dueBy g.now) (a.dueBy horizon - a.dueBy g.now)) ∧
      (g.advance horizon).2.Keeps tasks := by
  constructor
  · have hevents : g.members.map (fun m => (m.task.advance horizon).1) =
        tasks.map fun a => a.passes (a.dueBy g.now) (a.dueBy horizon - a.dueBy g.now) :=
      hg.map_eq fun m a ha hm => (hm.advance ha (ha.dueBy_mono hlater)).1
    have hperm := g.advance_perm horizon
    rwa [List.flatMap_def, hevents, ← List.flatMap_def] at hperm
  · rw [Keeps, TaskGroup.advance, List.map_map, List.forall₂_map_left_iff]
    exact hg.imp fun m a h => ⟨h.1, (h.2.advance h.1 (h.1.dueBy_mono hlater)).2⟩

/-- However the time is split up, at the end all passes that are due have run, each once. -/
theorem Keeps.follow (hg : g.Keeps tasks) (actions : List (Action N))
    (hactions : ∀ a ∈ assigned g.now actions, a.Instant) :
    let r := g.follow actions
    let all := tasks ++ assigned g.now actions
    (tasks.flatMap (fun a => a.passes 0 (a.dueBy g.now)) ++ r.1).Perm
        (all.flatMap fun a => a.passes 0 (a.dueBy r.2.now)) ∧
      r.2.Keeps all := by
  induction actions generalizing g tasks with
  | nil =>
    simp only [TaskGroup.follow, assigned, List.append_nil]
    exact ⟨.refl _, hg⟩
  | cons action rest ih =>
    cases action with
    | schedule name period script =>
      let a : Assignment N := ⟨name, period, script, g.now⟩
      have ha : a.Instant := hactions a List.mem_cons_self
      obtain ⟨hlog, hkeeps⟩ := ih (hg.schedule ha rfl)
        fun b hb => hactions b (List.mem_cons_of_mem _ hb)
      have hall : tasks ++ [a] ++ assigned g.now rest = tasks ++ a :: assigned g.now rest :=
        List.append_assoc ..
      have hbefore : (tasks ++ [a]).flatMap (fun b => b.passes 0 (b.dueBy g.now)) =
          tasks.flatMap fun b => b.passes 0 (b.dueBy g.now) := by
        rw [List.flatMap_append, List.flatMap_singleton, a.dueBy_since]
        exact List.append_nil _
      exact ⟨hbefore ▸ hall ▸ hlog, hall ▸ hkeeps⟩
    | run time =>
      have hlater : g.now ≤ g.now + time := by omega
      obtain ⟨hevents, hnext⟩ := hg.advance hlater
      obtain ⟨hlog, hkeeps⟩ := ih hnext hactions
      refine ⟨?_, hkeeps⟩
      have hdue : ∀ a ∈ tasks, a.passes 0 (a.dueBy g.now) ++
          a.passes (a.dueBy g.now) (a.dueBy (g.now + time) - a.dueBy g.now) =
            a.passes 0 (a.dueBy (g.now + time)) := by
        intro a ha
        have hmono := (hg.instant ha).dueBy_mono hlater
        have happend := a.passes_append 0 (a.dueBy g.now)
          (a.dueBy (g.now + time) - a.dueBy g.now)
        rwa [Nat.zero_add, Nat.add_sub_cancel' hmono] at happend
      have hjoined := (hevents.append_left _).trans
        ((List.flatMap_append_perm tasks _ _).trans (.of_eq (List.flatMap_congr hdue)))
      have hwhole := (hjoined.append_right _).trans hlog
      rwa [List.append_assoc] at hwhole

end TaskGroup

end TieredCache
