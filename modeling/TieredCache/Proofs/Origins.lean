import TieredCache.Proofs.Bookkeeping
import TieredCache.Proofs.FinalExpiry

/-!
# Where entries come from

An entry travels as a whole. Whatever is stored was written by one put or one accepted load, at the
instant that it bears, however often it has moved since, and the age by which a tier judges it is
the time since then. `Hierarchy.TakesInYoung` says that no tier takes in what is too old for it.
-/

namespace TieredCache

namespace Hierarchy

variable {K V : Type} [DecidableEq K]

/-- An entry that a tier stores, or that is young enough for it. -/
def MayHold (h : Hierarchy K V) (now : Int) (l : Level) (k : K) (e : Entry V) : Prop :=
  (h.tier l).store.get? k = some e ∨ e.expired (h.tier l).ttl now = false

/-- Every entry that a tier stores afterwards and did not store before is young enough for it. -/
def TakesInYoung (h h' : Hierarchy K V) (now : Int) : Prop :=
  ∀ l k e, (h'.tier l).store.get? k = some e → h.MayHold now l k e

theorem mayHold_travels (h : Hierarchy K V) (now : Int) :
    Travels (fun l => (h.tier l).ttl) now (h.MayHold now) where
  falls _ _ _ _ _ hage _ := .inr hage
  rises _ _ _ _ _ hage _ := .inr hage

theorem everywhere_mayHold (h : Hierarchy K V) (now : Int) :
    Everywhere (fun l => (h.tier l).ttl) (h.MayHold now) h [] where
  ttl _ := rfl
  stored _ _ _ he := .inl he
  inFlight _ _ _ he := absurd he (by simp)

/-- A promotion moves no entry up to a tier that it is too old for, nor down one. -/
theorem takesInYoung_promote (h : Hierarchy K V) (k : K) (source target : Level) (now : Int) :
    h.TakesInYoung (h.promote k source target now) now :=
  ((everywhere_traced (h.mayHold_travels now)).promote h k source target
    (h.everywhere_mayHold now)).stored

/-- Nor does an entry land where it is too old when it is carried down, or displaced by one that
is. -/
theorem takesInYoung_settle (h : Hierarchy K V) (levels : List Level) (victim : K × Entry V)
    (now : Int) : h.TakesInYoung (settle now levels h victim) now := by
  -- Nothing is known of the entries in flight, so each is judged where it lands.
  let P : Hierarchy K V → List (K × Entry V) → Prop :=
    fun h' _ => Everywhere (fun l => (h.tier l).ttl) (h.MayHold now) h' []
  have hgone : ∀ h' k e rest, P h' ((k, e) :: rest) → P (h'.countEviction.finishMove k) rest :=
    fun _ _ _ _ hh => ⟨hh.ttl, hh.stored, hh.inFlight⟩
  have hsuperseded : ∀ h' k e rest, h'.contains k now = true → P h' ((k, e) :: rest) →
      P (h'.finishMove k) rest :=
    fun _ _ _ _ _ hh => ⟨hh.ttl, hh.stored, hh.inFlight⟩
  have hlands : ∀ h' k e rest, ∀ l ∈ levels, e.expired (h'.tier l).ttl now = false →
      h'.contains k now = false → P h' ((k, e) :: rest) →
      P (h'.landed l k e) (((h'.tier l).put k e).evicted ++ rest) := by
    intro h' k e rest l _ hage _ hh
    rw [hh.ttl] at hage
    have hlanded := Everywhere.landed hh (l := l) (k := k) (e := e) (.inr hage)
    exact hlanded.of_within (fun _ => .refl _) (by simp)
  have hsettled := foldl_settle_induction P hgone hsuperseded levels hlands h [victim] []
    (h.everywhere_mayHold now)
  exact hsettled.stored

end Hierarchy

namespace Session

variable {K V : Type} [DecidableEq K]

theorem takesInYoung_step (s : Session K V) (op : Operation K V) :
    s.hierarchy.TakesInYoung (s.step op).2.hierarchy s.now := by
  have hwritten : ∀ l (k : K) (v : V), True → s.hierarchy.MayHold s.now l k ⟨v, s.now⟩ :=
    fun _ _ v _ => .inr (Entry.not_expired_when_written v _ s.now)
  have htraced := Hierarchy.everywhere_tracedWrites (s.hierarchy.mayHold_travels s.now) hwritten
  -- The entries are judged at the instant of the operation, also when it lets time pass.
  have hstep := step_traced (P := fun _ => Hierarchy.Everywhere _ (s.hierarchy.MayHold s.now))
    htraced (fun _ hs => hs) op (fun _ _ _ => trivial) (s.hierarchy.everywhere_mayHold s.now)
  exact hstep.stored

/-- One operation of a run has written an entry, at the instant that the entry bears, and none after
it takes out what is stored for the key. -/
def HasWritten (s : Session K V) (ops : List (Operation K V)) (k : K) (e : Entry V) : Prop :=
  ∃ before op after, ops = before ++ op :: after ∧
    let t := (s.run before).2
    t.Accepts k e.value op ∧ e.insertedAt = t.now ∧ ∀ op' ∈ after, op'.takesOut k = false

theorem HasWritten.append {s : Session K V} {ops : List (Operation K V)} {k : K} {e : Entry V}
    (h : s.HasWritten ops k e) {op : Operation K V} (hop : op.takesOut k = false) :
    s.HasWritten (ops ++ [op]) k e := by
  obtain ⟨before, op', after, rfl, haccepts, hnow, hafter⟩ := h
  refine ⟨before, op', after ++ [op], by rw [List.append_assoc, List.cons_append], haccepts, hnow,
    ?_⟩
  exact List.forall_mem_append.2 ⟨hafter, List.forall_mem_singleton.2 hop⟩

theorem origin_run {config : Config} {stripe : K → Nat} {s : Session K V}
    (hnew : Hierarchy.new config stripe = .ok s.hierarchy) (ops : List (Operation K V)) {k : K}
    {e : Entry V} (he : (k, e) ∈ (s.run ops).2.hierarchy.contents) : s.HasWritten ops k e := by
  induction ops using List.reverseRecOn with
  | nil =>
    obtain ⟨capacities, -, hfresh⟩ := Hierarchy.eq_fresh_of_new hnew
    rw [run_nil, hfresh] at he
    exact absurd he (Multiset.notMem_zero _)
  | append_singleton ops op ih =>
    rw [run_append] at he
    rcases origin_step he with ⟨hold, hop⟩ | ⟨haccepts, hnow⟩
    · exact (ih hold).append hop
    · exact ⟨ops, op, [], rfl, haccepts, hnow, by simp⟩

/-- Every stored entry bears the value and the instant of the write it comes from, and its key was
not taken out since. So a lookup finds a value that was written no longer ago than its tier keeps
values, and what an operation moves never gets into a tier that it is too old for, nor does it on
the way. -/
theorem moves_keep_age {config : Config} {stripe : K → Nat} (s : Session K V)
    (hnew : Hierarchy.new config stripe = .ok s.hierarchy) (ops : List (Operation K V)) :
    let t := (s.run ops).2
    (∀ l k e, t.Stores l k e → s.HasWritten ops k e) ∧
    (∀ k v, (t.hierarchy.get k t.now).1 = some v → ∃ l e,
      (t.hierarchy.get k t.now).2.counters.tiers = (t.hierarchy.counters.hit l).tiers ∧
      t.Stores l k e ∧ e.value = v ∧ s.HasWritten ops k e ∧
      elapsed e.insertedAt t.now ≤ (t.hierarchy.tier l).ttl) ∧
    (∀ op, t.hierarchy.TakesInYoung (t.step op).2.hierarchy t.now) ∧
    (∀ (h : Hierarchy K V) k source target now,
      h.TakesInYoung (h.promote k source target now) now) ∧
    ∀ (h : Hierarchy K V) levels victim now,
      h.TakesInYoung (Hierarchy.settle now levels h victim) now := by
  intro t
  have horigin : ∀ l k e, t.Stores l k e → s.HasWritten ops k e := fun l k e he =>
    origin_run hnew ops ((t.hierarchy.mem_contents_iff k e).2 ⟨l, he⟩)
  refine ⟨horigin, fun k v hget => ?_, takesInYoung_step t, Hierarchy.takesInYoung_promote,
    Hierarchy.takesInYoung_settle⟩
  rcases t.hierarchy.get_cases k t.now with ⟨-, hmissed, -⟩ | ⟨l, e, -, hfind, hserved, hrecords⟩
  · rw [hget] at hmissed
    exact absurd hmissed (by simp)
  · obtain ⟨raised, -, hrecords⟩ := hrecords
    obtain ⟨hstored, hage⟩ := Option.filter_eq_some_iff.1 hfind
    rw [Bool.not_eq_true', Entry.expired, decide_eq_false_iff_not, Nat.not_lt] at hage
    rw [hget] at hserved
    exact ⟨l, e, congrArg Records.tiers hrecords, hstored, (Option.some.inj hserved).symm,
      horigin l k e hstored, hage⟩

/-- An entry that was displaced once and promoted once still bears the instant of its write. -/
theorem moves_keep_age_up_and_down :
    let ops : List (Operation Nat Nat) := [.put 1 10, .advance 2, .put 2 20, .advance 1, .get 1,
      .putSpeculative 3 30, .advance 1]
    let t := (narrowStart.run ops).2
    Hierarchy.new narrow (fun _ => 0) = .ok narrowStart.hierarchy ∧
      t.hierarchy.counters.promotions = 1 ∧ t.hierarchy.counters.demotions = 2 ∧
      t.Stores .hot 1 ⟨10, 0⟩ ∧ t.now = 4 ∧ narrowStart.HasWritten ops 1 ⟨10, 0⟩ ∧
      t.hierarchy.TakesInYoung (t.step (.put 4 40)).2.hierarchy t.now := by
  have hnew : Hierarchy.new narrow (fun _ => 0) = .ok narrowStart.hierarchy := rfl
  obtain ⟨horigin, -, hyoung, -, -⟩ := moves_keep_age narrowStart hnew
    [.put 1 10, .advance 2, .put 2 20, .advance 1, .get 1, .putSpeculative 3 30, .advance 1]
  exact ⟨hnew, by decide, by decide, rfl, by decide, horigin .hot 1 ⟨10, 0⟩ rfl,
    hyoung (.put 4 40)⟩

end Session

end TieredCache
