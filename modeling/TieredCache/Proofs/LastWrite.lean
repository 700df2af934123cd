import Mathlib.Data.List.Induction
import TieredCache.Proofs.Contents

/-!
# Lookups answer with the last write

Copies of a key travel between tiers with other keys' operations and outlive their expiry in some
tier. Since a write takes out all other copies of its key, whatever is stored anywhere, expired or
not, was written last.
-/

namespace TieredCache

namespace Tier

variable {K V : Type} [DecidableEq K]

theorem get?_put_eq_none {t : Tier K V} {j k : K} (e : Entry V) (hj : j ≠ k)
    (h : t.store.get? j = none) : (t.put k e).tier.store.get? j = none := by
  cases hput : (t.put k e).tier.store.get? j with
  | none => rfl
  | some d =>
    rw [stored_of_put hj hput] at h
    exact absurd h (by simp)

end Tier

namespace Hierarchy

variable {K V : Type} [DecidableEq K]

/-- Probing finds the first unexpired entry. The expired ones it drops on the way lie in tiers that
it does not look at again. -/
theorem probe_fst (levels : List Level) (hnodup : levels.Nodup) (k : K) (now : Int)
    (h h' : Hierarchy K V) (hsame : ∀ l ∈ levels, h'.tier l = h.tier l) :
    (probe k now levels h').1 =
      levels.findSome? fun l => ((h.tier l).find? k now).map fun e => (l, e) := by
  induction levels generalizing h' with
  | nil => rfl
  | cons l colder ih =>
    rw [List.nodup_cons] at hnodup
    have hfst := (h'.tier l).lookup_fst k now
    rw [probe, List.findSome?_cons, ← hsame l List.mem_cons_self, ← hfst]
    cases (h'.tier l).lookup k now with
    | mk found t =>
      cases found with
      | some e => rfl
      | none =>
        apply ih hnodup.2
        intro m hm
        have hne : m ≠ l := by
          rintro rfl
          exact hnodup.1 hm
        rw [tier_setTier_of_ne h' t hne, hsame m (List.mem_cons_of_mem l hm)]

theorem get_fst (h : Hierarchy K V) (k : K) (now : Int) :
    (h.get k now).1 = Level.all.findSome? fun l => ((h.tier l).find? k now).map Entry.value := by
  have hprobe := probe_fst Level.all (by decide) k now h h fun _ _ => rfl
  have hget : (h.get k now).1 = (probe k now Level.all h).1.map fun p => p.2.value := by
    rw [get_eq]
    cases (probe k now Level.all h).1 <;> rfl
  rw [hget, hprobe, List.map_findSome?]
  congr 1
  funext l
  rw [Function.comp_apply, Option.map_map]
  rfl

theorem held_of_get {h : Hierarchy K V} {k : K} {v : V} {now : Int}
    (hget : (h.get k now).1 = some v) :
    ∃ l e, (h.tier l).store.get? k = some e ∧ e.expired (h.tier l).ttl now = false ∧
      e.value = v := by
  rw [get_fst] at hget
  obtain ⟨l, -, hl⟩ := List.exists_of_findSome?_eq_some hget
  obtain ⟨e, he, rfl⟩ := Option.map_eq_some_iff.1 hl
  obtain ⟨hstored, hage⟩ := Option.filter_eq_some_iff.1 he
  rw [Bool.not_eq_true'] at hage
  exact ⟨l, e, hstored, hage, rfl⟩

theorem stored_of_get {h : Hierarchy K V} {k : K} {v : V} {now : Int}
    (hget : (h.get k now).1 = some v) : ∃ e, (k, e) ∈ h.contents ∧ e.value = v := by
  obtain ⟨l, e, hstored, -, hv⟩ := held_of_get hget
  exact ⟨e, (h.mem_contents_iff k e).2 ⟨l, hstored⟩, hv⟩

/-- Settling other keys leaves a key alone that none of the levels below stores. -/
theorem get?_foldl_settle {now : Int} {levels : List Level} {k : K} {h : Hierarchy K V}
    {victims : List (K × Entry V)} (hvictims : ∀ p ∈ victims, p.1 ≠ k)
    (habsent : ∀ l ∈ levels, (h.tier l).store.get? k = none) (m : Level) :
    ((victims.foldl (settle now levels) h).tier m).store.get? k = (h.tier m).store.get? k := by
  refine (foldl_settle_induction (fun h' flight => (∀ p ∈ flight, p.1 ≠ k) ∧
    ∀ m, (h'.tier m).store.get? k = (h.tier m).store.get? k) ?_ ?_ levels ?_ h victims [] ?_).2 m
  · rintro h' j e rest ⟨hflight, hsame⟩
    exact ⟨fun p hp => hflight p (List.mem_cons_of_mem _ hp), hsame⟩
  · rintro h' j e rest - ⟨hflight, hsame⟩
    exact ⟨fun p hp => hflight p (List.mem_cons_of_mem _ hp), hsame⟩
  · rintro h' j e rest l hl - - ⟨hflight, hsame⟩
    have hj : j ≠ k := hflight (j, e) List.mem_cons_self
    -- A landing entry can only displace the key from a level that stores it, and `l` does not.
    have hnone : (h'.tier l).store.get? k = none := by rw [hsame, habsent l hl]
    constructor
    · intro p hp
      rcases List.mem_append.1 hp with hp | hp
      · obtain ⟨order, hput⟩ | ⟨i, d, order, -, hd, hput⟩ := (h'.tier l).put_cases j e
        · rw [hput] at hp
          exact absurd hp (by simp)
        · rw [hput, List.mem_singleton] at hp
          rw [hp]
          rintro rfl
          rw [hnone] at hd
          exact absurd hd (by simp)
      · exact hflight p (List.mem_cons_of_mem _ hp)
    · intro m
      rw [tier_landed]
      split
      · rename_i hm
        rw [hm, Tier.get?_put_eq_none e hj.symm hnone, habsent l hl]
      · exact hsame m
  · rw [List.append_nil]
    exact ⟨hvictims, fun _ => rfl⟩

/-- A placed entry is the only one of its key, and stays so while the others settle. -/
theorem get?_insertAt (h : Hierarchy K V) (l m : Level) (k : K) (e : Entry V) (now : Int) :
    ((h.insertAt l k e now).tier m).store.get? k = if m = l then some e else none := by
  have hplaced : ∀ m, ((h.placed l k e).tier m).store.get? k = if m = l then some e else none := by
    intro m
    rw [tier_placed]
    split
    · exact Tier.get?_put_self _ k e
    · exact Tier.get?_remove_self _ k
  rw [insertAt, place_eq]
  simp only [settleAll]
  rw [get?_foldl_settle, hplaced]
  · intro p hp
    obtain ⟨order, hput⟩ | ⟨i, d, order, hi, -, hput⟩ := (h.tier l).put_cases k e
    · rw [hput] at hp
      exact absurd hp (by simp)
    · rw [hput, List.mem_singleton] at hp
      rw [hp]
      exact hi
  · intro m hm
    rw [hplaced, if_neg]
    rintro rfl
    cases m <;> exact absurd hm (by decide)

theorem get?_put (h : Hierarchy K V) (k : K) (v : V) (now : Int) :
    ∃ target, ∀ m, ((h.put k v now).tier m).store.get? k =
      if m = target then some ⟨v, now⟩ else none :=
  ⟨_, fun m => get?_insertAt _ _ m k ⟨v, now⟩ now⟩

/-- A value is found right after it was written, wherever it was placed. -/
theorem get_put (h : Hierarchy K V) (k : K) (v : V) (now : Int) :
    ((h.put k v now).get k now).1 = some v := by
  obtain ⟨target, htarget⟩ := h.get?_put k v now
  have hfind : ∀ m, ((h.put k v now).tier m).find? k now =
      if m = target then some ⟨v, now⟩ else none := by
    intro m
    rw [Tier.find?, htarget]
    split
    · rename_i hm
      rw [hm, Option.filter_some, Entry.not_expired_when_written]
      rfl
    · rfl
  rw [get_fst]
  simp only [hfind, Level.all, List.findSome?_cons, List.findSome?_nil]
  cases target <;> rfl

/-! ### Loads -/

/-- Of a batch of keys to load, one has a value that is accepted in its turn. -/
def BatchAccepts (h : Hierarchy K V) (load : K → LoadResult V) (keys : List K) (now : Int) (k : K)
    (v : V) : Prop :=
  ∃ front back, keys = front ++ k :: back ∧ load k = .value v ∧
    ((h.loadAll load front now).2.putSpeculative k v now).1

theorem BatchAccepts.append {h : Hierarchy K V} {load : K → LoadResult V} {keys : List K}
    {now : Int} {k : K} {v : V} (hk : h.BatchAccepts load keys now k v) (j : K) :
    h.BatchAccepts load (keys ++ [j]) now k v := by
  obtain ⟨front, back, rfl, hload⟩ := hk
  exact ⟨front, back ++ [j], by rw [List.append_assoc, List.cons_append], hload⟩

/-- The last key is loaded into what the batch before it has left. -/
theorem loadAll_append_singleton (h : Hierarchy K V) (load : K → LoadResult V) (front : List K)
    (j : K) (now : Int) :
    (h.loadAll load (front ++ [j]) now).2 =
      match load j with
      | .value v => ((h.loadAll load front now).2.putSpeculative j v now).2
      | _ => (h.loadAll load front now).2 := by
  rw [loadAll, List.foldl_append]
  simp only [List.foldl_cons, List.foldl_nil, loadOne]
  cases load j <;> rfl

theorem mem_contents_loadAll {h : Hierarchy K V} {load : K → LoadResult V} {keys : List K} {k : K}
    {e : Entry V} {now : Int} (he : (k, e) ∈ (h.loadAll load keys now).2.contents) :
    (k, e) ∈ h.contents ∨ h.BatchAccepts load keys now k e.value ∧ e.insertedAt = now := by
  induction keys using List.reverseRecOn with
  | nil => exact .inl he
  | append_singleton front j ih =>
    have hearlier : (k, e) ∈ (h.loadAll load front now).2.contents → (k, e) ∈ h.contents ∨
        h.BatchAccepts load (front ++ [j]) now k e.value ∧ e.insertedAt = now := by
      intro hfront
      exact (ih hfront).imp_right fun hnew => ⟨hnew.1.append j, hnew.2⟩
    rw [loadAll_append_singleton] at he
    cases hvalue : load j with
    | absent =>
      rw [hvalue] at he
      exact hearlier he
    | failed =>
      rw [hvalue] at he
      exact hearlier he
    | value v =>
      rw [hvalue] at he
      rcases mem_contents_putSpeculative he with hold | ⟨haccepted, rfl, rfl⟩
      · exact hearlier hold
      · exact .inr ⟨⟨front, [], rfl, hvalue, haccepted⟩, rfl⟩

theorem putSpeculative_of_refused {h : Hierarchy K V} {k : K} {v : V} {now : Int}
    (hrefused : ¬ (h.putSpeculative k v now).1) : (h.putSpeculative k v now).2 = h := by
  rw [putSpeculative_eq] at hrefused ⊢
  by_cases hheld : h.contains k now
  · rw [if_pos hheld]
  · rw [if_neg hheld] at hrefused
    exact absurd rfl hrefused

/-- A batch none of whose values for a key is accepted does what it does without the key. -/
theorem loadAll_without {h : Hierarchy K V} {load : K → LoadResult V} {keys : List K} {now : Int}
    {k : K} (hbatch : ∀ v, ¬ h.BatchAccepts load keys now k v) :
    (h.loadAll load (keys.filter (· ≠ k)) now).2 = (h.loadAll load keys now).2 := by
  induction keys using List.reverseRecOn with
  | nil => rfl
  | append_singleton front j ih =>
    have hfront := ih fun v hk => hbatch v (hk.append j)
    rw [List.filter_append, loadAll_append_singleton]
    by_cases hj : j = k
    · have hlast : [j].filter (· ≠ k) = [] := by simp [hj]
      rw [hlast, List.append_nil, hfront]
      cases hload : load j with
      | absent => rfl
      | failed => rfl
      | value v =>
        subst hj
        have hrefused : ¬ ((h.loadAll load front now).2.putSpeculative j v now).1 :=
          fun haccepted => hbatch v ⟨front, [], rfl, hload, haccepted⟩
        exact (putSpeculative_of_refused hrefused).symm
    · have hlast : [j].filter (· ≠ k) = [j] := by simp [hj]
      rw [hlast, loadAll_append_singleton, hfront]

end Hierarchy

/-! ### Runs -/

/-- Whether an operation writes a value that nobody has put. -/
def Operation.isSpeculative {K V : Type} : Operation K V → Bool
  | .putSpeculative _ _ => true
  | .loadAhead _ _ => true
  | _ => false

/-- Whether an operation may replace or take out what is stored for a key. -/
def Operation.overrides {K V : Type} [DecidableEq K] (k : K) : Operation K V → Bool
  | .put j _ => j = k
  | .putSpeculative j _ => j = k
  | .remove j => j = k
  | .clear => true
  | .loadAhead keys _ => k ∈ keys
  | _ => false

/-- Whether an operation takes out all that was stored for a key before. -/
def Operation.takesOut {K V : Type} [DecidableEq K] (k : K) : Operation K V → Bool
  | .put j _ => j = k
  | .remove j => j = k
  | .clear => true
  | _ => false

theorem Operation.overrides_eq_takesOut {K V : Type} [DecidableEq K] {op : Operation K V}
    (hop : op.isSpeculative = false) (k : K) : op.overrides k = op.takesOut k := by
  cases op with
  | putSpeculative j v => exact absurd hop (by simp [isSpeculative])
  | loadAhead keys load => exact absurd hop (by simp [isSpeculative])
  | _ => rfl

namespace Session

variable {K V : Type} [DecidableEq K]

/-- An operation writes a value for a key, and the value is accepted. -/
def Accepts (s : Session K V) (k : K) (v : V) : Operation K V → Prop
  | .put j w => j = k ∧ w = v
  | .putSpeculative j w => j = k ∧ w = v ∧ (s.hierarchy.putSpeculative j w s.now).1
  | .loadAhead keys load => s.hierarchy.BatchAccepts load keys s.now k v
  | _ => False

/-- What is stored after an operation was stored before and is not taken out, or is written by the
operation. -/
theorem origin_step {s : Session K V} {op : Operation K V} {k : K} {e : Entry V}
    (he : (k, e) ∈ (s.step op).2.hierarchy.contents) :
    (k, e) ∈ s.hierarchy.contents ∧ op.takesOut k = false ∨
      s.Accepts k e.value op ∧ e.insertedAt = s.now := by
  have hkept : (s.step op).2.hierarchy.contents ≤ s.hierarchy.contents → op.takesOut k = false →
      (k, e) ∈ s.hierarchy.contents ∧ op.takesOut k = false ∨
        s.Accepts k e.value op ∧ e.insertedAt = s.now :=
    fun hle hop => .inl ⟨Multiset.mem_of_le hle he, hop⟩
  cases op with
  | get j => exact hkept (Hierarchy.contents_le_of_kept fun P hP => hP.get s.hierarchy j) rfl
  | put j v =>
    have hput := Multiset.mem_of_le (s.hierarchy.contents_put_le j v s.now) he
    rcases Multiset.mem_cons.1 hput with hnew | hold
    · obtain ⟨rfl, rfl⟩ := Prod.mk.inj hnew
      exact .inr ⟨⟨rfl, rfl⟩, rfl⟩
    · obtain ⟨hmem, hj⟩ := Multiset.mem_filter.1 hold
      exact .inl ⟨hmem, decide_eq_false (Ne.symm hj)⟩
  | putSpeculative j v =>
    rcases Hierarchy.mem_contents_putSpeculative he with hold | ⟨haccepted, rfl, rfl⟩
    · exact .inl ⟨hold, rfl⟩
    · exact .inr ⟨⟨rfl, rfl, haccepted⟩, rfl⟩
  | remove j =>
    have hmem : (k, e) ∈ s.hierarchy.contents.filter fun p => p.1 ≠ j :=
      s.hierarchy.contents_remove j ▸ he
    obtain ⟨hmem, hj⟩ := Multiset.mem_filter.1 hmem
    exact .inl ⟨hmem, decide_eq_false (Ne.symm hj)⟩
  | clear => exact absurd he (Multiset.notMem_zero _)
  | contains j => exact hkept le_rfl rfl
  | levelOf j => exact hkept le_rfl rfl
  | resizeTier l capacity =>
    exact hkept
      (Hierarchy.contents_le_of_kept fun P hP => hP.resizeTier s.hierarchy l capacity) rfl
  | purgeExpired => exact hkept (s.hierarchy.contents_purgeExpired_le s.now) rfl
  | pruneHistories staleness => exact hkept le_rfl rfl
  | sweep staleness => exact hkept (s.hierarchy.contents_purgeExpired_le s.now) rfl
  | tune =>
    exact hkept
      (Hierarchy.contents_le_of_kept fun P hP => hP.tuneTiers Level.all s.tuner s.hierarchy) rfl
  | loadAhead keys load =>
    rcases Hierarchy.mem_contents_loadAll he with hold | hnew
    · exact .inl ⟨hold, rfl⟩
    · exact .inr hnew
  | advance time => exact hkept le_rfl rfl

/-- Among some operations the last one that overrides a key puts a value. -/
def LastPut (ops : List (Operation K V)) (k : K) (v : V) : Prop :=
  ∃ before after, ops = before ++ .put k v :: after ∧ ∀ op ∈ after, op.overrides k = false

theorem LastPut.append {ops : List (Operation K V)} {k : K} {v : V} (h : LastPut ops k v)
    {op : Operation K V} (hop : op.overrides k = false) : LastPut (ops ++ [op]) k v := by
  obtain ⟨before, after, rfl, hafter⟩ := h
  refine ⟨before, after ++ [op], by rw [List.append_assoc, List.cons_append], ?_⟩
  exact List.forall_mem_append.2 ⟨hafter, List.forall_mem_singleton.2 hop⟩

/-- Whatever a hierarchy stores, expired or not, was put last. -/
def Reflects (h : Hierarchy K V) (ops : List (Operation K V)) : Prop :=
  ∀ k e, (k, e) ∈ h.contents → LastPut ops k e.value

theorem reflects_step {s : Session K V} {ops : List (Operation K V)} (op : Operation K V)
    (hop : op.isSpeculative = false) (hs : Reflects s.hierarchy ops) :
    Reflects (s.step op).2.hierarchy (ops ++ [op]) := by
  intro k e he
  rcases origin_step he with ⟨hold, hout⟩ | ⟨hnew, -⟩
  · exact (hs k e hold).append ((Operation.overrides_eq_takesOut hop k).trans hout)
  · cases op with
    | put j v =>
      obtain ⟨rfl, rfl⟩ := hnew
      exact ⟨ops, [], rfl, by simp⟩
    | putSpeculative j v => exact absurd hop (by simp [Operation.isSpeculative])
    | loadAhead keys load => exact absurd hop (by simp [Operation.isSpeculative])
    | _ => exact hnew.elim

theorem reflects_run {config : Config} {stripe : K → Nat} {s : Session K V}
    (hnew : Hierarchy.new config stripe = .ok s.hierarchy) (ops : List (Operation K V))
    (hops : ∀ op ∈ ops, op.isSpeculative = false) : Reflects (s.run ops).2.hierarchy ops := by
  induction ops using List.reverseRecOn with
  | nil =>
    intro k e he
    obtain ⟨capacities, -, hfresh⟩ := Hierarchy.eq_fresh_of_new hnew
    rw [run_nil, hfresh] at he
    exact absurd he (Multiset.notMem_zero _)
  | append_singleton ops op ih =>
    rw [run_append]
    exact reflects_step op (hops op (by simp)) (ih fun op' hop' => hops op' (by simp [hop']))

/-- In runs without speculative writes, a lookup that answers does so with the value put last, and
its key was not overridden since. A lookup right after a write finds the value. -/
theorem get_answers_last_put {config : Config} {stripe : K → Nat} (s : Session K V)
    (hnew : Hierarchy.new config stripe = .ok s.hierarchy) (ops : List (Operation K V))
    (hops : ∀ op ∈ ops, op.isSpeculative = false) (k : K) (v : V) :
    let t := (s.run ops).2
    ((t.hierarchy.get k t.now).1 = some v →
      ∃ before after, ops = before ++ .put k v :: after ∧
        ∀ op ∈ after, op.overrides k = false) ∧
    ((t.hierarchy.put k v t.now).get k t.now).1 = some v := by
  intro t
  refine ⟨fun hget => ?_, Hierarchy.get_put _ k v t.now⟩
  obtain ⟨e, he, rfl⟩ := Hierarchy.stored_of_get hget
  exact reflects_run hnew ops hops k e he

/-- A value that other keys have pushed down to the coldest tier. -/
theorem get_answers_last_put_from_cold :
    let ops : List (Operation Nat Nat) := [.put 1 10, .put 1 11, .put 2 20, .put 3 30]
    let t := (narrowStart.run ops).2
    Hierarchy.new narrow (fun _ => 0) = .ok narrowStart.hierarchy ∧
      (∀ op ∈ ops, op.isSpeculative = false) ∧ (t.hierarchy.tier .cold).contains 1 t.now ∧
      (∃ before after, ops = before ++ .put 1 11 :: after ∧
        ∀ op ∈ after, op.overrides 1 = false) ∧
      ((t.hierarchy.put 4 40 t.now).get 4 t.now).1 = some 40 := by
  intro ops t
  have hnew : Hierarchy.new narrow (fun _ => 0) = .ok narrowStart.hierarchy := rfl
  have hops : ∀ op ∈ ops, op.isSpeculative = false := by decide
  have hget : (t.hierarchy.get 1 t.now).1 = some 11 := by decide
  exact ⟨hnew, hops, by decide, (get_answers_last_put narrowStart hnew ops hops 1 11).1 hget,
    (get_answers_last_put narrowStart hnew ops hops 4 40).2⟩

end Session

end TieredCache
