import TieredCache.Proofs.Settling
import TieredCache.Session

/-!
# Runs, change by change

Every operation is made of a few changes, and the entries that a change displaces are in flight
until they have settled. `Traced` lists the changes that write no value, `TracedWrites` the others,
each with all that it counts and with the tier that each entry in flight has left. A property that
all changes keep is kept by every run.
-/

namespace TieredCache

namespace Tier

variable {K V : Type} [DecidableEq K]

theorem lookup_fst (t : Tier K V) (k : K) (now : Int) : (t.lookup k now).1 = t.find? k now := by
  rw [lookup, find?]
  cases t.store.get? k with
  | none => rfl
  | some e => cases h : e.expired t.ttl now <;> simp [h, Option.filter]

theorem lookup_of_find? {t : Tier K V} {k : K} {e : Entry V} {now : Int}
    (h : t.find? k now = some e) : t.lookup k now = (some e, t) := by
  rw [find?, Option.filter_eq_some_iff] at h
  obtain ⟨hget, hage⟩ := h
  rw [Bool.not_eq_true'] at hage
  simp [lookup, hget, hage]

end Tier

namespace Hierarchy

variable {K V : Type}

theorem setTier_tier (h : Hierarchy K V) (l : Level) : h.setTier l (h.tier l) = h := by
  cases l <;> rfl

variable [DecidableEq K]

theorem probe_snd_eq (k : K) (now : Int) (levels : List Level) (h : Hierarchy K V) :
    (probe k now levels h).2 = { h with tiers := (probe k now levels h).2.tiers } := by
  induction levels generalizing h with
  | nil => rfl
  | cons l colder ih =>
    rw [probe]
    cases (h.tier l).lookup k now with
    | mk found t =>
      cases found with
      | some e => rfl
      | none => exact ih (h.setTier l t)

/-- A hierarchy with an entry written to one tier and taken out of the others. -/
def placed (h : Hierarchy K V) (l : Level) (k : K) (e : Entry V) : Hierarchy K V :=
  (((h.startMove k).takeOver l ((h.tier l).put k e)).removeOthers k l).finishMove k

theorem place_eq (h : Hierarchy K V) (l : Level) (k : K) (e : Entry V) :
    h.place l k e = (((h.tier l).put k e).evicted, h.placed l k e) := rfl

theorem tier_placed (h : Hierarchy K V) (l m : Level) (k : K) (e : Entry V) :
    (h.placed l k e).tier m =
      if m = l then ((h.tier l).put k e).tier else ((h.tier m).remove k).2 := by
  rw [placed, tier_finishMove, tier_removeOthers, tier_takeOver, tier_startMove]
  by_cases hm : m = l
  · rw [if_pos hm, if_pos hm, if_pos hm]
  · rw [if_neg hm, if_neg hm, if_neg hm]

theorem placed_eq (h : Hierarchy K V) (l : Level) (k : K) (e : Entry V) :
    h.placed l k e =
      { h with tiers := (h.placed l k e).tiers, moves := (h.placed l k e).moves } := by
  rw [placed, removeOthers_eq, takeOver_eq]
  rfl

theorem counters_placed (h : Hierarchy K V) (l : Level) (k : K) (e : Entry V) :
    (h.placed l k e).counters = h.counters := by
  rw [placed_eq]

theorem capacity_placed (h : Hierarchy K V) (l m : Level) (k : K) (e : Entry V) :
    ((h.placed l k e).tier m).capacity = (h.tier m).capacity := by
  rw [tier_placed]
  split
  · rename_i hm
    rw [(Tier.put_alike _ _ _).capacity, hm]
  · exact (Tier.remove_alike _ k).capacity

theorem capacity_settleAll (h : Hierarchy K V) (l : Level) (victims : List (K × Entry V))
    (now : Int) (m : Level) :
    ((h.settleAll l victims now).tier m).capacity = (h.tier m).capacity := by
  refine settleAll_induction (fun h' _ => (h'.tier m).capacity = (h.tier m).capacity) ?_ ?_ ?_ h l
    victims [] rfl
  · exact fun h' l k e rest _ hh => hh
  · exact fun h' l k e rest _ hh => hh
  · intro h' l next k e rest _ _ _ hh
    rw [tier_landed]
    split
    · rename_i hm
      rw [(Tier.put_alike _ _ _).capacity, ← hm, hh]
    · exact hh

/-- A tier has served a key: it is touched, the hit is counted and the access is recorded. -/
def served (h : Hierarchy K V) (l : Level) (k : K) (now : Int) : Hierarchy K V :=
  let h := h.setTier l ((h.tier l).touch k)
  ({ h with counters := h.counters.hit l }.recordAccess k now).2

/-- A key has moved up. -/
def raised (h : Hierarchy K V) (target : Level) (k : K) (e : Entry V) : Hierarchy K V :=
  let h := h.placed target k e
  { h with counters := { h.counters with promotions := h.counters.promotions + 1 } }

theorem serve_eq (h : Hierarchy K V) (k : K) (l : Level) (now : Int) :
    h.serve k l now =
      match h.config.migration.promotion? (h.tracker.record k now).1 l now with
      | none => h.served l k now
      | some target => (h.served l k now).promote k l target now := rfl

/-- A promotion finds nothing, or an entry that is too old for the target, or the key moves up. -/
theorem promote_cases (h : Hierarchy K V) (k : K) (source target : Level) (now : Int) :
    ((h.tier source).find? k now = none ∧
      h.promote k source target now = h.setTier source ((h.tier source).lookup k now).2) ∨
    ∃ e, (h.tier source).find? k now = some e ∧
      (e.expired (h.tier target).ttl now = true ∧ h.promote k source target now = h ∨
        e.expired (h.tier target).ttl now = false ∧ h.promote k source target now =
          (h.raised target k e).settleAll target ((h.tier target).put k e).evicted now) := by
  cases hfind : (h.tier source).find? k now with
  | none =>
    have hfst := (h.tier source).lookup_fst k now
    rw [hfind] at hfst
    rw [promote]
    cases hfound : (h.tier source).lookup k now with
    | mk found t =>
      rw [hfound] at hfst
      simp only at hfst
      rw [hfst]
      exact .inl ⟨rfl, rfl⟩
  | some e =>
    refine .inr ⟨e, rfl, ?_⟩
    rw [promote, Tier.lookup_of_find? hfind]
    simp only [setTier_tier, place_eq]
    cases hage : e.expired (h.tier target).ttl now with
    | true => exact .inl ⟨rfl, by simp⟩
    | false => exact .inr ⟨rfl, by simp [raised]⟩

/-- A value has been loaded into the coldest tier ahead of use. -/
def loaded (h : Hierarchy K V) (k : K) (e : Entry V) : Hierarchy K V :=
  let h := h.takeOver .cold ((h.tier .cold).put k e)
  { h with counters := { h.counters with prefetched := h.counters.prefetched + 1 } }

theorem tier_loaded (h : Hierarchy K V) (m : Level) (k : K) (e : Entry V) :
    (h.loaded k e).tier m = if m = .cold then ((h.tier .cold).put k e).tier else h.tier m :=
  h.tier_takeOver .cold m _

theorem get_eq (h : Hierarchy K V) (k : K) (now : Int) :
    h.get k now =
      match (probe k now Level.all h).1 with
      | some (l, e) => (some e.value, (probe k now Level.all h).2.serve k l now)
      | none =>
        (none, { (probe k now Level.all h).2 with
          counters := (probe k now Level.all h).2.counters.miss }) := rfl

theorem putSpeculative_eq (h : Hierarchy K V) (k : K) (v : V) (now : Int) :
    h.putSpeculative k v now =
      if h.contains k now then (false, h)
      else (true, (h.loaded k ⟨v, now⟩).settleAll .cold
        ((h.tier .cold).put k ⟨v, now⟩).evicted now) := rfl

/-- What the changes that write no value keep, given the entries in flight and the tiers that they
have left. -/
structure Traced (now : Int) (P : Hierarchy K V → List (Level × K × Entry V) → Prop) : Prop where
  missed : ∀ h, P h [] → P { h with counters := h.counters.miss } []
  lookedUp : ∀ h l k, P h [] → P (h.setTier l ((h.tier l).lookup k now).2) []
  served : ∀ h l k, P h [] → P (h.served l k now) []
  raised : ∀ h source target k e, (h.tier source).find? k now = some e →
    e.expired (h.tier target).ttl now = false → P h [] →
    P (h.raised target k e) (sentFrom target ((h.tier target).put k e).evicted)
  resized : ∀ h l capacity, P h [] →
    P (h.takeOver l ((h.tier l).resize capacity)) (sentFrom l ((h.tier l).resize capacity).evicted)
  purged : ∀ h, P h [] → P (h.purgeExpired now).2 []
  pruned : ∀ h staleness, P h [] → P (h.pruneHistories staleness now).2 []
  gone : ∀ h l k e rest, (∀ next ∈ l.colder, e.expired (h.tier next).ttl now = true) →
    P h ((l, k, e) :: rest) → P (h.countEviction.finishMove k) rest
  superseded : ∀ h l k e rest, h.contains k now = true → P h ((l, k, e) :: rest) →
    P (h.finishMove k) rest
  lands : ∀ h l next k e rest, l.colder = some next → e.expired (h.tier next).ttl now = false →
    h.contains k now = false → P h ((l, k, e) :: rest) →
    P (h.landed next k e) (sentFrom next ((h.tier next).put k e).evicted ++ rest)

namespace Traced

variable {now : Int} {P : Hierarchy K V → List (Level × K × Entry V) → Prop}

theorem settleAll (hP : Traced now P) (h : Hierarchy K V) (l : Level)
    (evicted : List (K × Entry V)) (hh : P h (sentFrom l evicted)) :
    P (h.settleAll l evicted now) [] := by
  refine settleAll_induction P hP.gone hP.superseded hP.lands h l evicted [] ?_
  rwa [List.append_nil]

theorem probe (hP : Traced now P) (k : K) (levels : List Level) (h : Hierarchy K V)
    (hh : P h []) : P (Hierarchy.probe k now levels h).2 [] := by
  induction levels generalizing h with
  | nil => exact hh
  | cons l colder ih =>
    have hl := hP.lookedUp h l k hh
    rw [Hierarchy.probe]
    cases hfound : (h.tier l).lookup k now with
    | mk found t =>
      rw [hfound] at hl
      cases found with
      | some e => exact hl
      | none => exact ih _ hl

theorem promote (hP : Traced now P) (h : Hierarchy K V) (k : K) (source target : Level)
    (hh : P h []) : P (h.promote k source target now) [] := by
  rcases h.promote_cases k source target now with ⟨-, hpromote⟩ | ⟨e, hfind, hcases⟩
  · rw [hpromote]
    exact hP.lookedUp h source k hh
  · rcases hcases with ⟨-, hpromote⟩ | ⟨hage, hpromote⟩
    · rw [hpromote]
      exact hh
    · rw [hpromote]
      exact hP.settleAll _ target _ (hP.raised h source target k e hfind hage hh)

theorem get (hP : Traced now P) (h : Hierarchy K V) (k : K) (hh : P h []) :
    P (h.get k now).2 [] := by
  have hprobe := hP.probe k Level.all h hh
  rw [get_eq]
  cases (Hierarchy.probe k now Level.all h).1 with
  | none => exact hP.missed _ hprobe
  | some hit =>
    have hserved := hP.served _ hit.1 k hprobe
    simp only [serve_eq]
    split
    · exact hserved
    · exact hP.promote _ k hit.1 _ hserved

theorem resizeTier (hP : Traced now P) (h : Hierarchy K V) (l : Level) (capacity : Capacity)
    (hh : P h []) : P (h.resizeTier l capacity now).2 [] :=
  hP.settleAll _ l _ (hP.resized h l capacity hh)

theorem tuneTiers (hP : Traced now P) (levels : List Level) (u : Tuner) (h : Hierarchy K V)
    (hh : P h []) : P (Tuner.tuneTiers now levels u h).2.2 [] := by
  induction levels generalizing u h with
  | nil => exact hh
  | cons l rest ih =>
    have hone : P (u.tuneTier h l now).2.2 [] := by
      rw [Tuner.tuneTier]
      simp only
      split
      · exact hh
      · split
        · exact hh
        · exact hP.resizeTier h l _ hh
    exact ih _ _ hone

end Traced

/-- What the writes of some values and all removals keep as well. -/
structure TracedWrites (now : Int) (allowed : K → V → Prop)
    (P : Hierarchy K V → List (Level × K × Entry V) → Prop) : Prop extends Traced now P where
  written : ∀ h l k v, allowed k v → P h [] →
    P ((h.recordAccess k now).2.placed l k ⟨v, now⟩)
      (sentFrom l ((h.tier l).put k ⟨v, now⟩).evicted)
  loaded : ∀ h k v, allowed k v → h.contains k now = false → P h [] →
    P (h.loaded k ⟨v, now⟩) (sentFrom .cold ((h.tier .cold).put k ⟨v, now⟩).evicted)
  removed : ∀ h k, P h [] → P (h.remove k) []
  cleared : ∀ h, P h [] → P h.clear []

namespace TracedWrites

variable {now : Int} {allowed : K → V → Prop}
  {P : Hierarchy K V → List (Level × K × Entry V) → Prop}

theorem put (hP : TracedWrites now allowed P) (h : Hierarchy K V) {k : K} {v : V}
    (hv : allowed k v) (hh : P h []) : P (h.put k v now) [] :=
  hP.settleAll _ _ _ (hP.written h _ k v hv hh)

theorem putSpeculative (hP : TracedWrites now allowed P) (h : Hierarchy K V) {k : K} {v : V}
    (hv : allowed k v) (hh : P h []) : P (h.putSpeculative k v now).2 [] := by
  rw [putSpeculative_eq]
  split
  · exact hh
  · rename_i hheld
    rw [Bool.not_eq_true] at hheld
    exact hP.settleAll _ .cold _ (hP.loaded h k v hv hheld hh)

theorem loadAll (hP : TracedWrites now allowed P) (h : Hierarchy K V) (load : K → LoadResult V)
    (keys : List K) (hkeys : ∀ k ∈ keys, ∀ v, load k = .value v → allowed k v) (hh : P h []) :
    P (h.loadAll load keys now).2 [] := by
  have hfold : ∀ (keys : List K) (state : PrefetchReport × Hierarchy K V),
      (∀ k ∈ keys, ∀ v, load k = .value v → allowed k v) → P state.2 [] →
      P (keys.foldl (loadOne load now) state).2 [] := by
    intro keys
    induction keys with
    | nil => exact fun _ _ hstate => hstate
    | cons k keys ih =>
      intro state hkeys hstate
      refine ih _ (fun j hj => hkeys j (List.mem_cons_of_mem k hj)) ?_
      rw [loadOne]
      split
      · rename_i v hv
        exact hP.putSpeculative _ (hkeys k List.mem_cons_self v hv) hstate
      · exact hstate
      · exact hstate
  exact hfold keys ({}, h) hkeys hh

end TracedWrites

end Hierarchy

/-- The values that an operation writes, if they are accepted. -/
def Operation.Writes {K V : Type} : Operation K V → K → V → Prop
  | .put j w, k, v => j = k ∧ w = v
  | .putSpeculative j w, k, v => j = k ∧ w = v
  | .loadAhead keys load, k, v => k ∈ keys ∧ load k = .value v
  | _, _, _ => False

namespace Session

variable {K V : Type} [DecidableEq K] {allowed : K → V → Prop}
  {P : Int → Hierarchy K V → List (Level × K × Entry V) → Prop}

theorem step_traced {s : Session K V} (hnow : Hierarchy.TracedWrites s.now allowed (P s.now))
    (hlater : ∀ time : Nat, P s.now s.hierarchy [] → P (s.now + time) s.hierarchy [])
    (op : Operation K V) (hop : ∀ k v, op.Writes k v → allowed k v)
    (hs : P s.now s.hierarchy []) : P (s.step op).2.now (s.step op).2.hierarchy [] := by
  cases op with
  | get k => exact hnow.get _ k hs
  | put k v => exact hnow.put _ (hop k v ⟨rfl, rfl⟩) hs
  | putSpeculative k v => exact hnow.putSpeculative _ (hop k v ⟨rfl, rfl⟩) hs
  | remove k => exact hnow.removed _ k hs
  | clear => exact hnow.cleared _ hs
  | contains k => exact hs
  | levelOf k => exact hs
  | resizeTier l capacity => exact hnow.resizeTier _ l capacity hs
  | purgeExpired => exact hnow.purged _ hs
  | pruneHistories staleness => exact hnow.pruned _ staleness hs
  | sweep staleness => exact hnow.pruned _ staleness (hnow.purged _ hs)
  | tune => exact hnow.tuneTiers Level.all s.tuner _ hs
  | loadAhead keys load =>
    exact hnow.loadAll _ load keys (fun k hk v hv => hop k v ⟨hk, hv⟩) hs
  | advance time => exact hlater time hs

/-- What every change and the passing of time keep holds at the end of every run that writes only
what is allowed. -/
theorem run_traced (hP : ∀ now, Hierarchy.TracedWrites now allowed (P now))
    (hlater : ∀ now time h, P now h [] → P (now + (time : Nat)) h [])
    (s : Session K V) (ops : List (Operation K V))
    (hops : ∀ op ∈ ops, ∀ k v, op.Writes k v → allowed k v) (hs : P s.now s.hierarchy []) :
    P (s.run ops).2.now (s.run ops).2.hierarchy [] := by
  induction ops generalizing s with
  | nil => exact hs
  | cons op rest ih =>
    rw [run_cons]
    refine ih _ (fun op' hop' => hops op' (List.mem_cons_of_mem op hop')) ?_
    exact step_traced (hP s.now) (fun time => hlater s.now time s.hierarchy) op
      (hops op List.mem_cons_self) hs

end Session

end TieredCache
