import TieredCache.Proofs.TracedRuns

/-!
# What whole runs keep

For most properties it does not matter what is counted, nor which tier an entry in flight has left.
`Kept` lists the changes without writes as far as such properties can tell them apart,
`KeptByWrites` the others. A property that all changes keep is kept by every run.
-/

namespace TieredCache

theorem Except.bind_eq_ok {ε α β : Type} {x : Except ε α} {f : α → Except ε β} {b : β}
    (h : x >>= f = .ok b) : ∃ a, x = .ok a ∧ f a = .ok b := by
  cases x with
  | error e => exact absurd h (by simp [bind, Except.bind])
  | ok a => exact ⟨a, rfl, h⟩

namespace Hierarchy

variable {K V : Type}

/-- A hierarchy in which nothing has happened yet. -/
def fresh (config : Config) (stripe : K → Nat) (capacities : PerLevel Capacity) :
    Hierarchy K V where
  config
  tiers :=
    ⟨Tier.empty .hot capacities.hot config.tiers.hot.ttl,
      Tier.empty .warm capacities.warm config.tiers.warm.ttl,
      Tier.empty .cold capacities.cold config.tiers.cold.ttl⟩
  tracker := Tracker.empty
  counters := {}
  stripe
  moves := {}

theorem tier_fresh (config : Config) (stripe : K → Nat) (capacities : PerLevel Capacity)
    (l : Level) : (fresh config stripe capacities : Hierarchy K V).tier l =
      Tier.empty l (capacities.get l) (config.tiers.get l).ttl := by
  cases l <;> rfl

theorem ofLimits_eq_ok {l : Level} {limits : TierLimits} {t : Tier K V}
    (h : Tier.ofLimits l limits = .ok t) :
    ∃ capacity : Capacity, capacity.value = limits.capacity ∧
      t = Tier.empty l capacity limits.ttl := by
  rw [Tier.ofLimits, Capacity.ofNat?] at h
  by_cases hpos : 0 < limits.capacity
  · rw [dif_pos hpos] at h
    simp only at h
    split at h
    · exact absurd h (by simp)
    · exact ⟨⟨limits.capacity, hpos⟩, rfl, (Except.ok.inj h).symm⟩
  · rw [dif_neg hpos] at h
    exact absurd h (by simp)

/-- A new hierarchy has empty tiers of the configured capacities. -/
theorem eq_fresh_of_new {config : Config} {stripe : K → Nat} {h : Hierarchy K V}
    (hnew : new config stripe = .ok h) :
    ∃ capacities : PerLevel Capacity,
      (∀ l, (capacities.get l).value = (config.tiers.get l).capacity) ∧
        h = fresh config stripe capacities := by
  rw [new] at hnew
  obtain ⟨-, -, hnew⟩ := Except.bind_eq_ok hnew
  obtain ⟨hot, hhot, hnew⟩ := Except.bind_eq_ok hnew
  obtain ⟨warm, hwarm, hnew⟩ := Except.bind_eq_ok hnew
  obtain ⟨cold, hcold, hnew⟩ := Except.bind_eq_ok hnew
  obtain ⟨hotCapacity, hvalue, rfl⟩ := ofLimits_eq_ok hhot
  obtain ⟨warmCapacity, wvalue, rfl⟩ := ofLimits_eq_ok hwarm
  obtain ⟨coldCapacity, cvalue, rfl⟩ := ofLimits_eq_ok hcold
  refine ⟨⟨hotCapacity, warmCapacity, coldCapacity⟩, ?_, (Except.ok.inj hnew).symm⟩
  intro l
  cases l
  · exact hvalue
  · exact wvalue
  · exact cvalue

variable [DecidableEq K]

/-- What the changes that write nothing keep, given the entries in flight. -/
structure Kept (now : Int) (P : Hierarchy K V → List (K × Entry V) → Prop) : Prop where
  noted : ∀ h tracker counters flight, P h flight →
    P { h with tracker := tracker, counters := counters } flight
  lookedUp : ∀ h l k, P h [] → P (h.setTier l ((h.tier l).lookup k now).2) []
  touched : ∀ h l k, P h [] → P (h.setTier l ((h.tier l).touch k)) []
  raised : ∀ h source target k e, (h.tier source).find? k now = some e →
    e.expired (h.tier target).ttl now = false → P h [] →
    P (h.placed target k e) ((h.tier target).put k e).evicted
  resized : ∀ h l capacity, P h [] →
    P (h.takeOver l ((h.tier l).resize capacity)) ((h.tier l).resize capacity).evicted
  purged : ∀ h, P h [] → P { h with tiers := h.tiers.map fun t => (t.purge now).2 } []
  gone : ∀ h k e rest, P h ((k, e) :: rest) → P (h.finishMove k) rest
  superseded : ∀ h k e rest, h.contains k now = true → P h ((k, e) :: rest) →
    P (h.finishMove k) rest
  lands : ∀ h k e rest l, e.expired (h.tier l).ttl now = false → h.contains k now = false →
    P h ((k, e) :: rest) → P (h.landed l k e) (((h.tier l).put k e).evicted ++ rest)

namespace Kept

variable {now : Int} {P : Hierarchy K V → List (K × Entry V) → Prop}

theorem traced (hP : Kept now P) :
    Traced now fun h flight => P h (flight.map Prod.snd) where
  missed h hh := hP.noted h h.tracker _ _ hh
  lookedUp h l k hh := hP.lookedUp h l k hh
  served h l k hh := by
    have htouched := hP.touched h l k hh
    have hhit := hP.noted _ h.tracker (h.counters.hit l) _ htouched
    exact hP.noted _ (h.tracker.record k now).2 (h.counters.hit l) _ hhit
  raised h source target k e hfind hage hh := by
    have hplaced := hP.raised h source target k e hfind hage hh
    rw [map_snd_sentFrom]
    exact hP.noted _ (h.placed target k e).tracker (h.raised target k e).counters _ hplaced
  resized h l capacity hh := by
    rw [map_snd_sentFrom]
    exact hP.resized h l capacity hh
  purged h hh := hP.purged h hh
  pruned h staleness hh := hP.noted h _ h.counters _ hh
  gone h l k e rest _ hh := hP.gone _ k e _ (hP.noted h h.tracker _ _ hh)
  superseded h l k e rest hheld hh := hP.superseded h k e _ hheld hh
  lands h l next k e rest _ hage hheld hh := by
    rw [List.map_append, map_snd_sentFrom]
    exact hP.lands h k e _ next hage hheld hh

theorem settleAll (hP : Kept now P) (h : Hierarchy K V) (l : Level) (evicted : List (K × Entry V))
    (hh : P h evicted) : P (h.settleAll l evicted now) [] := by
  apply hP.traced.settleAll
  rwa [map_snd_sentFrom]

theorem get (hP : Kept now P) (h : Hierarchy K V) (k : K) (hh : P h []) :
    P (h.get k now).2 [] :=
  hP.traced.get h k hh

theorem resizeTier (hP : Kept now P) (h : Hierarchy K V) (l : Level) (capacity : Capacity)
    (hh : P h []) : P (h.resizeTier l capacity now).2 [] :=
  hP.traced.resizeTier h l capacity hh

theorem tuneTiers (hP : Kept now P) (levels : List Level) (u : Tuner) (h : Hierarchy K V)
    (hh : P h []) : P (Tuner.tuneTiers now levels u h).2.2 [] :=
  hP.traced.tuneTiers levels u h hh

end Kept

/-- What the writes and removals keep as well. -/
structure KeptByWrites (now : Int) (P : Hierarchy K V → List (K × Entry V) → Prop) : Prop
    extends Kept now P where
  written : ∀ h l k v, P h [] →
    P (h.placed l k ⟨v, now⟩) ((h.tier l).put k ⟨v, now⟩).evicted
  loaded : ∀ h k v, h.contains k now = false → P h [] →
    P (h.takeOver .cold ((h.tier .cold).put k ⟨v, now⟩)) ((h.tier .cold).put k ⟨v, now⟩).evicted
  removed : ∀ h k, P h [] → P { h with tiers := h.tiers.map fun t => (t.remove k).2 } []
  cleared : ∀ h, P h [] → P { h with tiers := h.tiers.map Tier.clear } []

theorem KeptByWrites.traced {now : Int} {P : Hierarchy K V → List (K × Entry V) → Prop}
    (hP : KeptByWrites now P) :
    TracedWrites now (fun _ _ => True) fun h flight => P h (flight.map Prod.snd) where
  toTraced := hP.toKept.traced
  written h l k v _ hh := by
    rw [map_snd_sentFrom]
    exact hP.written _ l k v (hP.noted h _ h.counters _ hh)
  loaded h k v _ hheld hh := by
    have hloaded := hP.loaded h k v hheld hh
    rw [map_snd_sentFrom]
    exact hP.noted _ _ (h.loaded k ⟨v, now⟩).counters _ hloaded
  removed h k hh := hP.noted _ _ h.counters _ (hP.removed h k hh)
  cleared h hh := hP.noted _ _ h.counters _ (hP.cleared h hh)

end Hierarchy

namespace Session

/-- A configuration with room for one entry in each tier. -/
def narrow : Config where
  tiers := ⟨.fixed 1 5, .fixed 1 10, .fixed 1 20⟩
  migration := { hotMinFrequency := 0 }

/-- A session that starts with this configuration and all keys on one stripe. -/
def narrowStart : Session Nat Nat :=
  start (.fresh narrow (fun _ => 0) (.replicate ⟨1, by decide⟩)) narrow.autoTune 0

variable {K V : Type} [DecidableEq K]

theorem step_kept {P : Int → Hierarchy K V → List (K × Entry V) → Prop}
    (hP : ∀ now, Hierarchy.KeptByWrites now (P now))
    (hlater : ∀ now time h, P now h [] → P (now + (time : Nat)) h [])
    (s : Session K V) (op : Operation K V) (hs : P s.now s.hierarchy []) :
    P (s.step op).2.now (s.step op).2.hierarchy [] :=
  step_traced (P := fun now h flight => P now h (flight.map Prod.snd)) (hP s.now).traced
    (fun time => hlater s.now time s.hierarchy) op (fun _ _ _ => trivial) hs

/-- What every change and the passing of time keep holds at the end of every run. -/
theorem run_kept {P : Int → Hierarchy K V → List (K × Entry V) → Prop}
    (hP : ∀ now, Hierarchy.KeptByWrites now (P now))
    (hlater : ∀ now time h, P now h [] → P (now + (time : Nat)) h [])
    (s : Session K V) (ops : List (Operation K V)) (hs : P s.now s.hierarchy []) :
    P (s.run ops).2.now (s.run ops).2.hierarchy [] :=
  run_traced (P := fun now h flight => P now h (flight.map Prod.snd)) (fun now => (hP now).traced)
    hlater s ops (fun _ _ _ _ _ => trivial) hs

end Session

end TieredCache
