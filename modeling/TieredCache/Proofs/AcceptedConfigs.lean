import TieredCache.Proofs.ConfigRoundTrip
import TieredCache.Proofs.ValidConfig
import TieredCache.Soak

/-!
# Configurations are refused once or never

A configuration is checked as a whole, and each tier checks its own section again when it is made.
The second check asks for less than the first, so it never fails behind it. Nothing that is accepted
when a file is loaded is refused when the cache is started, with loads ahead of use or without.
-/

namespace TieredCache

/-- An empty tier as some limits ask for it. -/
structure Tier.AsConfigured {K V : Type} (t : Tier K V) (l : Level) (limits : TierLimits) :
    Prop where
  level : t.level = l
  size : t.size = 0
  recency : t.recency = []
  expirations : t.expirations = 0
  capacity : t.capacity.value = limits.capacity
  ttl : t.ttl = limits.ttl
  min_le : limits.minCapacity ≤ t.capacity.value
  le_max : t.capacity.value ≤ limits.maxCapacity

/-- A configuration with loads ahead of use switched on or off. -/
def Config.withPrefetch (c : Config) (enabled : Bool) : Config :=
  { c with prefetch := { c.prefetch with enabled } }

theorem TierLimits.Ordered.ofLimits {K V : Type} {limits : TierLimits} (h : limits.Ordered)
    (l : Level) :
    ∃ t : Tier K V, Tier.ofLimits l limits = .ok t ∧ t.AsConfigured l limits := by
  have hpos : 0 < limits.capacity := Nat.lt_of_lt_of_le h.min_pos h.min_le
  refine ⟨Tier.empty l ⟨limits.capacity, hpos⟩ limits.ttl, ?_,
    ⟨rfl, rfl, rfl, rfl, rfl, rfl, h.min_le, h.le_max⟩⟩
  rw [Tier.ofLimits, Capacity.ofNat?, dif_pos hpos]
  exact if_neg (Nat.pos_iff_ne_zero.1 h.ttl_pos)

namespace Hierarchy

variable {K V : Type} (stripe : K → Nat)

theorem new_of_validate {c : Config} (h : c.validate = .ok ()) :
    ∃ cache : Hierarchy K V, new c stripe = .ok cache ∧ cache.config = c ∧
      ∀ l, (cache.tier l).AsConfigured l (c.tiers.get l) := by
  have hordered := (Config.ordered_and_positive_of_validate h).1
  obtain ⟨hot, hhot, hotAs⟩ := (hordered .hot).ofLimits (K := K) (V := V) .hot
  obtain ⟨warm, hwarm, warmAs⟩ := (hordered .warm).ofLimits (K := K) (V := V) .warm
  obtain ⟨cold, hcold, coldAs⟩ := (hordered .cold).ofLimits (K := K) (V := V) .cold
  refine ⟨⟨c, ⟨hot, warm, cold⟩, Tracker.empty, {}, stripe, {}⟩, ?_, rfl, fun l => ?_⟩
  · change Tier.ofLimits .hot c.tiers.hot = _ at hhot
    change Tier.ofLimits .warm c.tiers.warm = _ at hwarm
    change Tier.ofLimits .cold c.tiers.cold = _ at hcold
    rw [new, h, hhot, hwarm, hcold]
    rfl
  · cases l
    · exact hotAs
    · exact warmAs
    · exact coldAs

theorem new_eq_error_iff (c : Config) (e : Config.Error) :
    (new c stripe : Except Config.Error (Hierarchy K V)) = .error e ↔ c.validate = .error e := by
  cases h : c.validate with
  | error e' =>
    have hnew : (new c stripe : Except Config.Error (Hierarchy K V)) = .error e' := by
      rw [new, h]
      rfl
    rw [hnew, Except.error.injEq, Except.error.injEq]
  | ok u =>
    obtain ⟨cache, hnew, -⟩ := new_of_validate (V := V) stripe (c := c) h
    rw [hnew]
    exact iff_of_false (by simp) (by simp)

end Hierarchy

namespace Config

theorem validate_of_load {file : File} {c : Config} (h : load file = .ok c) :
    c.validate = .ok () := by
  unfold load at h
  split at h
  · obtain rfl := Except.ok.inj h
    rfl
  · exact absurd h (by simp)
  · split at h
    · exact absurd h (by simp)
    · split at h
      · exact absurd h (by simp)
      · rename_i parsed _
        cases hvalid : parsed.validate with
        | error e =>
          rw [hvalid] at h
          exact absurd h (by simp [Except.map])
        | ok u =>
          rw [hvalid] at h
          obtain rfl := Except.ok.inj h
          exact hvalid

theorem fromUTF8?_toUTF8 (text : String) : String.fromUTF8? text.toUTF8 = some text :=
  dif_pos text.isValidUTF8

/-- A file that holds the text of a valid configuration is loaded as that configuration. -/
theorem load_document {c : Config} (hc : c.Representable)
    (hfractions : ∀ x ∈ c.autoTune.fractions, (Json.Number.float x).ReadsBack)
    (hvalid : c.validate = .ok ()) : load (.content c.document.compact.toUTF8) = .ok c := by
  have hparse : parse c.document.compact = .ok c :=
    hc.decodes.compact (hc.readable hfractions)
  simp only [load, fromUTF8?_toUTF8, hparse, hvalid]
  rfl

end Config

theorem Service.spawn_of_new {K V : Type} {c : Config} {stripe : K → Nat} {cache : Hierarchy K V}
    (hnew : Hierarchy.new c stripe = .ok cache) (source : Option (K → LoadResult V)) (now : Int) :
    ∃ s : Service K V, spawn c stripe source true now = .ok s ∧ s.hierarchy = cache := by
  have hservice : Service.new c stripe now =
      .ok ⟨Session.start cache c.autoTune now, fun _ => .absent, .empty now, false⟩ := by
    rw [Service.new, hnew]
    rfl
  rw [spawn, hservice]
  exact ⟨_, rfl, rfl⟩

/-- What is loaded is valid, and is not refused when the cache is made, whatever loads ahead of use
are switched to; this is how the program starts. A cache is refused exactly for what the check of
its whole configuration reports, and no tier of a configuration that passes it is refused. -/
theorem Config.accepted_for_good {K V : Type} (stripe : K → Nat) :
    (∀ file c, load file = .ok c → c.validate = .ok () ∧
      (∀ c', c' = c ∨ (∃ enabled, c' = c.withPrefetch enabled) →
        ∃ cache : Hierarchy K V, Hierarchy.new c' stripe = .ok cache ∧ cache.config = c' ∧
          ∀ l, (cache.tier l).AsConfigured l (c.tiers.get l)) ∧
      ∀ options now, ∃ s, Soak.start options file now = .ok s ∧
        s.hierarchy.config = c.withPrefetch (c.prefetch.enabled || options.prefetch) ∧
        ∀ l, (s.hierarchy.tier l).AsConfigured l (c.tiers.get l)) ∧
    (∀ c e, (Hierarchy.new c stripe : Except Config.Error (Hierarchy K V)) = .error e ↔
      c.validate = .error e) ∧
    ∀ c : Config, c.validate = .ok () → ∀ l, ∃ t : Tier K V,
      Tier.ofLimits l (c.tiers.get l) = .ok t := by
  refine ⟨fun file c hload => ?_, Hierarchy.new_eq_error_iff stripe, fun c hvalid l => ?_⟩
  · have hvalid := validate_of_load hload
    refine ⟨hvalid, ?_, fun options now => ?_⟩
    · rintro c' (rfl | ⟨enabled, rfl⟩)
      · exact Hierarchy.new_of_validate stripe hvalid
      · exact Hierarchy.new_of_validate stripe (c := c.withPrefetch enabled) hvalid
    · obtain ⟨cache, hnew, hconfig, htiers⟩ := Hierarchy.new_of_validate (V := UInt64) Soak.stripe
        (c := c.withPrefetch (c.prefetch.enabled || options.prefetch)) hvalid
      obtain ⟨s, hspawn, hs⟩ := Service.spawn_of_new hnew (some Soak.load) now
      refine ⟨s, ?_, by rw [hs, hconfig], fun l => hs ▸ htiers l⟩
      rw [Soak.start, hload]
      exact hspawn
  · obtain ⟨t, ht, -⟩ := ((ordered_and_positive_of_validate hvalid).1 l).ofLimits l
    exact ⟨t, ht⟩

namespace Config

/-- The hot tier has no room to grow beyond a capacity that is far above the standard. -/
def wide : Config where
  tiers := ⟨⟨256, 10000, 10000, Duration.ofSeconds 30⟩, .standard .warm, .standard .cold⟩

theorem representable_wide : wide.Representable where
  tiers l := by
    cases l
    · exact ⟨by decide, by decide, by decide, by decide⟩
    · exact ⟨by decide, by decide, by decide, by decide⟩
    · exact ⟨by decide, by decide, by decide, by decide⟩
  migration := ⟨by decide, by decide, by decide, by decide⟩
  janitor := ⟨by decide, by decide⟩
  autoTune := ⟨by decide, by decide⟩
  prefetch := ⟨by decide, by decide, by decide, by decide, by decide⟩

/-- A file and a missing one, and a configuration with two violations. -/
theorem accepted_for_good_of_wide :
    let file : File := .content wide.document.compact.toUTF8
    let broken : Config := { wide with tiers := ⟨.fixed 1 0, .fixed 0 0, .standard .cold⟩ }
    (load file = .ok wide ∧ load .missing = .ok {}) ∧
      (∃ cache : Hierarchy String Nat,
        Hierarchy.new (wide.withPrefetch true) (fun _ => 0) = .ok cache ∧
          ∀ l, (cache.tier l).AsConfigured l (wide.tiers.get l)) ∧
      (∃ cache : Hierarchy String Nat, Hierarchy.new {} (fun _ => 0) = .ok cache ∧
        ∀ l, (cache.tier l).AsConfigured l (.standard l)) ∧
      (Hierarchy.new broken (fun _ => 0) : Except Error (Hierarchy String Nat)) =
        .error (.zeroTtl .hot) := by
  intro file broken
  have hfile : load file = .ok wide := load_document representable_wide readsBack_lopsided rfl
  have hmissing : load .missing = .ok {} := rfl
  obtain ⟨hload, hnew, -⟩ := accepted_for_good (V := Nat) fun _ : String => 0
  obtain ⟨cache, hcache, -, htiers⟩ := (hload file wide hfile).2.1 _ (.inr ⟨true, rfl⟩)
  obtain ⟨plain, hplain, -, hplainTiers⟩ := (hload .missing {} hmissing).2.1 _ (.inl rfl)
  refine ⟨⟨hfile, hmissing⟩, ⟨cache, hcache, htiers⟩, ⟨plain, hplain, fun l => ?_⟩,
    (hnew broken _).2 rfl⟩
  cases l
  · exact hplainTiers .hot
  · exact hplainTiers .warm
  · exact hplainTiers .cold

end Config

end TieredCache
