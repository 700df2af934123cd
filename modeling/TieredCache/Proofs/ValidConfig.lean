import TieredCache.Proofs.SessionRuns

/-!
# What a valid configuration promises

Each check either refuses its part of a configuration or says something about it. A hierarchy comes
from a configuration that has passed all of them.
-/

namespace TieredCache

/-- Capacities in order, from a least one that is not zero, and a time to live. -/
structure TierLimits.Ordered (t : TierLimits) : Prop where
  min_pos : 0 < t.minCapacity
  min_le : t.minCapacity ≤ t.capacity
  le_max : t.capacity ≤ t.maxCapacity
  ttl_pos : 0 < t.ttl

namespace Config

theorem checkTier_eq_ok_iff (l : Level) (limits : TierLimits) :
    checkTier l limits = .ok () ↔ limits.Ordered := by
  unfold checkTier
  constructor
  · intro h
    split at h
    · exact absurd h (by simp)
    · rename_i hbounds
      split at h
      · exact absurd h (by simp)
      · rename_i httl
        exact ⟨by omega, by omega, by omega, by omega⟩
  · intro h
    have hmin := h.min_pos
    have hle := h.min_le
    have hmax := h.le_max
    have httl := h.ttl_pos
    rw [if_neg (by omega), if_neg (by omega)]

theorem checkInterval_eq_ok_iff (task : Task) (interval : Nat) :
    checkInterval task interval = .ok () ↔ 0 < interval := by
  unfold checkInterval
  by_cases h : interval = 0
  · simp [h]
  · simp [h, Nat.pos_of_ne_zero h]

/-- What the first six checks have found out. -/
theorem ordered_and_positive_of_validate {c : Config} (h : validate c = .ok ()) :
    (∀ l, (c.tiers.get l).Ordered) ∧ 0 < c.janitor.interval ∧ 0 < c.autoTune.interval ∧
      0 < c.prefetch.interval := by
  rw [validate] at h
  obtain ⟨_, hhot, h⟩ := Except.bind_eq_ok h
  obtain ⟨_, hwarm, h⟩ := Except.bind_eq_ok h
  obtain ⟨_, hcold, h⟩ := Except.bind_eq_ok h
  obtain ⟨_, hjanitor, h⟩ := Except.bind_eq_ok h
  obtain ⟨_, htune, h⟩ := Except.bind_eq_ok h
  obtain ⟨_, hprefetch, -⟩ := Except.bind_eq_ok h
  refine ⟨fun l => ?_, (checkInterval_eq_ok_iff _ _).1 hjanitor,
    (checkInterval_eq_ok_iff _ _).1 htune, (checkInterval_eq_ok_iff _ _).1 hprefetch⟩
  cases l
  · exact (checkTier_eq_ok_iff _ _).1 hhot
  · exact (checkTier_eq_ok_iff _ _).1 hwarm
  · exact (checkTier_eq_ok_iff _ _).1 hcold

end Config

theorem Hierarchy.validate_of_new {K V : Type} {config : Config} {stripe : K → Nat}
    {h : Hierarchy K V} (hnew : new config stripe = .ok h) : config.validate = .ok () := by
  rw [new] at hnew
  obtain ⟨_, hvalid, -⟩ := Except.bind_eq_ok hnew
  exact hvalid

end TieredCache
