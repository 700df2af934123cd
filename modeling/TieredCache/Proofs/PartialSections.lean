import TieredCache.Config.Reader
import TieredCache.Proofs.ValidConfig

/-!
# Tier sections that leave fields out

Bounds that are left out are widened to the capacity that is in force, given or not, so they hold
whatever it is. A section is refused for the fields it gives only.
-/

namespace TieredCache

namespace TierOverrides

/-- The capacity of a section, which is the standard one if none is given. -/
def effectiveCapacity (o : TierOverrides) (standard : TierLimits) : Nat :=
  o.capacity.getD standard.capacity

/-- The fields that a section gives agree with its capacity, and none that must not be is zero. -/
structure Agrees (o : TierOverrides) (capacity : Nat) : Prop where
  capacity_pos : 0 < capacity
  minCapacity : ∀ m ∈ o.minCapacity, 0 < m ∧ m ≤ capacity
  maxCapacity : ∀ m ∈ o.maxCapacity, capacity ≤ m
  ttl : ∀ d ∈ o.ttl, 0 < d

/-- A given field that is zero or on the wrong side of the capacity. -/
inductive Fault (o : TierOverrides) (capacity : Nat) : Prop
  | zeroCapacity : o.capacity = some 0 → Fault o capacity
  | zeroMin : o.minCapacity = some 0 → Fault o capacity
  | minAbove (m : Nat) : o.minCapacity = some m → capacity < m → Fault o capacity
  | maxBelow (m : Nat) : o.maxCapacity = some m → m < capacity → Fault o capacity
  | zeroTtl : o.ttl = some 0 → Fault o capacity

variable (o : TierOverrides) {standard : TierLimits}

theorem apply_of_given (standard : TierLimits) :
    (∀ m ∈ o.minCapacity, (o.apply standard).minCapacity = m) ∧
      (∀ c ∈ o.capacity, (o.apply standard).capacity = c) ∧
      (∀ m ∈ o.maxCapacity, (o.apply standard).maxCapacity = m) ∧
      ∀ d ∈ o.ttl, (o.apply standard).ttl = d := by
  obtain ⟨minCapacity, capacity, maxCapacity, ttl⟩ := o
  refine ⟨?_, ?_, ?_, ?_⟩
  all_goals
    rintro n rfl
    rfl

theorem ordered_apply_iff (hstandard : standard.Ordered) :
    (o.apply standard).Ordered ↔ o.Agrees (o.effectiveCapacity standard) := by
  have hmin := hstandard.min_pos
  obtain ⟨minCapacity, capacity, maxCapacity, ttl⟩ := o
  constructor
  · rintro ⟨hpos, hle, hmax, httl⟩
    refine ⟨Nat.lt_of_lt_of_le hpos hle, ?_, ?_, ?_⟩
    · rintro m rfl
      exact ⟨hpos, hle⟩
    · rintro m rfl
      exact hmax
    · rintro d rfl
      exact httl
  · rintro ⟨hpos, hgivenMin, hgivenMax, hgivenTtl⟩
    refine ⟨?_, ?_, ?_, ?_⟩
    · cases minCapacity with
      | none => exact Nat.lt_min.2 ⟨hmin, hpos⟩
      | some m => exact (hgivenMin m rfl).1
    · cases minCapacity with
      | none => exact Nat.min_le_right _ _
      | some m => exact (hgivenMin m rfl).2
    · cases maxCapacity with
      | none => exact Nat.le_max_right _ _
      | some m => exact hgivenMax m rfl
    · cases ttl with
      | none => exact hstandard.ttl_pos
      | some d => exact hgivenTtl d rfl

/-- Without a fault in a given field all given fields agree. -/
theorem agrees_or_fault (hstandard : standard.Ordered) :
    o.Agrees (o.effectiveCapacity standard) ∨ o.Fault (o.effectiveCapacity standard) := by
  by_contra hneither
  obtain ⟨hagrees, hfault⟩ := not_or.1 hneither
  refine hagrees ⟨Nat.pos_of_ne_zero fun hzero => ?_, fun m hm => ⟨?_, ?_⟩, fun m hm => ?_,
    fun d hd => ?_⟩
  · cases hcapacity : o.capacity with
    | none =>
      have hstandardPos := Nat.lt_of_lt_of_le hstandard.min_pos hstandard.min_le
      rw [effectiveCapacity, hcapacity, Option.getD_none] at hzero
      omega
    | some c =>
      rw [effectiveCapacity, hcapacity, Option.getD_some] at hzero
      exact hfault (.zeroCapacity (hzero ▸ hcapacity))
  · exact Nat.pos_of_ne_zero fun hzero => hfault (.zeroMin (hzero ▸ hm))
  · exact Nat.le_of_not_lt fun habove => hfault (.minAbove m hm habove)
  · exact Nat.le_of_not_lt fun hbelow => hfault (.maxBelow m hm hbelow)
  · exact Nat.pos_of_ne_zero fun hzero => hfault (.zeroTtl (hzero ▸ hd))

end TierOverrides

theorem TierLimits.ordered_standard (l : Level) : (standard l).Ordered := by
  cases l
  · exact ⟨by decide, by decide, by decide, by decide⟩
  · exact ⟨by decide, by decide, by decide, by decide⟩
  · exact ⟨by decide, by decide, by decide, by decide⟩

namespace Config

/-- A section that leaves fields out keeps those it gives. It is accepted exactly if these agree
with its capacity, so it is refused for a given field only, and never if it gives nothing but a
capacity that is not zero. -/
theorem section_accepted_iff (o : TierOverrides) {standard : TierLimits}
    (hstandard : standard.Ordered) (l : Level) :
    let capacity := o.capacity.getD standard.capacity
    let limits := o.apply standard
    ((∀ m ∈ o.minCapacity, limits.minCapacity = m) ∧ (∀ c ∈ o.capacity, limits.capacity = c) ∧
      (∀ m ∈ o.maxCapacity, limits.maxCapacity = m) ∧ ∀ d ∈ o.ttl, limits.ttl = d) ∧
    (checkTier l limits = .ok () ↔ 0 < capacity ∧
      (∀ m ∈ o.minCapacity, 0 < m ∧ m ≤ capacity) ∧ (∀ m ∈ o.maxCapacity, capacity ≤ m) ∧
      ∀ d ∈ o.ttl, 0 < d) ∧
    (∀ e, checkTier l limits = .error e → o.Fault capacity) ∧
    ∀ c, 0 < c → checkTier l (TierOverrides.apply { capacity := some c } standard) = .ok () := by
  intro capacity limits
  refine ⟨o.apply_of_given standard, ?_, fun e he => ?_, fun c hc => ?_⟩
  · rw [checkTier_eq_ok_iff, o.ordered_apply_iff hstandard]
    exact ⟨fun h => ⟨h.capacity_pos, h.minCapacity, h.maxCapacity, h.ttl⟩,
      fun h => ⟨h.1, h.2.1, h.2.2.1, h.2.2.2⟩⟩
  · rcases o.agrees_or_fault hstandard with hagrees | hfault
    · rw [(checkTier_eq_ok_iff l _).2 ((o.ordered_apply_iff hstandard).2 hagrees)] at he
      exact absurd he (by simp)
    · exact hfault
  · rw [checkTier_eq_ok_iff, TierOverrides.ordered_apply_iff _ hstandard]
    exact ⟨hc, by rintro m ⟨⟩, by rintro m ⟨⟩, by rintro d ⟨⟩⟩

/-- A capacity above the standard bounds with a least one that is given, and the same least one
without the capacity. -/
theorem section_accepted_iff_of_wide :
    let wide : TierOverrides := { minCapacity := some 5000, capacity := some 10000 }
    let lone : TierOverrides := { minCapacity := some 5000 }
    (TierLimits.standard .hot).Ordered ∧ checkTier .hot (wide.apply (.standard .hot)) = .ok () ∧
      lone.Fault 1000 := by
  intro wide lone
  have hstandard := TierLimits.ordered_standard .hot
  have hwide := section_accepted_iff wide hstandard .hot
  have hlone := section_accepted_iff lone hstandard .hot
  refine ⟨hstandard, hwide.2.1.2 ⟨by decide, ?_, ?_, ?_⟩, hlone.2.2.1 _ rfl⟩
  · rintro m ⟨⟩
    decide
  · rintro m ⟨⟩
  · rintro d ⟨⟩

end Config

end TieredCache
