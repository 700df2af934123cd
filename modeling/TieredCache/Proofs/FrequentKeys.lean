import TieredCache.Proofs.KeyPlaces

/-!
# Lookups of a more frequent key

The more often a key has been accessed, the hotter the tier that it earns. That it then ends up in a
tier at least as hot does not follow: the entry may be too old for the hottest tier but not for the
middle one, and a key that has earned the hottest tier does not move to the middle one instead. This
is the only exception.
-/

namespace TieredCache

namespace Level

theorem isHotterThan_of_not {l m n : Level} (hlm : ¬ l.isHotterThan m) (hln : l.isHotterThan n) :
    m.isHotterThan n := by
  cases l <;> cases m <;> cases n <;> first | decide | exact absurd hln (by decide) |
    exact absurd rfl hlm

theorem eq_or_isHotterThan {l m : Level} (h : ¬ l.isHotterThan m) : m = l ∨ m.isHotterThan l := by
  cases l <;> cases m <;> first | exact .inl rfl | exact .inr rfl | exact absurd rfl h

theorem eq_of_two_hotter {l m n : Level} (hlm : l.isHotterThan m) (hmn : m.isHotterThan n) :
    l = .hot ∧ m = .warm ∧ n = .cold := by
  cases l <;> cases m <;> cases n <;> first | exact ⟨rfl, rfl, rfl⟩ | exact absurd hlm (by decide) |
    exact absurd hmn (by decide)

end Level

/-- A history with more accesses and the same idle time earns a tier at least as hot. -/
theorem Migration.not_isHotterThan_placement (m : Migration) {a b : History} (now : Int)
    (hfrequency : a.frequency ≤ b.frequency) (hlast : a.lastAccess = b.lastAccess) :
    ¬ (m.placement a now).isHotterThan (m.placement b now) := by
  have hidle : a.idle now = b.idle now := by rw [History.idle, History.idle, hlast]
  unfold placement
  rw [hidle]
  by_cases hhot : m.hotMinFrequency < a.frequency ∧ b.idle now ≤ m.hotRecency
  · have hhot' : m.hotMinFrequency < b.frequency ∧ b.idle now ≤ m.hotRecency :=
      ⟨Nat.lt_of_lt_of_le hhot.1 hfrequency, hhot.2⟩
    rw [if_pos hhot, if_pos hhot']
    decide
  · rw [if_neg hhot]
    by_cases hwarm : m.warmMinFrequency < a.frequency ∧ b.idle now ≤ m.warmRecency
    · have hwarm' : m.warmMinFrequency < b.frequency ∧ b.idle now ≤ m.warmRecency :=
        ⟨Nat.lt_of_lt_of_le hwarm.1 hfrequency, hwarm.2⟩
      rw [if_pos hwarm, if_pos hwarm']
      split <;> decide
    · rw [if_neg hwarm]
      split <;> [skip; split] <;> decide

namespace Hierarchy

variable {K V : Type} [DecidableEq K]

/-- Two hierarchies that differ only in how often a key has been accessed, in the second one at least
as often as in the first. -/
structure MoreFrequent (k : K) (h h' : Hierarchy K V) : Prop where
  same : h' = { h with tracker := h'.tracker }
  others : ∀ j, j ≠ k → h'.tracker.get? j = h.tracker.get? j
  lastAccess :
    (h'.tracker.get? k).map History.lastAccess = (h.tracker.get? k).map History.lastAccess
  frequency : ∀ a ∈ h.tracker.get? k, ∀ b ∈ h'.tracker.get? k, a.frequency ≤ b.frequency

namespace MoreFrequent

variable {k : K} {h h' : Hierarchy K V} {now : Int}

theorem tier_eq (hmore : MoreFrequent k h h') (l : Level) : h'.tier l = h.tier l := by
  rw [hmore.same]
  rfl

theorem config_eq (hmore : MoreFrequent k h h') : h'.config = h.config := by
  rw [hmore.same]

theorem sound (hmore : MoreFrequent k h h') (hh : h.Sound now) : h'.Sound now := by
  rw [hmore.same]
  exact ⟨hh.consistent, hh.single⟩

/-- The histories on which an access is judged differ in their frequencies only. -/
theorem record (hmore : MoreFrequent k h h') (now : Int) :
    (h.tracker.record k now).1.frequency ≤ (h'.tracker.record k now).1.frequency ∧
      (h.tracker.record k now).1.lastAccess = (h'.tracker.record k now).1.lastAccess := by
  have hlast := hmore.lastAccess
  have hfrequency := hmore.frequency
  simp only [Tracker.record]
  cases hb : h'.tracker.get? k with
  | none =>
    rw [hb, Option.map_none, eq_comm, Option.map_eq_none_iff] at hlast
    rw [hlast]
    exact ⟨le_rfl, rfl⟩
  | some b =>
    rw [hb, Option.map_some, eq_comm, Option.map_eq_some_iff] at hlast
    obtain ⟨a, ha, hab⟩ := hlast
    have hle := hfrequency a ha b hb
    rw [ha]
    simp only [Option.getD_some]
    exact ⟨by omega, hab⟩

theorem not_isHotterThan_earned (hmore : MoreFrequent k h h') (now : Int) :
    ¬ (h.earned k now).isHotterThan (h'.earned k now) := by
  obtain ⟨hfrequency, hlast⟩ := hmore.record now
  rw [earned, earned, hmore.config_eq]
  exact h.config.migration.not_isHotterThan_placement now hfrequency hlast

/-- The entry rises less far in the second hierarchy only if the first one takes it to the middle
tier and it is too old for the hottest, which the second one has earned it. -/
theorem isHotterThan_rise_iff (hmore : MoreFrequent k h h') (l : Level) (e : Entry V) :
    (h.rise k l e now).isHotterThan (h'.rise k l e now) ↔
      l = .cold ∧ h.earned k now = .warm ∧ h'.earned k now = .hot ∧
        e.expired (h.tier .warm).ttl now = false ∧ e.expired (h.tier .hot).ttl now := by
  have hearned := hmore.not_isHotterThan_earned now
  unfold rise
  simp only [hmore.tier_eq]
  constructor
  · intro hless
    by_cases hmoves : (h.earned k now).isHotterThan l ∧
        e.expired (h.tier (h.earned k now)).ttl now = false
    · have hhotter := Level.isHotterThan_of_not hearned hmoves.1
      rw [if_pos hmoves] at hless
      by_cases hage : e.expired (h.tier (h'.earned k now)).ttl now = false
      · rw [if_pos ⟨hhotter, hage⟩] at hless
        exact absurd hless hearned
      · rcases Level.eq_or_isHotterThan hearned with hsame | habove
        · rw [hsame] at hage
          exact absurd hmoves.2 hage
        · obtain ⟨hhot, hwarm, rfl⟩ := Level.eq_of_two_hotter habove hmoves.1
          rw [hwarm] at hmoves
          rw [hhot, Bool.not_eq_false] at hage
          exact ⟨rfl, hwarm, hhot, hmoves.2, hage⟩
    · rw [if_neg hmoves] at hless
      exact absurd hless (Level.not_isHotterThan_ite And.left)
  · rintro ⟨rfl, hwarm, hhot, hyoung, hold⟩
    rw [hwarm, hhot, hyoung, hold]
    decide

end MoreFrequent

/-- Of two hierarchies that differ only in the frequency of a key, a lookup leaves the key in a tier
at least as hot in the one in which it is more frequent, with one exception. The coldest tier has
answered, the key has earned the middle one in the first hierarchy and the hottest in the second, and
its entry is young enough for the middle tier but too old for the hottest. -/
theorem get_monotone_unless_too_old {h h' : Hierarchy K V} {k : K} {now : Int} (hh : h.Sound now)
    (hmore : MoreFrequent k h h') (hhit : (h.get k now).1.isSome) :
    ∃ l e m m', (h.tier l).find? k now = some e ∧ (h.get k now).2.HeldAt now k m e ∧
      (h'.get k now).2.HeldAt now k m' e ∧
      (m.isHotterThan m' ↔ l = .cold ∧ h.earned k now = .warm ∧ h'.earned k now = .hot ∧
        e.expired (h.tier .warm).ttl now = false ∧ e.expired (h.tier .hot).ttl now) := by
  obtain ⟨l, hl⟩ := hh.isSome_get_iff.1 hhit
  obtain ⟨e, hfind⟩ := Option.isSome_iff_exists.1 hl
  have hfind' : (h'.tier l).find? k now = some e := by rw [hmore.tier_eq, hfind]
  exact ⟨l, e, h.rise k l e now, h'.rise k l e now, hfind, (hh.get_of_held hfind).2,
    ((hmore.sound hh).get_of_held hfind').2, hmore.isHotterThan_rise_iff l e⟩

end Hierarchy

namespace Session

/-- A configuration in which a key may have been idle for longer than an entry may stay in the
hottest tier, and still earn it. -/
def patient : Config where
  tiers := ⟨.fixed 1 5, .fixed 1 10, .fixed 1 20⟩
  migration := { hotMinFrequency := 2, hotRecency := 6, warmMinFrequency := 1, warmRecency := 6 }

def patientStart : Session Nat Nat :=
  start (.fresh patient (fun _ => 0) (.replicate ⟨1, Nat.one_pos⟩)) patient.autoTune 0

/-- A key was written, forgotten and written again. -/
def afterRemoval : Session Nat Nat :=
  (patientStart.run [.put 1 10, .remove 1, .advance 10, .put 1 10, .advance 6]).2

/-- The same key was written twice. -/
def afterRewrite : Session Nat Nat :=
  (patientStart.run [.put 1 10, .advance 10, .put 1 10, .advance 6]).2

theorem new_patient : Hierarchy.new patient (fun _ => 0) = .ok patientStart.hierarchy := rfl

theorem moreFrequent_afterRewrite :
    Hierarchy.MoreFrequent 1 afterRemoval.hierarchy afterRewrite.hierarchy where
  same := rfl
  others j hj := by
    have hremoval : afterRemoval.hierarchy.tracker.histories.entries = [(1, ⟨1, 10⟩)] := rfl
    have hrewrite : afterRewrite.hierarchy.tracker.histories.entries = [(1, ⟨2, 10⟩)] := rfl
    have hne : ¬ 1 = j := Ne.symm hj
    rw [Tracker.get?, Tracker.get?, Store.get?, Store.get?, hremoval, hrewrite]
    simp [hne]
  lastAccess := by decide
  frequency := by decide

/-- The key that was written twice stays in the coldest tier, as its entry is too old for the tier
that it has earned. The other one moves to the middle tier. -/
theorem get_not_monotone_of_patient :
    ¬ ∀ (h h' : Hierarchy Nat Nat) (now : Int) (k : Nat), h.Sound now → h'.Sound now →
      Hierarchy.MoreFrequent k h h' → (h.get k now).1.isSome → ∀ l m,
      ((h.get k now).2.tier l).contains k now → ((h'.get k now).2.tier m).contains k now →
      ¬ l.isHotterThan m := by
  intro hclaim
  have hsound : afterRemoval.hierarchy.Sound afterRemoval.now := sound_run new_patient _
  have hmonotone := hclaim _ _ afterRemoval.now 1 hsound (moreFrequent_afterRewrite.sound hsound)
    moreFrequent_afterRewrite (by decide) .warm .cold (by decide) (by decide)
  exact hmonotone (by decide)

theorem get_monotone_unless_too_old_of_patient :
    Hierarchy.new patient (fun _ => 0) = .ok patientStart.hierarchy ∧
      (afterRemoval.hierarchy.get 1 afterRemoval.now).1 = some 10 ∧
      ∃ l e m m', (afterRemoval.hierarchy.tier l).find? 1 afterRemoval.now = some e ∧
        (afterRemoval.hierarchy.get 1 afterRemoval.now).2.HeldAt afterRemoval.now 1 m e ∧
        (afterRewrite.hierarchy.get 1 afterRemoval.now).2.HeldAt afterRemoval.now 1 m' e ∧
        (m.isHotterThan m' ↔ l = .cold ∧ afterRemoval.hierarchy.earned 1 afterRemoval.now = .warm ∧
          afterRewrite.hierarchy.earned 1 afterRemoval.now = .hot ∧
          e.expired (afterRemoval.hierarchy.tier .warm).ttl afterRemoval.now = false ∧
          e.expired (afterRemoval.hierarchy.tier .hot).ttl afterRemoval.now) := by
  have hsound : afterRemoval.hierarchy.Sound afterRemoval.now := sound_run new_patient _
  exact ⟨new_patient, by decide,
    Hierarchy.get_monotone_unless_too_old hsound moreFrequent_afterRewrite (by decide)⟩

end Session

end TieredCache
