import TieredCache.Config.Reader
import TieredCache.Proofs.Decoding

/-!
# Configurations read back as they were written

A configuration is written with all its fields. The reader starts from the defaults and, in the
tiers, from sections without any field; with every field there, nothing of either is left.
-/

namespace TieredCache

open Json

/-! ### Tiers -/

/-- Counts have 64 bits, and durations can be represented. -/
structure TierLimits.Representable (t : TierLimits) : Prop where
  minCapacity : t.minCapacity < UInt64.size
  capacity : t.capacity < UInt64.size
  maxCapacity : t.maxCapacity < UInt64.size
  ttl : t.ttl ≤ Duration.longest

/-- A tier section that leaves no field out. -/
def TierLimits.overrides (t : TierLimits) : TierOverrides :=
  ⟨some t.minCapacity, some t.capacity, some t.maxCapacity, some t.ttl⟩

/-- Where no field is left out nothing comes from the standard, and no bound is widened. -/
theorem TierLimits.apply_overrides (t standard : TierLimits) : t.overrides.apply standard = t := by
  rfl

theorem TierLimits.Representable.decodes {t : TierLimits} (ht : t.Representable) :
    Decodes (Config.tierOverrides.read {}) t.document t.overrides :=
  Section.decodes (by decide) <|
    .of ((decodes_natural _ _).optional (by rintro ⟨⟩)) <|
    .of ((decodes_natural _ _).optional (by rintro ⟨⟩)) <|
    .of ((decodes_natural _ _).optional (by rintro ⟨⟩)) <|
    .of ((decodes_duration ht.ttl).optional (by rintro ⟨⟩)) <|
    .nil _

theorem TierLimits.Representable.readable {t : TierLimits} (ht : t.Representable) :
    t.document.Readable :=
  ⟨readsBack_natural ht.minCapacity, readsBack_natural ht.capacity,
    readsBack_natural ht.maxCapacity, trivial, trivial⟩

theorem decodes_tiers {t : PerLevel TierLimits} (ht : ∀ l, (t.get l).Representable) :
    Decodes Config.readTiers (TierLimits.documents t) t := by
  have hsections : Decodes (Config.tiersOverrides.read (.replicate {})) (TierLimits.documents t)
      ⟨t.hot.overrides, t.warm.overrides, t.cold.overrides⟩ :=
    Section.decodes (by decide) <|
      .of (ht .hot).decodes <| .of (ht .warm).decodes <| .of (ht .cold).decodes <| .nil _
  intro o ho
  rw [Config.readTiers, hsections o ho]
  simp only [Except.map, Config.applyOverrides, TierLimits.apply_overrides]

/-! ### Other sections -/

structure Migration.Representable (m : Migration) : Prop where
  hotMinFrequency : m.hotMinFrequency < UInt64.size
  hotRecency : m.hotRecency ≤ Duration.longest
  warmMinFrequency : m.warmMinFrequency < UInt64.size
  warmRecency : m.warmRecency ≤ Duration.longest

theorem Migration.Representable.decodes {m : Migration} (hm : m.Representable) :
    Decodes Config.readMigration m.document m :=
  Section.decodes (by decide) <|
    .of (decodes_natural _ _) <| .of (decodes_duration hm.hotRecency) <|
    .of (decodes_natural _ _) <| .of (decodes_duration hm.warmRecency) <| .nil _

structure JanitorSettings.Representable (j : JanitorSettings) : Prop where
  interval : j.interval ≤ Duration.longest
  accessStaleness : j.accessStaleness ≤ Duration.longest

theorem JanitorSettings.Representable.decodes {j : JanitorSettings} (hj : j.Representable) :
    Decodes Config.readJanitor j.document j :=
  Section.decodes (by decide) <|
    .of (decodes_duration hj.interval) <| .of (decodes_duration hj.accessStaleness) <| .nil _

structure AutoTuneSettings.Representable (a : AutoTuneSettings) : Prop where
  interval : a.interval ≤ Duration.longest
  minSamples : a.minSamples < UInt64.size

theorem AutoTuneSettings.Representable.decodes {a : AutoTuneSettings} (ha : a.Representable) :
    Decodes Config.readAutoTune a.document a :=
  Section.decodes (by decide) <|
    .of (decodes_bool _) <| .of (decodes_duration ha.interval) <| .of (decodes_float _) <|
    .of (decodes_float _) <| .of (decodes_float _) <| .of (decodes_natural _ _) <| .nil _

structure PrefetchSettings.Representable (p : PrefetchSettings) : Prop where
  interval : p.interval ≤ Duration.longest
  minFrequency : p.minFrequency < UInt64.size
  hotWindow : p.hotWindow ≤ Duration.longest
  maxHotKeys : p.maxHotKeys < UInt64.size
  maxLoadsPerPass : p.maxLoadsPerPass < UInt64.size

theorem PrefetchSettings.Representable.decodes {p : PrefetchSettings} (hp : p.Representable) :
    Decodes Config.readPrefetch p.document p :=
  Section.decodes (by decide) <|
    .of (decodes_bool _) <| .of (decodes_duration hp.interval) <| .of (decodes_natural _ _) <|
    .of (decodes_duration hp.hotWindow) <| .of (decodes_natural _ _) <|
    .of (decodes_natural _ _) <| .nil _

/-! ### Whole configurations -/

/-- The settings that are fractions. -/
def AutoTuneSettings.fractions (a : AutoTuneSettings) : List Float :=
  [a.stepFraction, a.expandThreshold, a.shrinkThreshold]

namespace Config

/-- A configuration whose counts have 64 bits and whose durations can be represented. It need not be
valid. -/
structure Representable (c : Config) : Prop where
  tiers : ∀ l, (c.tiers.get l).Representable
  migration : c.migration.Representable
  janitor : c.janitor.Representable
  autoTune : c.autoTune.Representable
  prefetch : c.prefetch.Representable

theorem Representable.decodes {c : Config} (hc : c.Representable) :
    Decodes readOutline c.document c :=
  Section.decodes (by decide) <|
    .of (decodes_tiers hc.tiers) <| .of hc.migration.decodes <| .of hc.janitor.decodes <|
    .of hc.autoTune.decodes <| .of hc.prefetch.decodes <| .nil _

theorem Representable.readable {c : Config} (hc : c.Representable)
    (hfractions : ∀ x ∈ c.autoTune.fractions, (Number.float x).ReadsBack) :
    c.document.Readable := by
  have htiers : (TierLimits.documents c.tiers).Readable :=
    ⟨(hc.tiers .hot).readable, (hc.tiers .warm).readable, (hc.tiers .cold).readable, trivial⟩
  have hmigration : c.migration.document.Readable :=
    ⟨readsBack_natural hc.migration.hotMinFrequency, trivial,
      readsBack_natural hc.migration.warmMinFrequency, trivial, trivial⟩
  have hautoTune : c.autoTune.document.Readable :=
    ⟨trivial, trivial, hfractions _ (by simp [AutoTuneSettings.fractions]),
      hfractions _ (by simp [AutoTuneSettings.fractions]),
      hfractions _ (by simp [AutoTuneSettings.fractions]),
      readsBack_natural hc.autoTune.minSamples, trivial⟩
  have hprefetch : c.prefetch.document.Readable :=
    ⟨trivial, trivial, readsBack_natural hc.prefetch.minFrequency, trivial,
      readsBack_natural hc.prefetch.maxHotKeys, readsBack_natural hc.prefetch.maxLoadsPerPass,
      trivial⟩
  exact ⟨htiers, hmigration, ⟨trivial, trivial, trivial⟩, hautoTune, hprefetch, trivial⟩

/-- A configuration is read back as it was written, valid or not, from both of its texts, provided
that its fractions are read back as JSON numbers. -/
theorem parse_document {c : Config} (hc : c.Representable)
    (hfractions : ∀ x ∈ c.autoTune.fractions, (Number.float x).ReadsBack) :
    parse c.document.compact = .ok c ∧ parse c.document.indented = .ok c ∧
      (∀ o : Outline, o.value? = .ok (TierLimits.documents c.tiers) → readTiers o = .ok c.tiers) ∧
      ∀ d ≤ Duration.longest, DurationText.read (DurationText.write d) = .ok d := by
  have hreadable := hc.readable hfractions
  exact ⟨hc.decodes.compact hreadable, hc.decodes.indented hreadable, decodes_tiers hc.tiers,
    fun _ => DurationText.read_write⟩

/-- The bounds of the hot tier are out of order, the cold one holds nothing, and the longest of all
durations stands beside the shortest. -/
def lopsided : Config where
  tiers := ⟨⟨500, UInt64.size - 1, 100, Duration.longest⟩, .standard .warm, .fixed 0 1⟩
  janitor := ⟨0, 31557600 * Duration.second + 2630016 * Duration.second + 1⟩

theorem representable_lopsided : lopsided.Representable where
  tiers l := by
    cases l
    · exact ⟨by decide, by decide, by decide, by decide⟩
    · exact ⟨by decide, by decide, by decide, by decide⟩
    · exact ⟨by decide, by decide, by decide, by decide⟩
  migration := ⟨by decide, by decide, by decide, by decide⟩
  janitor := ⟨by decide, by decide⟩
  autoTune := ⟨by decide, by decide⟩
  prefetch := ⟨by decide, by decide, by decide, by decide, by decide⟩

theorem readsBack_lopsided : ∀ x ∈ lopsided.autoTune.fractions, (Number.float x).ReadsBack := by
  have hstep : (Number.float 0.10).ReadsBack :=
    readsBack_float (s := "0.1") (m := ⟨false, ['0'], some ['1'], none⟩) (by decide +kernel)
      ⟨⟨[], by decide⟩, rfl, rfl⟩ (by decide) (by decide +kernel)
  have hexpand : (Number.float 0.80).ReadsBack :=
    readsBack_float (s := "0.8") (m := ⟨false, ['0'], some ['8'], none⟩) (by decide +kernel)
      ⟨⟨[], by decide⟩, rfl, rfl⟩ (by decide) (by decide +kernel)
  have hshrink : (Number.float 0.05).ReadsBack :=
    readsBack_float (s := "0.05") (m := ⟨false, ['0'], some ['0', '5'], none⟩) (by decide +kernel)
      ⟨⟨[], by decide⟩, rfl, rfl⟩ (by decide) (by decide +kernel)
  intro x hx
  simp only [AutoTuneSettings.fractions, List.mem_cons, List.not_mem_nil, or_false] at hx
  obtain rfl | rfl | rfl := hx
  · exact hstep
  · exact hexpand
  · exact hshrink

theorem parse_document_of_lopsided :
    (lopsided.Representable ∧ ∀ x ∈ lopsided.autoTune.fractions, (Number.float x).ReadsBack) ∧
      parse lopsided.document.compact = .ok lopsided ∧
      parse lopsided.document.indented = .ok lopsided ∧
      (∀ o : Outline, o.value? = .ok (TierLimits.documents lopsided.tiers) →
        readTiers o = .ok lopsided.tiers) ∧
      ∀ d ≤ Duration.longest, DurationText.read (DurationText.write d) = .ok d :=
  ⟨⟨representable_lopsided, readsBack_lopsided⟩,
    parse_document representable_lopsided readsBack_lopsided⟩

end Config

end TieredCache
