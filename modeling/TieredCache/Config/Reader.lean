import TieredCache.Config.Validate

/-!
# Reading configurations

The records of a configuration and how each is read from JSON. Fields that are not written keep
their defaults.
-/

namespace TieredCache.Config

open Json

def sizeField {σ : Type} (name : String) (put : Nat → σ → σ) : FieldReader σ :=
  .of name (Outline.natural "usize") put

def countField {σ : Type} (name : String) (put : Nat → σ → σ) : FieldReader σ :=
  .of name (Outline.natural "u64") put

def durationField {σ : Type} (name : String) (put : Nat → σ → σ) : FieldReader σ :=
  .of name Outline.duration put

/-- A tier section, whose fields may also be `null`. -/
def tierOverrides : Section TierOverrides where
  expected := "struct TierOverrides"
  fields := [
    .of "min_capacity" (Outline.optional (Outline.natural "usize")) fun n s =>
      { s with minCapacity := n },
    .of "capacity" (Outline.optional (Outline.natural "usize")) fun n s => { s with capacity := n },
    .of "max_capacity" (Outline.optional (Outline.natural "usize")) fun n s =>
      { s with maxCapacity := n },
    .of "ttl" (Outline.optional Outline.duration) fun d s => { s with ttl := d }]
  tooShort := none

def tierLimitsName : String := "struct TierConfig"

/-- A tier section whose fields must all be there. -/
def tierLimits : Section TierOverrides where
  expected := tierLimitsName
  fields := [
    sizeField "min_capacity" fun n s => { s with minCapacity := some n },
    sizeField "capacity" fun n s => { s with capacity := some n },
    sizeField "max_capacity" fun n s => { s with maxCapacity := some n },
    durationField "ttl" fun d s => { s with ttl := some d }]
  tooShort := some fun n => .invalidLength n (tierLimitsName ++ " with 4 elements")

/-- Reads a complete tier section; the first missing field is reported. -/
def readTierLimits (o : Outline) : Except ReadError TierLimits := do
  let s ← tierLimits.read {} o
  let missing (name : String) : ReadError := .mismatch (.missingField name) (byteLength o.behind)
  match s.minCapacity, s.capacity, s.maxCapacity, s.ttl with
  | some minCapacity, some capacity, some maxCapacity, some ttl =>
    return { minCapacity, capacity, maxCapacity, ttl }
  | none, _, _, _ => throw (missing "min_capacity")
  | _, none, _, _ => throw (missing "capacity")
  | _, _, none, _ => throw (missing "max_capacity")
  | _, _, _, none => throw (missing "ttl")

def tiersOverrides : Section (PerLevel TierOverrides) where
  expected := "struct TiersOverrides"
  fields := [
    .of "hot" (tierOverrides.read {}) fun t s => { s with hot := t },
    .of "warm" (tierOverrides.read {}) fun t s => { s with warm := t },
    .of "cold" (tierOverrides.read {}) fun t s => { s with cold := t }]
  tooShort := none

/-- The limits of all tiers, each section filled in from the limits that are standard there. -/
def applyOverrides (o : PerLevel TierOverrides) : PerLevel TierLimits :=
  ⟨o.hot.apply (.standard .hot), o.warm.apply (.standard .warm), o.cold.apply (.standard .cold)⟩

def readTiers (o : Outline) : Except ReadError (PerLevel TierLimits) :=
  (tiersOverrides.read (.replicate {}) o).map applyOverrides

def migrationSection : Section Migration where
  expected := "struct MigrationConfig"
  fields := [
    countField "hot_min_frequency" fun n s => { s with hotMinFrequency := n },
    durationField "hot_recency" fun d s => { s with hotRecency := d },
    countField "warm_min_frequency" fun n s => { s with warmMinFrequency := n },
    durationField "warm_recency" fun d s => { s with warmRecency := d }]
  tooShort := none

def readMigration : Outline → Except ReadError Migration :=
  migrationSection.read {}

def janitorSection : Section JanitorSettings where
  expected := "struct JanitorConfig"
  fields := [
    durationField "interval" fun d s => { s with interval := d },
    durationField "access_staleness" fun d s => { s with accessStaleness := d }]
  tooShort := none

def readJanitor : Outline → Except ReadError JanitorSettings :=
  janitorSection.read {}

def autoTuneSection : Section AutoTuneSettings where
  expected := "struct AutoTuneConfig"
  fields := [
    .of "enabled" Outline.bool? fun b s => { s with enabled := b },
    durationField "interval" fun d s => { s with interval := d },
    .of "step_fraction" Outline.float fun x s => { s with stepFraction := x },
    .of "expand_threshold" Outline.float fun x s => { s with expandThreshold := x },
    .of "shrink_threshold" Outline.float fun x s => { s with shrinkThreshold := x },
    countField "min_samples" fun n s => { s with minSamples := n }]
  tooShort := none

def readAutoTune : Outline → Except ReadError AutoTuneSettings :=
  autoTuneSection.read {}

def prefetchSection : Section PrefetchSettings where
  expected := "struct PrefetchConfig"
  fields := [
    .of "enabled" Outline.bool? fun b s => { s with enabled := b },
    durationField "interval" fun d s => { s with interval := d },
    countField "min_frequency" fun n s => { s with minFrequency := n },
    durationField "hot_window" fun d s => { s with hotWindow := d },
    sizeField "max_hot_keys" fun n s => { s with maxHotKeys := n },
    sizeField "max_loads_per_pass" fun n s => { s with maxLoadsPerPass := n }]
  tooShort := none

def readPrefetch : Outline → Except ReadError PrefetchSettings :=
  prefetchSection.read {}

def configSection : Section Config where
  expected := "struct CacheConfig"
  fields := [
    .of "tiers" readTiers fun t s => { s with tiers := t },
    .of "migration" readMigration fun m s => { s with migration := m },
    .of "janitor" readJanitor fun j s => { s with janitor := j },
    .of "auto_tune" readAutoTune fun a s => { s with autoTune := a },
    .of "prefetch" readPrefetch fun p s => { s with prefetch := p }]
  tooShort := none

def readOutline : Outline → Except ReadError Config :=
  configSection.read {}

/-- Reads the text of a configuration, without checking its values. -/
def parse (text : String) : Except ReadError Config :=
  readText readOutline text

end TieredCache.Config
