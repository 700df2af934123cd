import TieredCache.Config.Basic
import TieredCache.DurationText.Writer
import TieredCache.Json.Value

/-!
# Writing configurations

A configuration is written with all its fields, in the order in which they are read from an array.
-/

namespace TieredCache

open Json

/-- A length of time in its text form. -/
def Json.Value.duration (d : Nat) : Value :=
  .string (DurationText.write d)

def TierLimits.document (t : TierLimits) : Value :=
  .object [
    ("min_capacity", .nat t.minCapacity),
    ("capacity", .nat t.capacity),
    ("max_capacity", .nat t.maxCapacity),
    ("ttl", .duration t.ttl)]

def TierLimits.documents (t : PerLevel TierLimits) : Value :=
  .object [
    ("hot", t.hot.document),
    ("warm", t.warm.document),
    ("cold", t.cold.document)]

def Migration.document (m : Migration) : Value :=
  .object [
    ("hot_min_frequency", .nat m.hotMinFrequency),
    ("hot_recency", .duration m.hotRecency),
    ("warm_min_frequency", .nat m.warmMinFrequency),
    ("warm_recency", .duration m.warmRecency)]

def JanitorSettings.document (j : JanitorSettings) : Value :=
  .object [
    ("interval", .duration j.interval),
    ("access_staleness", .duration j.accessStaleness)]

def AutoTuneSettings.document (a : AutoTuneSettings) : Value :=
  .object [
    ("enabled", .bool a.enabled),
    ("interval", .duration a.interval),
    ("step_fraction", .float a.stepFraction),
    ("expand_threshold", .float a.expandThreshold),
    ("shrink_threshold", .float a.shrinkThreshold),
    ("min_samples", .nat a.minSamples)]

def PrefetchSettings.document (p : PrefetchSettings) : Value :=
  .object [
    ("enabled", .bool p.enabled),
    ("interval", .duration p.interval),
    ("min_frequency", .nat p.minFrequency),
    ("hot_window", .duration p.hotWindow),
    ("max_hot_keys", .nat p.maxHotKeys),
    ("max_loads_per_pass", .nat p.maxLoadsPerPass)]

def Config.document (c : Config) : Value :=
  .object [
    ("tiers", TierLimits.documents c.tiers),
    ("migration", c.migration.document),
    ("janitor", c.janitor.document),
    ("auto_tune", c.autoTune.document),
    ("prefetch", c.prefetch.document)]

end TieredCache
