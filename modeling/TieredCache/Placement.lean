import TieredCache.Access
import TieredCache.Config.Basic

/-!
# Placement

Which tier a key has earned depends on its history alone: how often it has been accessed, and how
long before the current access the previous one was.
-/

namespace TieredCache.Migration

/-- The tier that a history earns. -/
def placement (m : Migration) (h : History) (now : Int) : Level :=
  if m.hotMinFrequency < h.frequency ∧ h.idle now ≤ m.hotRecency then .hot
  else if m.warmMinFrequency < h.frequency ∧ h.idle now ≤ m.warmRecency then .warm
  else .cold

/-- The tier that a key moves up to, if its history earns a hotter one than it is in. -/
def promotion? (m : Migration) (h : History) (current : Level) (now : Int) : Option Level :=
  let target := m.placement h now
  if target.isHotterThan current then some target else none

end TieredCache.Migration
