import TieredCache.Proofs.ServiceRuns
import TieredCache.Proofs.ValidConfig

/-!
# The life of a service

A service that has been started runs the passes of its jobs as they fall due. Shutting it down
signals the jobs and waits for them, which starts no further pass and leaves no job behind. From
then on it is an empty cache.
-/

namespace TieredCache.Service

variable {K V : Type}

/-! ### The beginning -/

variable [DecidableEq K] [Ord K] [Adjacent K]

end TieredCache.Service
