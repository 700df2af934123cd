import TieredCache.Config.Writer
import TieredCache.LevelText
import TieredCache.Main
import TieredCache.Proofs.StoreListing
import TieredCache.Proofs.TierSteps
import TieredCache.Proofs.Settling
import TieredCache.Proofs.SessionRuns
import TieredCache.Proofs.SingleResidency
import TieredCache.Proofs.MoveBalance
import TieredCache.Proofs.Contents
import TieredCache.Proofs.LastWrite
import TieredCache.Proofs.TierOrder
import TieredCache.Proofs.Cascade
import TieredCache.Proofs.TidyTiers
import TieredCache.Proofs.SingleOrder
import TieredCache.Proofs.RecencyList
import TieredCache.Proofs.EntryPaths
import TieredCache.Proofs.FinalExpiry
import TieredCache.Proofs.Accounts
import TieredCache.Proofs.Bookkeeping
import TieredCache.Proofs.LookupFunnel
import TieredCache.Proofs.AccessHistories
import TieredCache.Proofs.Origins
import TieredCache.Proofs.KeyViews
import TieredCache.Proofs.SeparateKeys
import TieredCache.Proofs.TunedCapacities
import TieredCache.Proofs.FreshStart
import TieredCache.Proofs.PassTimes
import TieredCache.Proofs.ConfigRoundTrip
import TieredCache.Proofs.ServiceLife
import TieredCache.Proofs.FallingEntries
import TieredCache.Proofs.Insertions
import TieredCache.Proofs.WriteEffects
import TieredCache.Proofs.LookupEffects
import TieredCache.Proofs.KeyPlaces
import TieredCache.Proofs.FrequentKeys
import TieredCache.Proofs.GoneForGood
import TieredCache.Proofs.ExactSweeps
import TieredCache.Proofs.LazyExpiry
import TieredCache.Proofs.KeyCopies
import TieredCache.Proofs.StepwiseShrinking
import TieredCache.Proofs.Demotions
import TieredCache.Proofs.HottestKeys
import TieredCache.Proofs.TunerWindows
import TieredCache.Proofs.Candidates
import TieredCache.Proofs.PrefetchPasses
import TieredCache.Proofs.SegmentNeighbours
import TieredCache.Proofs.GridNeighbours
import TieredCache.Proofs.PartialSections
import TieredCache.Proofs.AcceptedConfigs
import TieredCache.Proofs.LastSnapshot
import TieredCache.Proofs.ServiceRuns
