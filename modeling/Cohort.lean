import Cohort.Config.Settings
import Cohort.Storage.Race
import Cohort.Grouping.Inspect
import Cohort.Job.Measured
import Cohort.Key.Order
import Cohort.Pool
import Cohort.Proofs.Aggregate.Combination
import Cohort.Proofs.Key.Discovery
import Cohort.Proofs.States.Layouts
import Cohort.Proofs.Job.Scan
import Cohort.Proofs.Job.Merge
import Cohort.Proofs.Partition
import Cohort.Proofs.Grouping.Workers
import Cohort.Proofs.Grouping.LocalMerge
import Cohort.Proofs.Shared.History
import Cohort.Proofs.Storage.Undisturbed
import Cohort.Proofs.Shared.Flush
import Cohort.Proofs.Shared.Poured
import Cohort.Proofs.Shared.Slots
import Cohort.Proofs.Shared.Scan
import Cohort.Proofs.Shared.Scanned
import Cohort.Proofs.Scalar.Order
import Cohort.Proofs.Aggregate.Values
import Cohort.Proofs.Grouping.Coverage
import Cohort.Proofs.Grouping.PartitionInvariance
import Cohort.Proofs.Grouping.GroupBy
import Cohort.Proofs.Aggregate.Monoid
import Cohort.Proofs.Shared.Meetings
import Cohort.Proofs.Storage.Serial
import Cohort.Proofs.Storage.Contributions
import Cohort.Proofs.Key.Twins
import Cohort.Proofs.Job.Twins
import Cohort.Proofs.Shared.Twins
import Cohort.Proofs.Grouping.HashBlindness
import Cohort.Proofs.Storage.Progress
import Cohort.Proofs.Storage.Paths
import Cohort.Proofs.Grouping.Representatives
import Cohort.Proofs.Job.Built
import Cohort.Proofs.Job.OuterJoin
import Cohort.Proofs.States.Interchange
import Cohort.Proofs.Key.Memory
import Cohort.Proofs.Dictionary.HashTable
import Cohort.Proofs.Grouping.Canonical
import Cohort.Proofs.Dictionary.Exact
import Cohort.Proofs.Dictionary.OneEntry
import Cohort.Proofs.Grouping.Shares
import Cohort.Proofs.Storage.Readers
import Cohort.Proofs.Aggregate.Misses
import Cohort.Proofs.States.View
import Cohort.Proofs.States.Guarded
import Cohort.Proofs.Grouping.Viewed
import Cohort.Proofs.Grouping.Readable
import Cohort.Proofs.Config.Defaults
import Cohort.Proofs.Aggregate.Extrema
import Cohort.Proofs.Grouping.Room
import Cohort.Proofs.Scalar.Mixing
import Cohort.Proofs.Storage.TotalMaps
