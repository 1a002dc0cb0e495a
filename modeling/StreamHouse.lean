import StreamHouse.Metadata.LeaseTransfers
import StreamHouse.Storage.DurableFlush
import StreamHouse.Storage.Recovery
import StreamHouse.Agent.Offsets
import StreamHouse.Storage.Orphans
import StreamHouse.Storage.Rebuild
import StreamHouse.Agent.TransactionOwnership
import StreamHouse.Kafka.NullAndEmpty
import StreamHouse.Kafka.TxnOffsets
import StreamHouse.Metadata.SettledData
import StreamHouse.Kafka.ProducerIds
import StreamHouse.Registry.JsonEvolution
import StreamHouse.Api.PointInTime
import StreamHouse.Connectors.AtLeastOnce
import StreamHouse.Sql.WhereCompilation
import StreamHouse.Server.ViewMaintenance
import StreamHouse.Api.ActiveActive
import StreamHouse.Metadata.CachedStore
import StreamHouse.Registry.SubjectCache
import StreamHouse.Metadata.Backup
import StreamHouse.Client.PendingOffsets
import StreamHouse.Client.BatchSequences
import StreamHouse.Client.ClientTransactions
import StreamHouse.Client.ConsumerPositions
import StreamHouse.Sql.TenantIsolation
import StreamHouse.Api.AuditEvidence
import StreamHouse.Sql.SelectPages
import StreamHouse.Server.GroupKeys
import StreamHouse.Sql.CountQueries
import StreamHouse.Sql.ExactSessions
import StreamHouse.Sql.Stream.WatermarkRuns
import StreamHouse.Sql.Stream.WindowCounts
import StreamHouse.Sql.Stream.StreamJoins
import StreamHouse.Sql.Stream.ChainComposition
import StreamHouse.Sql.HashJoins
import StreamHouse.Storage.SegmentTotality
import StreamHouse.Storage.WalTotality
import StreamHouse.Storage.WalFiles
import StreamHouse.Sql.MovingAverages
import StreamHouse.Sql.SortOrders
import StreamHouse.Api.LeaderElection
import StreamHouse.Sql.StateRefinement
import StreamHouse.Sql.QueryTotality
import StreamHouse.Storage.FlushFailures
import StreamHouse.Storage.GappedReads
import StreamHouse.Kafka.RecordTotality
import StreamHouse.Kafka.RequestBodies
import StreamHouse.Agent.DedupCache
import StreamHouse.Agent.NumericIds
import StreamHouse.Kafka.ProtocolChoice
import StreamHouse.Agent.LeaseRetries
import StreamHouse.Agent.Convergence
import StreamHouse.Agent.HashPlacement
import StreamHouse.Metadata.TransactionOutcomes
import StreamHouse.Kafka.TimestampBounds
import StreamHouse.Storage.Prefetch
import StreamHouse.Metadata.QuotaLimits
import StreamHouse.Kafka.Varints
import StreamHouse.Storage.CircuitBreaker
import StreamHouse.Api.AclChecker
import StreamHouse.Api.RoleIntegrity
import StreamHouse.Storage.Bloom
import StreamHouse.Metadata.TopicLimits
import StreamHouse.Storage.RateLimiter
import StreamHouse.Sql.Checkpoints
import StreamHouse.Storage.Backpressure
