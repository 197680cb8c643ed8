import GoyStore.Library.Runs
import GoyStore.Library.RwLock
import GoyStore.Library.Effects
import GoyStore.Library.UnixPath
import GoyStore.Library.Binary64
import GoyStore.Library.DualIndex
import GoyStore.Resilience.CircuitBreaker
import GoyStore.Resilience.BreakerRuns
import GoyStore.Resilience.FailureCount
import GoyStore.Resilience.LockOrder
import GoyStore.Resilience.Executor
import GoyStore.Resilience.ExecutorRuns
import GoyStore.Resilience.AttemptEffects
import GoyStore.Kv.SetIfNotExists
import GoyStore.Blob.LocalBlobStore
import GoyStore.PubSub.RedisPubSubStore
import GoyStore.SortedSet.MemorySortedSetStore
import GoyStore.Config.StoreConstruction
import GoyStore.PubSub.MemoryDelivery
import GoyStore.PubSub.MemoryAgreement
import GoyStore.PubSub.GoRedisPubSub
import GoyStore.SortedSet.SortedSetAgreement
import GoyStore.Relational.Migrate
import GoyStore.Library.CleanPath
import GoyStore.Blob.GoLocalBlobStore
import GoyStore.Resilience.SequentialCalls
import GoyStore.Blob.RejectedKeys
import GoyStore.Library.FileTree
import GoyStore.Blob.BlobFiles
import GoyStore.Blob.ReadYourWrite
import GoyStore.Blob.KeyIndependence
import GoyStore.Blob.OverwriteRace
import GoyStore.SortedSet.RangeQueries
import GoyStore.SortedSet.TieOrder
import GoyStore.Kv.TimeToLive
import GoyStore.Resilience.BreakerHistory
import GoyStore.Resilience.AttemptAccounting
import GoyStore.Resilience.ExecutorAgreement
import GoyStore.Resilience.ErrorAccounting
import GoyStore.Library.Repetition
import GoyStore.SortedSet.RepeatedCalls
import GoyStore.Blob.MemoryBlobStore
import GoyStore.Resilience.InvisibleRetries
import GoyStore.Config.BackendSelection
import GoyStore.Library.DecimalText
import GoyStore.Library.Ties
import GoyStore.SortedSet.GoRangeByScore
import GoyStore.SortedSet.GoRedisBounds
import GoyStore.Kv.RedisTimeToLive
import GoyStore.Relational.QueryResults
import GoyStore.Resilience.CallerCancellation
import GoyStore.Blob.FailedPuts
import GoyStore.Blob.Listing
import GoyStore.Blob.DeletedBlobs
import GoyStore.Library.FileProbe
import GoyStore.Library.ProperNames
import GoyStore.Blob.HealthProbe
import GoyStore.Blob.ListedKeys
import GoyStore.PubSub.GoRedisForwarder
import GoyStore.PubSub.GoRedisRegistry
import GoyStore.PubSub.MemoryStreamEnds
import GoyStore.Blob.S3Listing
import GoyStore.Resilience.BreakerGauge
import GoyStore.Library.JitteredDelays
import GoyStore.Resilience.RetryDelays
import GoyStore.Resilience.ConfiguredLimits
import GoyStore.Library.GuardedObject
import GoyStore.Library.GuardedHistory
import GoyStore.Kv.ConcurrentKv
import GoyStore.SortedSet.ConcurrentSortedSet
import GoyStore.Library.FanIn
import GoyStore.Health.HealthCheck
import GoyStore.PubSub.GoRedisDelivery
import GoyStore.Library.SharedCells
import GoyStore.Memory.SharedSlices
import GoyStore.Library.FileContents
import GoyStore.Blob.BlobContents
import GoyStore.Blob.BackendAgreement
import GoyStore.Resilience.CallSteps
import GoyStore.Resilience.RetryAccounting
import GoyStore.Resilience.CallDuration
import GoyStore.Resilience.Refusals
import GoyStore.Resilience.AcknowledgedCalls
import GoyStore.Resilience.FailedAttempts
import GoyStore.Resilience.GoErrorAccounting
import GoyStore.Resilience.ErrorConservation
