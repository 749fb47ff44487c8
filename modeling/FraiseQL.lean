import FraiseQL.WhereGeneratorBoolean
import FraiseQL.WhereGeneratorInjection
import FraiseQL.WireTransparency
import FraiseQL.CacheStaleFill
import FraiseQL.CacheKeySoundness
import FraiseQL.QueryPipelineRoundTrip
import FraiseQL.RelayPagination
import FraiseQL.ResponseKey
import FraiseQL.CheckpointLease
import FraiseQL.JobQueueBudget
import FraiseQL.WorkerQueue
import FraiseQL.ChangeLogIdentity
import FraiseQL.CheckpointSwaps
import FraiseQL.RowSecurityDispatch
import FraiseQL.EntryPointAgreement
import FraiseQL.SubscriptionSecurity
import FraiseQL.IdempotencyOnce
import FraiseQL.FederationPositions
import FraiseQL.SagaLifeCycle
import FraiseQL.TenantEnforcer
import FraiseQL.KeyedRateLimiter
import FraiseQL.RateLimiterBound
import FraiseQL.AuditChain
import FraiseQL.TokenRevocationRuns
import FraiseQL.PkceState
import FraiseQL.RestEmbeddedRows
import FraiseQL.RestConjunction
import FraiseQL.SecurityContextHash
import FraiseQL.CacheMemory
import FraiseQL.CacheResponse
import FraiseQL.FieldLocation
import FraiseQL.SelectExact
import FraiseQL.RestAmbiguity
import FraiseQL.FieldAccessControl
import FraiseQL.WhereGeneratorsAgree
import FraiseQL.RowCounting
import FraiseQL.MutationPositions
import FraiseQL.CascadeResponse
import FraiseQL.CollectFields
import FraiseQL.SelectionMerge
import FraiseQL.ArgumentText
import FraiseQL.QueryLimits
import FraiseQL.RegexGuard
import FraiseQL.WireDecodeInverse
import FraiseQL.WireEncode
import FraiseQL.ScramAgreement
import FraiseQL.StreamControlRuns
import FraiseQL.ConditionDisplay
import FraiseQL.RetryBackoff
import FraiseQL.ListenerCoordinator
import FraiseQL.ChangeLogConversion
import FraiseQL.AnalyticFilters
import FraiseQL.TemporalBuckets
import FraiseQL.DependencyTracker
import FraiseQL.FieldCase
import FraiseQL.CircuitBreaker
import FraiseQL.RlsMeaning
import FraiseQL.FederationMutation
