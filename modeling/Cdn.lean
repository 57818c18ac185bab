import Cdn.Lib.Run
import Cdn.Lib.Dict
import Cdn.Lib.Slots
import Cdn.Lib.SingleFlight
import Cdn.Domain.Entities
import Cdn.Lib.Percent
import Cdn.Domain.CacheKey
import Cdn.Infrastructure.CacheControl
import Cdn.Infrastructure.CircuitBreaker
import Cdn.Infrastructure.LruStore
import Cdn.Application.CacheService
import Cdn.Presentation.EdgeRoutes
import Cdn.Edge
import Cdn.Proofs.Moves
import Cdn.Proofs.Store
import Cdn.Proofs.Keys
import Cdn.Proofs.Flight
import Cdn.Proofs.Coalescing
import Cdn.Proofs.Revalidation
import Cdn.Proofs.Placed
import Cdn.Proofs.Answers
import Cdn.Proofs.Age
import Cdn.Proofs.Transparency
import Cdn.Application.PurgeService
import Cdn.Proofs.Purge
import Cdn.Proofs.Resurrection
import Cdn.Proofs.Rollback
import Cdn.Proofs.Leader
import Cdn.Breaker
import Cdn.Proofs.Breaker
import Cdn.Proofs.Probes
import Cdn.Proofs.Closing
import Cdn.Proofs.Outage
import Cdn.Lib.Aliased
import Cdn.Infrastructure.TieredStore
import Cdn.Proofs.Tiers
import Cdn.Shielded
import Cdn.TieredCache
import Cdn.Proofs.TieredMap
import Cdn.Proofs.Isolation
import Cdn.Lib.Paths
import Cdn.Domain.ByteRange
import Cdn.Presentation.OriginRoutes
import Cdn.Proofs.Confinement
import Cdn.Application.RangeRequest
import Cdn.Proofs.Ranges
import Cdn.Lib.Http
import Cdn.Presentation.Framework
import Cdn.Infrastructure.Compression
import Cdn.Presentation.ServeFile
import Cdn.Application.RoutingService
import Cdn.Presentation.RouterRoutes
import Cdn.Proofs.Proxying
import Cdn.Proofs.Uncacheable
import Cdn.Proofs.Provenance
import Cdn.Infrastructure.OriginClient
import Cdn.Deployment
import Cdn.Proofs.UpToDate
import Cdn.Proofs.Validation
import Cdn.Proofs.Mandatory
import Cdn.Proofs.Reuse
import Cdn.Application.WarmService
import Cdn.Proofs.Warming
import Cdn.Ledger
import Cdn.Proofs.Vary
import Cdn.Presentation.EdgeApp
import Cdn.Proofs.Drain
import Cdn.Application.HealthService
import Cdn.Health
import Cdn.Proofs.Health
import Cdn.Proofs.Served
import Cdn.Proofs.Recoding
import Cdn.Proofs.Measured
import Cdn.Lib.Stable
import Cdn.Proofs.Routing
import Cdn.Proofs.Failover
import Cdn.LruCache
import Cdn.Proofs.Lru
import Cdn.Proofs.Deadline
import Cdn.Proofs.NotModified
import Cdn.Proofs.Windows
import Cdn.Lib.Recency
import Cdn.Proofs.Recency
import Cdn.Proofs.ColdTier
import Cdn.Proofs.Expiry
import Cdn.Demotion
import Cdn.Proofs.Demotion
import Cdn.Proofs.TierStats
import Cdn.Numerals
import Cdn.Lib.Scan
import Cdn.Lib.Fields
import Cdn.Lib.Past
import Cdn.Lib.Registers
import Cdn.Proofs.OriginRanges
import Cdn.Proofs.PartialError
import Cdn.Proofs.RangeGrammar
import Cdn.Proofs.Settings
import Cdn.Proofs.Quoted
import Cdn.Lib.Base64
import Cdn.Infrastructure.Auth
import Cdn.Proofs.Composition
import Cdn.Proofs.Lifetimes
import Cdn.Proofs.Negotiation
import Cdn.Proofs.Shielding
import Cdn.Proofs.SignedUrls
import Cdn.Proofs.Staleness
import Cdn.Infrastructure.HttpClients
import Cdn.Proofs.Retries
import Cdn.Proofs.Variants
import Cdn.Lib.Ranks
import Cdn.Lib.Tally
import Cdn.Application.MetricsService
import Cdn.Proofs.Percentiles
import Cdn.Proofs.Aggregation
import Cdn.Lib.Stack
import Cdn.Proofs.Inclusion
import Cdn.EdgeProcess
import Cdn.Proofs.Quiescence
import Cdn.Proofs.AfterPurge
import Cdn.RouterProcess
import Cdn.Proofs.Rotation
import Cdn.Proofs.Passages
import Cdn.Proofs.Reassembly
import Cdn.Proofs.Invalidation
import Cdn.Proofs.Settling
import Cdn.Proofs.Polling
