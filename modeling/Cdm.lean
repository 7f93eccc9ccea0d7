import Cdm.LTS.Basic
import Cdm.Core.Error
import Cdm.Track.Chain
import Cdm.Track.RunRow
import Cdm.Track.Backends
import Cdm.Cluster.Fleet
import Cdm.Cluster.Grants
import Cdm.Cluster.LeaseStores
import Cdm.Cluster.Join
import Cdm.Engine.Adoption
import Cdm.Jobs.Agreement
import Cdm.Jobs.Correction
import Cdm.Jobs.Counters
import Cdm.Jobs.MigrateRange
import Cdm.Jobs.ValidateAccounting
import Cdm.Planner.Ceiling
import Cdm.Cql.TokenBounds
import Cdm.Cql.Ring
import Cdm.Track.Replan
import Cdm.Jobs.PageReturn
import Cdm.Engine.Limits
import Cdm.Engine.ErrorLimit
import Cdm.Metrics.Racing
import Cdm.Jobs.MigratePaths
import Cdm.Jobs.WholeRange
import Cdm.Config.Secrecy
import Cdm.Config.Effective
import Cdm.Cql.UdtBinding
import Cdm.Jobs.Redaction
import Cdm.Cql.Substitution
import Cdm.Cql.Unset
import Cdm.Codec.QuotedNames
import Cdm.Cql.Markers
import Cdm.Jobs.Positions
import Cdm.Codec.Collisions
import Cdm.Codec.Inverse
import Cdm.Feature.Exploded
import Cdm.Feature.CellMaximum
import Cdm.Feature.LiteralOverflow
import Cdm.Feature.CollectionLiteral
import Cdm.Codec.GeometryCodecs
import Cdm.Codec.DateRoundTrip
import Cdm.Codec.DateRangeExact
import Cdm.Engine.RateLimiter
import Cdm.Core.RunIds
import Cdm.Engine.ControlCalls
import Cdm.Tls.KeyProtection
import Cdm.Cql.RetryBudget
import Cdm.Jobs.RangeSelects
import Cdm.Jobs.Extraction
import Cdm.Planner.EvenSplit
import Cdm.Planner.ShuffleOrder
import Cdm.Cql.ShortestToken
import Cdm.Cql.NullMapValues
import Cdm.Codec.DateRangeBytes
import Cdm.Metrics.Histogram
import Cdm.Metrics.Progress
import Cdm.Config.JavaProperties
import Cdm.Jobs.ColumnNames
import Cdm.Engine.AdaptiveRecovery
import Cdm.Codec.VarintBytes
import Cdm.Jobs.Report
import Cdm.Metrics.RunInfo
import Cdm.Track.Handover
import Cdm.Jobs.GuardrailRun
import Cdm.Jobs.MigrateRun
import Cdm.Jobs.ValidateRun
