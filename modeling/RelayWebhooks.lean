import RelayWebhooks.Lib.Transition
import RelayWebhooks.Lib.Table
import RelayWebhooks.Lib.ConsumerGroup
import RelayWebhooks.Lib.SortedSet
import RelayWebhooks.Py.Text
import RelayWebhooks.Py.Json
import RelayWebhooks.Domain.Deliveries
import RelayWebhooks.Domain.Endpoints
import RelayWebhooks.Domain.Events
import RelayWebhooks.Domain.Errors
import RelayWebhooks.Repositories.Db
import RelayWebhooks.Infra.Settings
import RelayWebhooks.Infra.Http
import RelayWebhooks.Services.Attempt
import RelayWebhooks.Infra.Streams
import RelayWebhooks.Repositories.Flush
import RelayWebhooks.Engine.State
import RelayWebhooks.Engine.Steps
import RelayWebhooks.Engine.Terminal
import RelayWebhooks.Engine.Ledger
import RelayWebhooks.Engine.Probe
import RelayWebhooks.Engine.Replay
import RelayWebhooks.Engine.ReplayRace
import RelayWebhooks.Services.Ingest
import RelayWebhooks.Infra.RetrySchedule
import RelayWebhooks.Workers.Scheduler
import RelayWebhooks.Workers.Dispatcher
import RelayWebhooks.Pipeline.State
import RelayWebhooks.Pipeline.Carrier
import RelayWebhooks.Engine.Solo
import RelayWebhooks.Pipeline.FanOut
import RelayWebhooks.Services.DeliveryLedger
import RelayWebhooks.Infra.SsrfGuard
import RelayWebhooks.Services.Breaker
import RelayWebhooks.Infra.HttpSender
import RelayWebhooks.Infra.RateLimit
import RelayWebhooks.Domain.Tenants
import RelayWebhooks.Lib.Reservation
import RelayWebhooks.Services.Endpoints
import RelayWebhooks.Services.Sandbox
import RelayWebhooks.Services.SandboxCaps
import RelayWebhooks.Domain.ApiKeys
import RelayWebhooks.Services.ApiKeys
import RelayWebhooks.Api.Auth
import RelayWebhooks.Api.AuthExact
import RelayWebhooks.Services.Rotation
import RelayWebhooks.Repositories.TenantRows
import RelayWebhooks.Api.Errors
import RelayWebhooks.Api.Deliveries
import RelayWebhooks.Py.Datetime
import RelayWebhooks.Repositories.Pagination
import RelayWebhooks.Services.Deliveries
import RelayWebhooks.Lib.Observation
import RelayWebhooks.Services.TenantIsolation
import RelayWebhooks.Py.Calendar
import RelayWebhooks.Py.Base64
import RelayWebhooks.Py.Integer
import RelayWebhooks.Py.IsoFormat
import RelayWebhooks.Lib.KeysetWalk
import RelayWebhooks.Repositories.Cursor
import RelayWebhooks.Repositories.KeysetWalk
import RelayWebhooks.Infra.Signing
import RelayWebhooks.Infra.SentRequests
import RelayWebhooks.Infra.DenyList
import RelayWebhooks.Infra.SendReturns
import RelayWebhooks.Services.SignedRequests
import RelayWebhooks.Infra.IdealBucket
import RelayWebhooks.Py.JsonValue
import RelayWebhooks.Services.IngestReplay
import RelayWebhooks.Services.SandboxReplay
import RelayWebhooks.Workers.Gates
import RelayWebhooks.Workers.Dispatching
import RelayWebhooks.Pipeline.Tags
import RelayWebhooks.Pipeline.Correlation
import RelayWebhooks.Lib.NearestRank
import RelayWebhooks.Services.Percentile
import RelayWebhooks.Services.Backoff
import RelayWebhooks.Api.VerifySignature
import RelayWebhooks.Lib.WorkQueue
import RelayWebhooks.Infra.QueueMetrics
import RelayWebhooks.Repositories.ForgedCursor
import RelayWebhooks.Api.Listing
import RelayWebhooks.Infra.RetryAfter
import RelayWebhooks.Lib.ServerSentEvents
import RelayWebhooks.Infra.AttemptEvents
import RelayWebhooks.Api.EventStream
import RelayWebhooks.Py.JsonLoads
import RelayWebhooks.Infra.RetryEnvelope
import RelayWebhooks.Lib.TimedGroup
import RelayWebhooks.Pipeline.Frames
import RelayWebhooks.Pipeline.Single
import RelayWebhooks.Pipeline.Ledger
import RelayWebhooks.Pipeline.Recovery
import RelayWebhooks.Pipeline.Gone
import RelayWebhooks.Pipeline.Timed
import RelayWebhooks.Pipeline.Backoff
import RelayWebhooks.Workers.Reaper
import RelayWebhooks.Workers.Relay
import RelayWebhooks.Workers.RelayDrain
import RelayWebhooks.Workers.Passes
import RelayWebhooks.Workers.Settled
import RelayWebhooks.Workers.Shutdown
import RelayWebhooks.Pipeline.Tenancy
import RelayWebhooks.Py.JsonRoundTrip
import RelayWebhooks.Pipeline.Payload
import RelayWebhooks.Pipeline.Feed
