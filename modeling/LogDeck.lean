import LogDeck.Lib.Machine
import LogDeck.LogStore.Schema
import LogDeck.LogStore.Ingest
import LogDeck.LogStore.Lifecycle
import LogDeck.LogStore.Janitor
import LogDeck.LogStore.Ledger
import LogDeck.LogStore.Runs
import LogDeck.LogStore.Accounting
import LogDeck.LogStore.Attribution
import LogDeck.LogStore.Convergence
import LogDeck.LogStore.Sweep
import LogDeck.LogStore.Retention
import LogDeck.Lib.Base64
import LogDeck.Lib.Decimal
import LogDeck.Lib.HeadGroup
import LogDeck.Lib.RingBuffer
import LogDeck.Logstream.Subscription
import LogDeck.Logstream.Hub
import LogDeck.LogStore.OldestFirst
import LogDeck.Logstream.Listing
import LogDeck.Logstream.Convergence
import LogDeck.LogStore.Query
import LogDeck.LogStore.Grouping
import LogDeck.LogStore.Pagination
import LogDeck.LogStore.Reference
import LogDeck.LogStore.HistoryQuery
import LogDeck.Docker.Recreate
import LogDeck.LogStore.Timeline
import LogDeck.LogStore.Backfill
import LogDeck.LogStore.Pipeline
import LogDeck.LogStore.Healing
import LogDeck.LogStore.Restart
import LogDeck.LogStore.Outage
import LogDeck.LogStore.Marks
import LogDeck.LogStore.Purge
import LogDeck.LogStore.Shutdown
import LogDeck.LogStore.Removal
import LogDeck.Docker.Decode
import LogDeck.Docker.Aggregate
import LogDeck.Lib.GoSlice
import LogDeck.Lib.GoQuote
import LogDeck.Config.Manager
import LogDeck.Config.Transactions
import LogDeck.Config.Sharing
import LogDeck.Config.Atomicity
import LogDeck.Config.Callbacks
import LogDeck.Config.Requests
import LogDeck.Alerts.Window
import LogDeck.Alerts.Engine
import LogDeck.Alerts.RuleRequest
import LogDeck.Alerts.Prune
import LogDeck.Frontend.Watchdog
import LogDeck.Lib.Utf8
import LogDeck.Lib.LineText
import LogDeck.Models.Grouper
import LogDeck.Frontend.Grouper
import LogDeck.Docker.Filter
import LogDeck.Alerts.SlidingWindow
import LogDeck.Docker.Rollback
import LogDeck.Docker.Lines
import LogDeck.Cli.Aggregate
import LogDeck.Lib.StableSort
import LogDeck.Alerts.Toggle
import LogDeck.Lib.Tokens
import LogDeck.Models.Timestamp
import LogDeck.LogStore.RetryBudget
import LogDeck.Lib.Trim
import LogDeck.LogStore.Caps
import LogDeck.Frontend.LogStream
import LogDeck.Frontend.Isolation
import LogDeck.Frontend.LatestRequest
import LogDeck.Docker.Update
import LogDeck.Api.RateLimit
import LogDeck.Lib.EntryMap
import LogDeck.Docker.Env
import LogDeck.Frontend.AnimatedRange
import LogDeck.Lib.Backlog
import LogDeck.Frontend.LogBuffer
import LogDeck.Lib.TextDecoder
import LogDeck.Frontend.Ndjson
import LogDeck.Lib.FixedWindow
import LogDeck.Lib.GoJson
import LogDeck.Cli.Follow
import LogDeck.Lib.Guards
import LogDeck.Api.Access
import LogDeck.Api.Tokens
import LogDeck.Api.Auth
import LogDeck.Lib.Noninterference
import LogDeck.Api.Server
import LogDeck.Lib.AtomicFile
import LogDeck.Config.Durability
import LogDeck.Lib.ReplaceAll
import LogDeck.Alerts.Notify
import LogDeck.Alerts.Dispatch
import LogDeck.Alerts.Collections
import LogDeck.Lib.GroupFold
import LogDeck.LogStore.Containers
import LogDeck.Lib.FanIn
import LogDeck.Docker.Events
import LogDeck.Lib.Dialogue
import LogDeck.Api.Routing
import LogDeck.Cli.Client
import LogDeck.Cli.Mcp
import LogDeck.Api.Terminal
import LogDeck.Docker.Exec
import LogDeck.Coolify.Sync
import LogDeck.Lib.GracePeriod
import LogDeck.Services.HotSwap
