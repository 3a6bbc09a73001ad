import EnergyPlatform.Bronze.Bronze
import EnergyPlatform.Bronze.CaptureLog
import EnergyPlatform.Bronze.CaptureRaces
import EnergyPlatform.Bronze.Keys
import EnergyPlatform.Bronze.Logs
import EnergyPlatform.Bronze.LogsAgree
import EnergyPlatform.Bronze.LostResponse
import EnergyPlatform.Bronze.S3
import EnergyPlatform.Contracts.Ascii
import EnergyPlatform.Contracts.Calendar
import EnergyPlatform.Contracts.DayTiling
import EnergyPlatform.Contracts.DecimalText
import EnergyPlatform.Contracts.Decimals
import EnergyPlatform.Contracts.Exact
import EnergyPlatform.Contracts.Intervals
import EnergyPlatform.Contracts.Invalidation
import EnergyPlatform.Contracts.Json
import EnergyPlatform.Contracts.Manifest
import EnergyPlatform.Contracts.Numerals
import EnergyPlatform.Contracts.Observation
import EnergyPlatform.Contracts.Parser
import EnergyPlatform.Contracts.Registry
import EnergyPlatform.Contracts.Time
import EnergyPlatform.Deploy.RestrictedPss
import EnergyPlatform.Deploy.ShiftCron
import EnergyPlatform.Fetch.Addresses
import EnergyPlatform.Fetch.Client
import EnergyPlatform.Fetch.Discipline
import EnergyPlatform.Fetch.Egress
import EnergyPlatform.Fetch.Fetcher
import EnergyPlatform.Fetch.Listing
import EnergyPlatform.Fetch.ObjectStore
import EnergyPlatform.Fetch.Outcome
import EnergyPlatform.Fetch.Policy
import EnergyPlatform.Fetch.PolicyGate
import EnergyPlatform.Fetch.RateLimiter
import EnergyPlatform.Fetch.Secrets
import EnergyPlatform.Fetch.Urls
import EnergyPlatform.Harness.Goldens
import EnergyPlatform.Harness.PrBundle
import EnergyPlatform.Harness.Tokens
import EnergyPlatform.Lib.Cuts
import EnergyPlatform.Lib.Dict
import EnergyPlatform.Lib.Ends
import EnergyPlatform.Lib.Interleave
import EnergyPlatform.Lib.Merge
import EnergyPlatform.Lib.Outermost
import EnergyPlatform.Lib.Prog
import EnergyPlatform.Lib.Rely
import EnergyPlatform.Lib.Scientific
import EnergyPlatform.Lib.Select
import EnergyPlatform.Lib.Sql
import EnergyPlatform.Lib.Tiling
import EnergyPlatform.Lib.Watch
import EnergyPlatform.Mapping.CompletePartition
import EnergyPlatform.Mapping.Completeness
import EnergyPlatform.Mapping.DerivationIdentity
import EnergyPlatform.Mapping.Emitted
import EnergyPlatform.Mapping.Engine
import EnergyPlatform.Mapping.OrderFree
import EnergyPlatform.Mapping.Payload
import EnergyPlatform.Mapping.Quality
import EnergyPlatform.Mapping.Targets
import EnergyPlatform.Mcp.Server
import EnergyPlatform.Mcp.Wire
import EnergyPlatform.Mcp.WriteTarget
import EnergyPlatform.Parse.Columns
import EnergyPlatform.Parse.Decode
import EnergyPlatform.Parse.Generic
import EnergyPlatform.Parse.Selection
import EnergyPlatform.Runtime.Acknowledge
import EnergyPlatform.Runtime.Alerts
import EnergyPlatform.Runtime.Calls
import EnergyPlatform.Runtime.Capture
import EnergyPlatform.Runtime.Cli
import EnergyPlatform.Runtime.Commits
import EnergyPlatform.Runtime.Context
import EnergyPlatform.Runtime.Coverage
import EnergyPlatform.Runtime.Cron
import EnergyPlatform.Runtime.Cutoff
import EnergyPlatform.Runtime.Freshness
import EnergyPlatform.Runtime.Gaps
import EnergyPlatform.Runtime.Host
import EnergyPlatform.Runtime.Idempotent
import EnergyPlatform.Runtime.Lateness
import EnergyPlatform.Runtime.Lineage
import EnergyPlatform.Runtime.Local
import EnergyPlatform.Runtime.Outage
import EnergyPlatform.Runtime.Partitions
import EnergyPlatform.Runtime.Passes
import EnergyPlatform.Runtime.Plan
import EnergyPlatform.Runtime.Process
import EnergyPlatform.Runtime.Provenance
import EnergyPlatform.Runtime.Reconcile
import EnergyPlatform.Runtime.Repairs
import EnergyPlatform.Runtime.Representative
import EnergyPlatform.Runtime.Schedule
import EnergyPlatform.Runtime.Steady
import EnergyPlatform.Runtime.Transports
import EnergyPlatform.Runtime.Unprocessed
import EnergyPlatform.Runtime.Workers
import EnergyPlatform.Store.AppendOnly
import EnergyPlatform.Store.Calls
import EnergyPlatform.Store.CurrentView
import EnergyPlatform.Store.Fencing
import EnergyPlatform.Store.Inheritance
import EnergyPlatform.Store.InsertionOrder
import EnergyPlatform.Store.LateDocument
import EnergyPlatform.Store.LedgerClaims
import EnergyPlatform.Store.LedgerCommit
import EnergyPlatform.Store.LedgerRuns
import EnergyPlatform.Store.LedgerSimulation
import EnergyPlatform.Store.Memory
import EnergyPlatform.Store.Ordering
import EnergyPlatform.Store.Pending
import EnergyPlatform.Store.Postgres
import EnergyPlatform.Store.Protocol
import EnergyPlatform.Store.Replays
import EnergyPlatform.Store.Silver
import EnergyPlatform.Store.SqlView
import EnergyPlatform.Store.Tables
import EnergyPlatform.Store.Transactions
import EnergyPlatform.Store.WellFormed
import EnergyPlatform.Triage.Extract
