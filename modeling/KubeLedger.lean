import KubeLedger.Cluster.Client
import KubeLedger.Cluster.Watch
import KubeLedger.ClusterObject
import KubeLedger.Decimal
import KubeLedger.Digest.Sha1
import KubeLedger.Feed.Informer
import KubeLedger.Feed.Rehearsal
import KubeLedger.Http.Host
import KubeLedger.Http.Message
import KubeLedger.Http.Url
import KubeLedger.Identity
import KubeLedger.Json.Basic
import KubeLedger.Json.Source
import KubeLedger.Mapping.Kind
import KubeLedger.Mapping.Pod
import KubeLedger.Mapping.Snapshot
import KubeLedger.Proofs.Accounts
import KubeLedger.Proofs.Alignment
import KubeLedger.Proofs.Answers
import KubeLedger.Proofs.Batches
import KubeLedger.Proofs.Buffers
import KubeLedger.Proofs.Cancellations
import KubeLedger.Proofs.ColdStart
import KubeLedger.Proofs.Commuting
import KubeLedger.Proofs.ContainerTelemetry
import KubeLedger.Proofs.Contents
import KubeLedger.Proofs.Courses
import KubeLedger.Proofs.Deadlines
import KubeLedger.Proofs.Deliveries
import KubeLedger.Proofs.Denotations
import KubeLedger.Proofs.Doubles
import KubeLedger.Proofs.Effects
import KubeLedger.Proofs.Endings
import KubeLedger.Proofs.Holdings
import KubeLedger.Proofs.IdSets
import KubeLedger.Proofs.Identities
import KubeLedger.Proofs.Ingestion
import KubeLedger.Proofs.Instants
import KubeLedger.Proofs.Integrity
import KubeLedger.Proofs.KeyedStores
import KubeLedger.Proofs.Keys
import KubeLedger.Proofs.KnownRows
import KubeLedger.Proofs.Lanes
import KubeLedger.Proofs.Latest
import KubeLedger.Proofs.LetterCase
import KubeLedger.Proofs.LineSplits
import KubeLedger.Proofs.MappedRows
import KubeLedger.Proofs.Memberships
import KubeLedger.Proofs.Merges
import KubeLedger.Proofs.Minutes
import KubeLedger.Proofs.Mirrors
import KubeLedger.Proofs.NamedParts
import KubeLedger.Proofs.Names
import KubeLedger.Proofs.NullMembers
import KubeLedger.Proofs.Overflows
import KubeLedger.Proofs.Overwrites
import KubeLedger.Proofs.Passages
import KubeLedger.Proofs.Polls
import KubeLedger.Proofs.PrimaryRows
import KubeLedger.Proofs.Quantities
import KubeLedger.Proofs.Reached
import KubeLedger.Proofs.Redelivery
import KubeLedger.Proofs.References
import KubeLedger.Proofs.Refinement
import KubeLedger.Proofs.Relational
import KubeLedger.Proofs.Removals
import KubeLedger.Proofs.Replays
import KubeLedger.Proofs.Resumption
import KubeLedger.Proofs.Rounding
import KubeLedger.Proofs.RowSets
import KubeLedger.Proofs.Rows
import KubeLedger.Proofs.Schedules
import KubeLedger.Proofs.Scopes
import KubeLedger.Proofs.Series
import KubeLedger.Proofs.Servers
import KubeLedger.Proofs.Service
import KubeLedger.Proofs.Sessions
import KubeLedger.Proofs.SnakeCase
import KubeLedger.Proofs.Spellings
import KubeLedger.Proofs.Statements
import KubeLedger.Proofs.Streams
import KubeLedger.Proofs.Syncs
import KubeLedger.Proofs.Tables
import KubeLedger.Proofs.Tandem
import KubeLedger.Proofs.Traces
import KubeLedger.Proofs.Transactions
import KubeLedger.Proofs.Upserts
import KubeLedger.Proofs.Usages
import KubeLedger.Proofs.Views
import KubeLedger.Proofs.Waiting
import KubeLedger.Proofs.Windows
import KubeLedger.Quantity
import KubeLedger.Reconcile.Delivery
import KubeLedger.Reconcile.Rehearsal
import KubeLedger.Reconcile.Sync
import KubeLedger.Script
import KubeLedger.Store.Memory
import KubeLedger.Store.Server
import KubeLedger.Store.Streamer
import KubeLedger.Table
import KubeLedger.Telemetry.Pipeline
import KubeLedger.Telemetry.Poller
import KubeLedger.Telemetry.Prometheus
import KubeLedger.Telemetry.Query
import KubeLedger.Telemetry.Rehearsal
import KubeLedger.Telemetry.Sample
import KubeLedger.Text.Bytes
import KubeLedger.Text.Case
import KubeLedger.Text.CaseTable
import KubeLedger.Timestamp
