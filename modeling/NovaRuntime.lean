import NovaRuntime.Library.ByteString
import NovaRuntime.Library.Entries
import NovaRuntime.Library.Outcome
import NovaRuntime.Library.Runs
import NovaRuntime.Storage.Types
import NovaRuntime.Storage.MemTable
import NovaRuntime.Storage.Bloom
import NovaRuntime.Storage.SSTable
import NovaRuntime.Storage.SSTableSpec
import NovaRuntime.Library.BoundedCache
import NovaRuntime.Storage.PageCache
import NovaRuntime.Storage.Txn
import NovaRuntime.Storage.WalLog
import NovaRuntime.Storage.BTree
import NovaRuntime.Storage.WalTorn
import NovaRuntime.Storage.StoreSpec
import NovaRuntime.Storage.StoreCalls
import NovaRuntime.Storage.StoreMap
import NovaRuntime.Storage.StoreRecovery
import NovaRuntime.Storage.StoreConcurrent
import NovaRuntime.Storage.TxnConcurrent
import NovaRuntime.Library.KeyValue
import NovaRuntime.Queue.Backend
import NovaRuntime.Queue.Slots
import NovaRuntime.Queue.BackendSpec
import NovaRuntime.Queue.Partition
import NovaRuntime.Queue.Isolation
import NovaRuntime.Queue.Scanner
import NovaRuntime.Queue.Deliveries
import NovaRuntime.Queue.Retention
import NovaRuntime.Queue.Consumers
import NovaRuntime.Library.F64
import NovaRuntime.Sql.Ast
import NovaRuntime.Library.Json
import NovaRuntime.Sql.TableStore
import NovaRuntime.Sql.Persist
import NovaRuntime.Sql.Engine
import NovaRuntime.Sql.EngineSpec
import NovaRuntime.Sql.Constraints
import NovaRuntime.Sql.Documents
import NovaRuntime.Sql.Reopen
import NovaRuntime.Sql.RoundTrip
import NovaRuntime.Sql.Atomic
import NovaRuntime.Sql.AutoIncrement
import NovaRuntime.Library.Span
import NovaRuntime.Sql.TypeChecker
import NovaRuntime.Sql.TypeSound
import NovaRuntime.Library.Pull
import NovaRuntime.Sql.Plan
import NovaRuntime.Sql.Relational
import NovaRuntime.Scheduler.Pending
import NovaRuntime.Scheduler.Cancellation
import NovaRuntime.Scheduler.Overlap
import NovaRuntime.Object.Codec
import NovaRuntime.Object.Json
import NovaRuntime.Blob.Quotas
import NovaRuntime.Blob.Restarts
import NovaRuntime.Executor.Drain
import NovaRuntime.Executor.Permits
import NovaRuntime.Executor.Idempotency
import NovaRuntime.Auth.Lockout
import NovaRuntime.Auth.PasswordPolicy
import NovaRuntime.Auth.Rbac
import NovaRuntime.Auth.Credentials
import NovaRuntime.Auth.Sessions
import NovaRuntime.Executor.BreakerPhases
import NovaRuntime.Executor.RateLimiter
import NovaRuntime.Executor.RateLimits
import NovaRuntime.Executor.OperationQueue
import NovaRuntime.Executor.QueueOrder
import NovaRuntime.Executor.QueueRuns
import NovaRuntime.Storage.MemTableSize
import NovaRuntime.Storage.BloomFile
import NovaRuntime.Storage.SSTableOpen
import NovaRuntime.Storage.SSTableWrite
import NovaRuntime.Storage.SSTableTamper
import NovaRuntime.Storage.StoreWrites
import NovaRuntime.Storage.GroupCommit
import NovaRuntime.Storage.BTreeRuns
import NovaRuntime.Queue.Receipts
import NovaRuntime.Search.Consistency
import NovaRuntime.Events.TrieLookup
import NovaRuntime.Events.Overflow
import NovaRuntime.Events.Replay
import NovaRuntime.Cache.Accounting
import NovaRuntime.Sql.ThreeValued
import NovaRuntime.Sql.Comparisons
import NovaRuntime.Sql.IntegerArithmetic
import NovaRuntime.Sql.Dedup
import NovaRuntime.Sql.Like
import NovaRuntime.Queue.Backlog
import NovaRuntime.Queue.Fifo
import NovaRuntime.Sql.Capture
import NovaRuntime.Sql.Nesting
import NovaRuntime.Library.Worklist
import NovaRuntime.Scheduler.Dependencies
import NovaRuntime.Scheduler.Retries
import NovaRuntime.Scheduler.Cron
import NovaRuntime.Scheduler.CronFields
import NovaRuntime.Library.Assignments
import NovaRuntime.Library.Grouping
import NovaRuntime.Sql.Aggregation
import NovaRuntime.Sql.Deletes
import NovaRuntime.Sql.OrderBy
import NovaRuntime.Sql.Preorder
import NovaRuntime.Sql.RecordBatch
import NovaRuntime.Sql.Updates
import NovaRuntime.Library.Gregorian
import NovaRuntime.Object.Temporal
import NovaRuntime.Library.Nested
import NovaRuntime.Object.Document
import NovaRuntime.Object.Comparing
import NovaRuntime.Object.Denotation
import NovaRuntime.Object.Evolution
import NovaRuntime.Blob.Ranges
import NovaRuntime.Blob.Uploads
import NovaRuntime.Scheduler.Wheel
import NovaRuntime.Scheduler.ReadyIndex
import NovaRuntime.Object.Untrusted
import NovaRuntime.Blob.Merkle
import NovaRuntime.Cache.Coherence
import NovaRuntime.Cache.Patterns
import NovaRuntime.Events.DeadLetters
import NovaRuntime.Executor.CancelTokens
import NovaRuntime.Executor.TokenRaces
