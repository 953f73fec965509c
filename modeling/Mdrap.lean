import Mdrap.Lib.Bytes
import Mdrap.Lib.Candle
import Mdrap.Lib.Digest
import Mdrap.Lib.Json
import Mdrap.Lib.JsonText
import Mdrap.Lib.AsciiText
import Mdrap.Lib.Merkle
import Mdrap.Lib.Ieee
import Mdrap.Lib.Store
import Mdrap.Lib.Runs
import Mdrap.Lib.Sort
import Mdrap.Lib.Dict
import Mdrap.Lib.KeySet
import Mdrap.Lib.Proc
import Mdrap.Lib.Ledger
import Mdrap.Lib.Scanner
import Mdrap.Lib.Machine
import Mdrap.Lib.Window
import Mdrap.Lib.Leak
import Mdrap.Lib.Sweep
import Mdrap.Lib.SeenBits
import Mdrap.Lib.Probing
import Mdrap.IngestLog.Frame
import Mdrap.IngestLog.Record
import Mdrap.IngestLog.Repair
import Mdrap.IngestLog.Log
import Mdrap.IngestLog.Read
import Mdrap.Lemmas.Frame
import Mdrap.IngestLog.Layout
import Mdrap.Lemmas.Layout
import Mdrap.Lemmas.Repair
import Mdrap.Lemmas.Open
import Mdrap.Lemmas.File
import Mdrap.Lemmas.Append
import Mdrap.Lemmas.Read
import Mdrap.IngestLog.Run
import Mdrap.Lemmas.Run
import Mdrap.Lemmas.Crash
import Mdrap.Lemmas.ZeroTail
import Mdrap.Lemmas.AnyFile
import Mdrap.Lemmas.Lifetime
import Mdrap.IngestLog.Group
import Mdrap.Lemmas.Placed
import Mdrap.Lemmas.Stores
import Mdrap.Lemmas.Fetch
import Mdrap.Theorems.Recovery
import Mdrap.Theorems.Holes
import Mdrap.Theorems.Salvage
import Mdrap.Theorems.Intact
import Mdrap.Theorems.Offsets
import Mdrap.Theorems.Durability
import Mdrap.Theorems.Fanout
import Mdrap.Theorems.GroupCommit
import Mdrap.Engine.Exact
import Mdrap.Engine.State
import Mdrap.Engine.Stages
import Mdrap.Engine.Prices
import Mdrap.Engine.Step
import Mdrap.Engine.Submit
import Mdrap.Engine.Replay
import Mdrap.Lemmas.Fields
import Mdrap.Lemmas.Keys
import Mdrap.Lemmas.Paired
import Mdrap.Lemmas.Step
import Mdrap.Lemmas.Submit
import Mdrap.Lemmas.Streams
import Mdrap.Lemmas.OwnStep
import Mdrap.Lemmas.OtherStep
import Mdrap.Theorems.Batch
import Mdrap.Native.Engine
import Mdrap.Native.ReplayRing
import Mdrap.Theorems.ReplayRing
import Mdrap.Quality.Slot
import Mdrap.Quality.Engine
import Mdrap.Lemmas.Held
import Mdrap.Lemmas.Handed
import Mdrap.Lemmas.Tame
import Mdrap.Theorems.Reorder
import Mdrap.Theorems.Crossed
import Mdrap.Theorems.Telemetry
import Mdrap.Theorems.Duplicates
import Mdrap.Theorems.FeedRecovery
import Mdrap.Theorems.Mbo
import Mdrap.Theorems.RestingOrders
import Mdrap.Theorems.QueuePosition
import Mdrap.Lemmas.Sequence
import Mdrap.Theorems.Sequence
import Mdrap.Theorems.NativeSequence
import Mdrap.Theorems.Bitmap
import Mdrap.Theorems.Dedup
import Mdrap.Theorems.Corridor
import Mdrap.Theorems.Isolation
import Mdrap.Theorems.Itch
import Mdrap.Shm.Seqlock
import Mdrap.Theorems.Seqlock
import Mdrap.Shm.Drainer
import Mdrap.Theorems.Drainer
import Mdrap.Protocol.Wire
import Mdrap.Protocol.Sbe
import Mdrap.Theorems.Wire
import Mdrap.Lemmas.WireFields
import Mdrap.Theorems.WireRoundTrip
import Mdrap.Feed.Arbitrator
import Mdrap.Feed.Fanout
import Mdrap.Feed.Recovery
import Mdrap.Book.Itch
import Mdrap.Bars.Database
import Mdrap.Book.Mbo
import Mdrap.Book.Bbo
import Mdrap.Theorems.Bbo
import Mdrap.Book.Depth
import Mdrap.Theorems.DepthCap
import Mdrap.Lemmas.Depth
import Mdrap.Theorems.DepthFresh
import Mdrap.Theorems.Vwap
import Mdrap.Shm.Slot
import Mdrap.Shm.Writer
import Mdrap.Theorems.ShmRoundTrip
import Mdrap.Native.SbeStream
import Mdrap.Theorems.SbeRing
import Mdrap.Theorems.SbeAgreement
import Mdrap.Gateway.Normalize
import Mdrap.Pipeline.Reconcile
import Mdrap.Pipeline.Strategy
import Mdrap.Theorems.LatestKept
import Mdrap.Theorems.Selection
import Mdrap.Pipeline.Process
import Mdrap.Theorems.Gateway
import Mdrap.Theorems.Pipeline
import Mdrap.Failover.Node
import Mdrap.Theorems.Failover
import Mdrap.Theorems.Promotion
import Mdrap.Failover.Replication
import Mdrap.Theorems.Redelivery
import Mdrap.Theorems.Replication
import Mdrap.Security.ApiKeys
import Mdrap.Lemmas.ApiKeys
import Mdrap.Storage.CrashJournal
import Mdrap.Storage.Audit
import Mdrap.Lemmas.Audit
import Mdrap.Theorems.CrashJournal
import Mdrap.Theorems.Arbitrator
import Mdrap.Theorems.GapBuffer
import Mdrap.Theorems.Audit
import Mdrap.Theorems.Revocation
import Mdrap.Theorems.EventIds
import Mdrap.Lib.UndoJournal
import Mdrap.Lemmas.Undo
import Mdrap.Lemmas.Journaled
import Mdrap.Lemmas.TakenBack
import Mdrap.Lemmas.OldNumbers
import Mdrap.Lemmas.Findings
import Mdrap.Theorems.Rollback
import Mdrap.Theorems.Bars
import Mdrap.Projection.Sqlite
import Mdrap.Projection.Worker
import Mdrap.Projection.Tracker
import Mdrap.Lemmas.Served
import Mdrap.Lemmas.Sqlite
import Mdrap.Theorems.Checkpoint
import Mdrap.Theorems.Served
import Mdrap.Theorems.Accounts
import Mdrap.Theorems.PriceFrame
import Mdrap.Theorems.Baseline
import Mdrap.Theorems.Worker
import Mdrap.Theorems.Tracker
import Mdrap.Security.RateLimit
import Mdrap.Theorems.TokenBucket
import Mdrap.Theorems.MerkleProof
import Mdrap.Storage.Quarantine
import Mdrap.Theorems.QuarantineLog
import Mdrap.Partition.Spsc
import Mdrap.Theorems.Spsc
import Mdrap.Partition.Sequencer
import Mdrap.Theorems.ChannelSequence
import Mdrap.Theorems.Routing
import Mdrap.Storage.Paths
import Mdrap.Theorems.Redaction
import Mdrap.Theorems.StoreCheckpoint
import Mdrap.Theorems.BarFlush
import Mdrap.Theorems.ColumnarSync
import Mdrap.Theorems.Symbology
