import Mdrap.Engine.Types
import Mdrap.Lib.Runs

/-!
# The SQLite projection

A projection keeps the canonical and the quarantined events of a log in two tables, and beside them its checkpoint. `apply` writes
a batch and moves the checkpoint in one transaction. Any statement may fail. SQLite's own part is taken as it promises it: a
transaction that does not commit leaves no trace, and a row is passed over when its key is taken or when a column that must not
be null is null.

Beside the table the projection holds the highest offset it has let through, and a batch has to begin at most one beyond the
larger of the two.
-/

namespace Mdrap

open Lib

variable {V : Type}

/-! ## Rows -/

/-- A row of the table of canonical events. -/
structure CanonicalRow (V : Type) where
  eventId : String
  instrumentId : String
  eventType : String
  exchangeTimestamp : V
  receiveTimestamp : V
  processingTimestamp : V
  source : Json
  sequenceNumber : Option Int
  price : Json
  quantity : Json
  bidPrice : Json
  askPrice : Json
  bidSize : Json
  askSize : Json
  qualityStatus : String
  reasons : String
  rawId : Option String

/-- What a projection can be given. -/
inductive BatchItem (V : Type) where
  | decision (d : EngineDecision V)
  | canonical (e : CanonicalEvent V)
  | row (r : QuarantineRow)
  | other

namespace BatchItem

/-- The offset of an item, where it has one. -/
def offset? : BatchItem V → Option Int
  | .decision d => some d.offset
  | .canonical _ | .row _ | .other => none

/-- The row for an event. -/
def canonicalRow (P : Py V) (e : CanonicalEvent V) : CanonicalRow V where
  eventId := e.eventId
  instrumentId := e.instrumentId
  eventType := e.eventType.value
  exchangeTimestamp := e.exchangeTimestamp
  receiveTimestamp := e.receiveTimestamp
  processingTimestamp := e.processingTimestamp
  source := e.source
  sequenceNumber := e.sequenceNumber
  price := e.price
  quantity := e.quantity
  bidPrice := e.bidPrice
  askPrice := e.askPrice
  bidSize := e.bidSize
  askSize := e.askSize
  qualityStatus := e.qualityStatus.value
  reasons := reasonsText e.reasons
  rawId := match e.rawId with
    | .null => none
    | j => some (P.str j)

/-- The canonical rows of an item. -/
def canonicalRows (P : Py V) : BatchItem V → List (CanonicalRow V)
  | .decision d => if d.qualityStatus = .invalid then [] else d.canonicalEvent.toList.map (canonicalRow P)
  | .canonical e => if e.qualityStatus = .invalid then [] else [canonicalRow P e]
  | .row _ | .other => []

/-- The quarantine rows of an item. -/
def quarantineRows (P : Py V) : BatchItem V → List QuarantineRow
  | .decision d => d.quarantineRow.toList
  | .canonical e =>
    if e.qualityStatus = .invalid then
      [⟨e.eventId, .str e.instrumentId, e.source, QualityStatus.invalid.value, reasonsText e.reasons,
        jsonDumps (.obj [("raw_id", e.rawId)]), P.toJson e.receiveTimestamp⟩]
    else []
  | .row r => [r]
  | .other => []

end BatchItem

/-- The log offsets of a batch. -/
def walOffsets (batch : List (BatchItem V)) : List Int := (batch.filterMap BatchItem.offset?).filter (0 ≤ ·)

/-! ## Tables -/

/-- The database: the two tables, and the checkpoint of the projection. -/
structure Database (V : Type) where
  canonical : List (CanonicalRow V)
  quarantine : List QuarantineRow
  checkpoint : Option Int

namespace Database

def empty : Database V := ⟨[], [], none⟩

/-- A null where the table has `NOT NULL`; a number that is not a number is stored as null. -/
def hasNull (P : Py V) (r : CanonicalRow V) : Bool :=
  P.isNan r.exchangeTimestamp || P.isNan r.receiveTimestamp || P.isNan r.processingTimestamp ||
    (match r.source with
      | .null => true
      | _ => false)

/-- `INSERT OR IGNORE INTO canonical_events`. -/
def insertCanonical (P : Py V) (db : Database V) (r : CanonicalRow V) : Database V :=
  if hasNull P r ∨ db.canonical.any (fun x => x.eventId == r.eventId) then db else { db with canonical := db.canonical ++ [r] }

/-- `INSERT OR IGNORE INTO quarantine`. -/
def insertQuarantine (db : Database V) (r : QuarantineRow) : Database V :=
  if db.quarantine.any (fun x => x.eventId == r.eventId) then db else { db with quarantine := db.quarantine ++ [r] }

end Database

/-! ## The projection -/

/-- `SQLiteProjection`: its database, and what it holds in memory. -/
structure SqliteProjection (V : Type) where
  db : Database V
  expectedStartOffset : Int
  highestContiguousOffset : Int

/-- The statements of a transaction. -/
inductive Stmt where
  | begin
  | select
  | insertCanonical
  | insertQuarantine
  | checkpoint
  | commit
  deriving DecidableEq

/-- What a statement fails with: an operational error, of a lock that is busy or of anything else, a value that has the wrong
type, or another error. -/
inductive SqlFault where
  | busy
  | operational
  | valueError
  | other
  deriving DecidableEq

/-- How an attempt at a transaction ends. -/
inductive Attempt where
  | committed
  | raised (fault : SqlFault)
  deriving DecidableEq

namespace SqliteProjection

/-- A projection that opens a database. -/
def openOn (db : Database V) (expectedStartOffset : Int) : SqliteProjection V :=
  ⟨db, expectedStartOffset, match db.checkpoint with
    | some c => if 0 ≤ c then c else -1
    | none => -1⟩

/-- `checkpoint`. -/
def checkpoint (p : SqliteProjection V) : Int := p.db.checkpoint.getD (-1)

/-- The checkpoint a transaction goes by: the stored one is passed over when the query for it fails. -/
def currentCheckpoint (p : SqliteProjection V) (selected : Bool) : Int :=
  match p.db.checkpoint with
  | some c => if selected then max p.highestContiguousOffset c else p.highestContiguousOffset
  | none => p.highestContiguousOffset

/-- The offset the next batch has to begin at or before. -/
def expectedNext (p : SqliteProjection V) (checkpoint : Int) : Int :=
  if 0 ≤ checkpoint then checkpoint + 1 else p.expectedStartOffset

/-- Where a batch begins: at its smallest log offset, or as many places before its end as it has items. -/
def batchStart (batch : List (BatchItem V)) (offset : Int) : Int :=
  match (walOffsets batch).min? with
  | some n => n
  | none => offset - (if batch.isEmpty then 1 else batch.length) + 1

/-- Write rows, where there are any: the statement is not run for none. -/
def writeRows {R : Type} (rows : List R) (fault : Option SqlFault) (insert : Database V → R → Database V) (db : Database V) :
    Except SqlFault (Database V) :=
  match rows, fault with
  | [], _ => .ok db
  | _ :: _, some e => .error e
  | _ :: _, none => .ok (rows.foldl insert db)

/-- The body of a transaction, after `BEGIN`: the database it would commit, and the projection with what it holds in memory by
then. The rows and the checkpoint are of the transaction; the memory is not. -/
def transaction (P : Py V) (p : SqliteProjection V) (batch : List (BatchItem V)) (offset : Int) (fault : Stmt → Option SqlFault) :
    Except SqlFault (Database V) × SqliteProjection V :=
  match fault .select with
  | some .other => (.error .other, p)
  | select =>
    let curCp := p.currentCheckpoint (select = none)
    if 0 ≤ offset ∧ p.expectedNext curCp < batchStart batch offset then (.error .valueError, p)
    else
      match writeRows (batch.flatMap (BatchItem.canonicalRows P)) (fault .insertCanonical) (Database.insertCanonical P) p.db with
      | .error e => (.error e, p)
      | .ok db =>
        match writeRows (batch.flatMap (BatchItem.quarantineRows P)) (fault .insertQuarantine) Database.insertQuarantine db with
        | .error e => (.error e, p)
        | .ok db =>
          if 0 ≤ offset ∧ curCp < offset then
            let p := { p with highestContiguousOffset := max p.highestContiguousOffset offset }
            match fault .checkpoint with
            | some e => (.error e, p)
            | none => (.ok { db with checkpoint := some p.highestContiguousOffset }, p)
          else (.ok db, p)

/-- One attempt of `apply`. -/
def attempt (P : Py V) (p : SqliteProjection V) (batch : List (BatchItem V)) (offset : Int) (fault : Stmt → Option SqlFault) :
    Attempt × SqliteProjection V :=
  match fault .begin with
  | some e => (.raised e, p)
  | none =>
    match p.transaction P batch offset fault with
    | (.error e, p) => (.raised e, p)
    | (.ok db, p) =>
      match fault .commit with
      | some e => (.raised e, p)
      | none => (.committed, { p with db := db })

/-- The attempts of `apply`, each with the statements that fail in it. Only a busy lock is tried again. -/
def attempts (P : Py V) (batch : List (BatchItem V)) (offset : Int) :
    List (Stmt → Option SqlFault) → SqliteProjection V → Option Attempt × SqliteProjection V
  | [], p => (none, p)
  | fault :: faults, p =>
    match p.attempt P batch offset fault with
    | (.committed, p) => (some .committed, p)
    | (.raised e, p) => if faults ≠ [] ∧ e = .busy then attempts P batch offset faults p else (some (.raised e), p)

/-- `apply`, with as many attempts as `max_retries`: how it ends, where it gets to a transaction at all. -/
def apply (P : Py V) (p : SqliteProjection V) (batch : List (BatchItem V)) (offset : Int)
    (faults : List (Stmt → Option SqlFault)) : Option Attempt × SqliteProjection V :=
  if batch = [] ∧ offset < 0 then (none, p) else attempts P batch offset faults p

end SqliteProjection

end Mdrap

/-!
## Batches that were committed

A run of a projection over its database: calls of `apply` with decisions of consecutive offsets, and new projections on the same
database. Beside the projection the run keeps the batches whose transactions were committed.
-/

namespace Mdrap

open Lib

variable {V : Type}

/-- The batch begins at most one beyond the offset in memory. -/
def SqliteProjection.Admits (p : SqliteProjection V) (batch : List (BatchItem V)) (offset : Int) : Prop :=
  batchStart batch offset ≤ p.expectedNext p.highestContiguousOffset

instance (p : SqliteProjection V) (batch : List (BatchItem V)) (offset : Int) : Decidable (p.Admits batch offset) :=
  inferInstanceAs (Decidable (_ ≤ _))

/-- The decisions have the offsets from one of the log on, one after the other. -/
def ConsecutiveFrom (n : Nat) (ds : List (EngineDecision V)) : Prop :=
  ds.map EngineDecision.offset = (List.range' n ds.length).map Nat.cast

instance (n : Nat) (ds : List (EngineDecision V)) : Decidable (ConsecutiveFrom n ds) := inferInstanceAs (Decidable (_ = _))

/-- A batch of decisions of consecutive offsets. -/
structure WalBatch (V : Type) where
  start : Nat
  decisions : List (EngineDecision V)
  nonempty : decisions ≠ []
  consecutive : ConsecutiveFrom start decisions

namespace WalBatch

/-- The offset of the last decision. -/
def last (b : WalBatch V) : Int := b.start + b.decisions.length - 1

/-- What a projection is given. -/
def items (b : WalBatch V) : List (BatchItem V) := b.decisions.map .decision

end WalBatch

/-- What happens to a projection. -/
inductive SqliteEvent (V : Type) where
  | apply (batch : WalBatch V) (faults : List (Stmt → Option SqlFault))
  | reopen

/-- A projection, and the batches it has committed. -/
structure Ledger (V : Type) where
  proj : SqliteProjection V
  committed : List (WalBatch V)

namespace Ledger

/-- A projection on a new database. -/
def new (expectedStartOffset : Int) : Ledger V := ⟨.openOn .empty expectedStartOffset, []⟩

/-- One event. -/
def step (P : Py V) (l : Ledger V) : SqliteEvent V → Ledger V
  | .apply b faults =>
    match l.proj.apply P b.items b.last faults with
    | (some .committed, p) => ⟨p, l.committed ++ [b]⟩
    | (_, p) => { l with proj := p }
  | .reopen => { l with proj := .openOn l.proj.db l.proj.expectedStartOffset }

/-- Every offset up to the checkpoint is of a decision in a committed batch. -/
def Covered (l : Ledger V) : Prop :=
  ∀ c ∈ l.proj.db.checkpoint, ∀ n, l.proj.expectedStartOffset ≤ n → n ≤ c →
    ∃ b ∈ l.committed, ∃ d ∈ b.decisions, d.offset = n

/-- A batch that is let through because of the offset in memory would be let through because of the stored checkpoint, too. -/
def FollowsStored (l : Ledger V) : SqliteEvent V → Prop
  | .apply b _ => l.proj.Admits b.items b.last → b.start ≤ l.proj.expectedNext l.proj.checkpoint
  | .reopen => True

instance (l : Ledger V) (e : SqliteEvent V) : Decidable (l.FollowsStored e) :=
  match e with
  | .apply b _ =>
    inferInstanceAs (Decidable (l.proj.Admits b.items b.last → b.start ≤ l.proj.expectedNext l.proj.checkpoint))
  | .reopen => isTrue trivial

end Ledger

end Mdrap
