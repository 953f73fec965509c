import Mdrap.Storage.CrashJournal

/-!
# The write paths of the store

A row gets into the quarantine in four ways: with `write_quarantine_batch`, with `write_batches_atomic`, with `apply`, and from the
crash journal when the store is opened. `apply` moves the checkpoint of the projection in the same transaction.

`write_quarantine_batch` has no transaction of its own. What it has written before a row that fails stays in the transaction that the
connection has open, and until that is committed no other one can begin. Raw values are not asked to be kept. The counters of conflicts
are left out, as are the rows on the health of sources and the time of a checkpoint.
-/

namespace Mdrap

open Lib

variable {V : Type}

/-- What is left open beside recovery: `json.loads` and `json.dumps` of any texts, and `str.lower`. -/
structure StoreEnv (V : Type) extends RecoveryEnv V where
  loadsText : PyText → Except PyError (PyJson V)
  dumpsText : PyJson V → Except PyError PyText
  lower : PyText → PyText

/-! ## Redaction -/

/-- `_REDACT_KEYS`. -/
def redactKeys : List String := ["account", "account_id", "password", "secret", "trader_id", "1", "11", "50", "554"]

/-- The value that stands for one that must not be kept. -/
def redactedValue : PyJson V := .str (pyText "[REDACTED]")

namespace StoreEnv

variable (env : StoreEnv V)

/-- The lower-case form of a name is in `_REDACT_KEYS`. -/
def isSensitive (k : PyText) : Bool := redactKeys.any (fun key => env.lower k = pyText key)

/-- The members of an object, with the values of sensitive names replaced. -/
def redactMembers (kvs : List (PyText × PyJson V)) : List (PyText × PyJson V) :=
  kvs.map (fun kv => if env.isSensitive kv.1 then (kv.1, redactedValue) else kv)

/-- `_redact_payload_str`: a payload that cannot be read or written stays as it is. -/
def redactPayloadStr (payload : PyText) : PyText :=
  if payload = [] then payload
  else
    match env.loadsText payload with
    | .ok (.obj kvs) =>
      if kvs.any (fun kv => env.isSensitive kv.1) then
        match env.dumpsText (.obj (env.redactMembers kvs)) with
        | .ok text => text
        | .error _ => payload
      else payload
    | _ => payload

/-- A row of the quarantine as `write_quarantine_batch` writes it. -/
def redactRow : List (PyJson V) → List (PyJson V)
  | [a, b, c, d, e, .str payload, g] => [a, b, c, d, e, .str (env.redactPayloadStr payload), g]
  | row => row

end StoreEnv

/-! ## Batches -/

/-- A `CanonicalEvent`, as far as the store writes it. -/
structure StoreEvent (V : Type) where
  eventId : PyJson V
  instrumentId : PyJson V
  eventType : String
  exchangeTimestamp : PyJson V
  receiveTimestamp : PyJson V
  processingTimestamp : PyJson V
  source : PyJson V
  sequenceNumber : PyJson V
  price : PyJson V
  quantity : PyJson V
  bidPrice : PyJson V
  bidSize : PyJson V
  askPrice : PyJson V
  askSize : PyJson V
  qualityStatus : QualityStatus
  reasons : List PyText
  rawId : Option PyText

/-- An `EngineDecision`, as far as the store reads it. -/
structure StoreDecision (V : Type) where
  offset : Int
  canonicalEvent : Option (StoreEvent V)
  qualityStatus : QualityStatus
  quarantineRow : Option (List (PyJson V))

/-- What `apply` is given: a decision, an event, a row, or something else. -/
inductive StoreItem (V : Type) where
  | decision (d : StoreDecision V)
  | canonical (e : StoreEvent V)
  | row (r : List (PyJson V))
  | other

/-- The id of the raw event, or null. -/
def StoreEvent.rawIdValue (e : StoreEvent V) : PyJson V := e.rawId.elim .null .str

namespace StoreEnv

variable (env : StoreEnv V)

/-- The row of an event. -/
def canonicalRow (e : StoreEvent V) : List (PyJson V) :=
  [e.eventId, e.instrumentId, .str (pyText e.eventType), e.exchangeTimestamp, e.receiveTimestamp, e.processingTimestamp, e.source,
    e.sequenceNumber, e.price, e.quantity, e.bidPrice, e.bidSize, e.askPrice, e.askSize, .str (pyText e.qualityStatus.value),
    .str (pyText (if e.reasons = [] then "[]" else env.dumps (.arr (e.reasons.map .str)))), e.rawIdValue]

/-- The row of an invalid event in the quarantine. -/
def invalidRow (e : StoreEvent V) : List (PyJson V) :=
  [e.eventId, e.instrumentId, e.source, .str (pyText QualityStatus.invalid.value),
    .str (pyText (env.dumps (.arr (e.reasons.map .str)))), .str (pyText (env.dumps (.obj [(pyText "raw_id", e.rawIdValue)]))),
    e.receiveTimestamp]

/-- The canonical rows of an item. -/
def canonicalRows : StoreItem V → List (List (PyJson V))
  | .decision d => if d.qualityStatus = .invalid then [] else d.canonicalEvent.toList.map env.canonicalRow
  | .canonical e => if e.qualityStatus = .invalid then [] else [env.canonicalRow e]
  | .row _ | .other => []

/-- The quarantine rows of an item; an empty row of a decision is none. -/
def quarantineRows : StoreItem V → List (List (PyJson V))
  | .decision d => d.quarantineRow.toList.filter (fun r => !r.isEmpty)
  | .canonical e => if e.qualityStatus = .invalid then [env.invalidRow e] else []
  | .row r => if r.length = 7 then [r] else []
  | .other => []

end StoreEnv

/-! ## The store -/

/-- The tables, and the stored offset of the projection. -/
structure StoreTables (V : Type) where
  db : StoreDb V
  checkpoint : Option Int

/-- `Store`: what is committed, what its connection sees, and whether that has a transaction open. -/
structure SqliteStore (V : Type) where
  saved : StoreTables V
  current : StoreTables V
  inTransaction : Bool

/-- The statements of `apply`. -/
inductive StoreStmt where
  | begin
  | insertCanonical
  | insertQuarantine
  | selectRoot
  | insertRoot
  | checkpoint
  | commit
  deriving DecidableEq

namespace SqliteStore

/-- A store on a new database. -/
def new : SqliteStore V := ⟨⟨⟨fun _ => [], []⟩, none⟩, ⟨⟨fun _ => [], []⟩, none⟩, false⟩

/-- `checkpoint`; a query that fails gives -1, too. -/
def checkpoint (s : SqliteStore V) : Int := s.current.checkpoint.getD (-1)

/-- A transaction that commits, or one that leaves no trace. -/
def transaction (s : SqliteStore V) (body : StoreTables V → Option (StoreTables V)) : SqliteStore V :=
  if s.inTransaction then s
  else
    match body s.current with
    | none => s
    | some t => ⟨t, t, false⟩

/-- `commit`. -/
def commit (s : SqliteStore V) : SqliteStore V := ⟨s.current, s.current, false⟩

end SqliteStore

namespace StoreEnv

variable (env : StoreEnv V)

/-- Entries for a table. -/
def entries (table : JournalTable) (rows : List (List (PyJson V))) : List (JournalEntry V) := rows.map (fun r => ⟨table, r⟩)

/-- The statements that `apply` runs: it leaves out an insertion of no rows. -/
def statements (batch : List (StoreItem V)) : List StoreStmt :=
  [.begin] ++ (if (batch.flatMap env.canonicalRows).isEmpty then [] else [.insertCanonical]) ++
    (if (batch.flatMap env.quarantineRows).isEmpty then [] else [.insertQuarantine, .selectRoot, .insertRoot]) ++
    [.checkpoint, .commit]

/-- One of the statements that are run fails. -/
def fails (batch : List (StoreItem V)) (fault : Option StoreStmt) : Bool := fault.any (fun stmt => stmt ∈ env.statements batch)

section Write

variable [DecidableEq V]

/-- The transaction of `apply`; none where it raises. -/
def applyBatch (now : V) (batch : List (StoreItem V)) (offset : Int) (fault : Option StoreStmt) (t : StoreTables V) :
    Option (StoreTables V) :=
  if env.fails batch fault then none
  else do
    let db ← insertMany env.toRecoveryEnv .canonical (entries .canonical (batch.flatMap env.canonicalRows)) t.db
    let db ← insertMany env.toRecoveryEnv .quarantine (entries .quarantine (batch.flatMap env.quarantineRows)) db
    let db := appendQuarantineMerkleBatch env.toRecoveryEnv now (batch.flatMap env.quarantineRows) db
    if -(2 ^ 63) ≤ offset ∧ offset < 2 ^ 63 then some ⟨db, some offset⟩ else none

/-- `apply`. -/
def apply (now : V) (batch : List (StoreItem V)) (offset : Int) (fault : Option StoreStmt) (s : SqliteStore V) : SqliteStore V :=
  if batch.isEmpty ∧ offset < 0 then s else s.transaction (env.applyBatch now batch offset fault)

/-- `write_batches_atomic`, where a statement fails or none does. -/
def writeBatches (now : V) (canonical : List (StoreEvent V)) (quarantine lineage : List (List (PyJson V))) (fault : Bool)
    (s : SqliteStore V) : SqliteStore V :=
  s.transaction fun t =>
    if fault then none
    else
      (writeBatchesAtomic env.toRecoveryEnv now (entries .canonical (canonical.map env.canonicalRow)) (entries .quarantine quarantine)
        (entries .lineage lineage) t.db).map (fun db => { t with db := db })

/-- The rows that `executemany` gets through: those before one that cannot be bound, and before a failure. -/
def writtenRows (fault : Option Nat) (rows : List (List (PyJson V))) : List (List (PyJson V)) :=
  (rows.take (fault.getD rows.length)).takeWhile (fun r => (storedRow env.toRecoveryEnv ⟨.quarantine, r⟩).isSome)

/-- `write_quarantine_batch`, up to a failure before one of the rows or behind the last one. -/
def writeQuarantineBatch (now : V) (rows : List (List (PyJson V))) (fault : Option Nat) (s : SqliteStore V) : SqliteStore V :=
  if rows.isEmpty then s
  else
    let redacted := rows.map env.redactRow
    let written := env.writtenRows fault redacted
    let stored := written.filterMap (fun r => storedRow env.toRecoveryEnv ⟨.quarantine, r⟩)
    let db := s.current.db
    let db := { db with rows := fun t => if t = .quarantine then stored.foldl insertIgnore (db.rows t) else db.rows t }
    let db := if written.length = redacted.length ∧ fault = none then
      appendQuarantineMerkleBatch env.toRecoveryEnv now redacted db else db
    ⟨s.saved, { s.current with db := db }, true⟩

/-- The store is opened again, with a journal beside its database. -/
def reopen (clock : RecoveryClock V) (journal : Bytes) (s : SqliteStore V) : SqliteStore V :=
  let t := { s.saved with db := (openStore env.toRecoveryEnv clock s.saved.db journal).1 }
  ⟨t, t, false⟩

end Write

end StoreEnv

end Mdrap
