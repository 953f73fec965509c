import Mdrap.Engine.Stages
import Mdrap.Lib.Dict

/-!
# The crash journal

`Store` finds beside its database a journal of lines, each a JSON text of a row for one of three tables. `_recover_from_journal` reads
all lines, writes all rows in one transaction, and empties the journal if no line was malformed. A malformed line becomes a row of the
quarantine.

What `json.loads`, `json.dumps`, `str`, `repr`, `int` and `float` do is left open, and so is what a column of SQLite makes of a value.
A text of Python is a list of code points, since `json.loads` can give a surrogate that stands alone; SQLite takes no such text. The
database is not locked by another process, and a journal that is opened for writing is emptied.
-/

namespace Mdrap

open Lib

/-- A text of Python. -/
abbrev PyText : Type := List Nat

/-- A literal. -/
def pyText (s : String) : PyText := s.toList.map Char.toNat

/-- A value that `json.loads` gives. -/
inductive PyJson (V : Type) where
  | null
  | bool (b : Bool)
  | int (n : Int)
  | float (x : V)
  | str (s : PyText)
  | arr (xs : List (PyJson V))
  | obj (kvs : List (PyText × PyJson V))

/-- A value in a table. -/
inductive SqlValue (V : Type) where
  | null
  | int (n : Int)
  | real (x : V)
  | text (s : PyText)
  deriving DecidableEq

/-- The declared types of columns. -/
inductive SqlType where
  | text
  | real
  | integer

/-- What is left open. -/
structure RecoveryEnv (V : Type) where
  loads : List Char → Except PyError (PyJson V)
  dumps : PyJson V → String
  str : PyJson V → PyText
  repr : PyJson V → PyText
  int : PyJson V → Except PyError Int
  float : PyJson V → Option V
  isFinite : V → Bool
  isNan : V → Bool
  zero : V
  nanos : V → Except PyError Int
  sha256 : Bytes → Bytes
  auditHash : String → V → String → String
  column : SqlType → SqlValue V → SqlValue V

variable {V : Type} (env : RecoveryEnv V)

namespace PyJson

/-- `data.get(k)` of a dictionary; the last one of the members of a name counts. -/
def get? (k : String) : List (PyText × PyJson V) → Option (PyJson V)
  | kvs => (kvs.reverse.find? (fun kv => kv.1 = pyText k)).map (·.2)

/-- `data.get(k)`. -/
def getD (kvs : List (PyText × PyJson V)) (k : String) (default : PyJson V) : PyJson V := (get? k kvs).getD default

/-- `type(x).__name__`. -/
def typeName : PyJson V → String
  | .null => "NoneType"
  | .bool _ => "bool"
  | .int _ => "int"
  | .float _ => "float"
  | .str _ => "str"
  | .arr _ => "list"
  | .obj _ => "dict"

end PyJson

/-! ## Events from dictionaries -/

namespace RecoveryEnv

/-- `_safe_optional_float`. -/
def safeOptionalFloat (x : PyJson V) : Option V :=
  match x with
  | .null => none
  | .bool _ => none
  | x => (env.float x).filter env.isFinite

/-- `_safe_float`. -/
def safeFloat (x : PyJson V) : V := (env.safeOptionalFloat x).getD env.zero

/-- A number of nanoseconds, or that of a timestamp where there is none. -/
def nanosOf (raw : PyJson V) (ts : V) : Except PyError Int :=
  match raw with
  | .null => env.nanos ts
  | raw => env.int raw

/-- The sequence number. -/
def sequenceNumber (raw : PyJson V) : Except PyError (Option Int) :=
  match raw with
  | .null => .ok none
  | raw =>
    match env.int raw with
    | .ok n => .ok (some n)
    | .error e => if e.name ∈ ["ValueError", "TypeError"] then .ok none else .error e

/-- The reasons. -/
def reasonsOf (raw : PyJson V) : List PyText :=
  match raw with
  | .str s => [s]
  | .arr xs => xs.map env.str
  | _ => []

end RecoveryEnv

/-- A member of an enumeration, by its value. -/
def memberOf (values : List String) (default : String) (raw : PyJson V) : String :=
  match raw with
  | .str s => (values.find? (fun v => pyText v = s)).getD default
  | _ => default

/-- The values of `EventType`. -/
def eventTypes : List String := ["TRADE", "QUOTE", "BBO", "BOOK", "DEPTH", "HALT", "STATUS", "UNKNOWN"]

/-- The values of `QualityStatus`. -/
def qualityStatuses : List String := ["VALID", "SUSPICIOUS", "INVALID"]

/-- A number that can be missing. -/
def optionalReal (x : Option V) : PyJson V := x.elim .null .float

/-- `CanonicalEvent.from_dict`, as the row of the event. -/
def fromDict (data : List (PyText × PyJson V)) : Except PyError (List (PyJson V)) := do
  let eventType := memberOf eventTypes "UNKNOWN" (PyJson.getD data "event_type" (.str (pyText "TRADE")))
  let status := memberOf qualityStatuses "INVALID" (PyJson.getD data "quality_status" (.str (pyText "VALID")))
  let seq ← env.sequenceNumber (PyJson.getD data "sequence_number" .null)
  let reasons := env.reasonsOf (PyJson.getD data "reasons" .null)
  let rawPrice := PyJson.getD data "price" .null
  let price := env.safeOptionalFloat rawPrice
  let badPrice := match rawPrice, price with
    | .null, _ => false
    | _, some _ => false
    | _, none => true
  let status := if badPrice then "INVALID" else status
  let reasons := if badPrice then reasons ++ [pyText "SCHEMA_VIOLATION"] else reasons
  let exchangeTs := env.safeFloat (PyJson.getD data "exchange_timestamp" (.float env.zero))
  let _ ← env.nanosOf (PyJson.getD data "exchange_ts_ns" .null) exchangeTs
  let receiveTs := env.safeFloat (PyJson.getD data "receive_timestamp" (.float env.zero))
  let _ ← env.nanosOf (PyJson.getD data "receive_ts_ns" .null) receiveTs
  let processingTs := env.safeFloat (PyJson.getD data "processing_timestamp" (.float env.zero))
  let _ ← env.nanosOf (PyJson.getD data "processing_ts_ns" .null) processingTs
  let text (k default : String) : PyJson V := .str (env.str (PyJson.getD data k (.str (pyText default))))
  let number (k : String) : PyJson V := optionalReal (env.safeOptionalFloat (PyJson.getD data k .null))
  return [text "event_id" "", text "instrument_id" "", .str (pyText eventType), .float exchangeTs, .float receiveTs,
    .float processingTs, text "source" "UNKNOWN", seq.elim .null .int, optionalReal price, number "quantity", number "bid_price",
    number "bid_size", number "ask_price", number "ask_size", .str (pyText status),
    .str (pyText (if reasons = [] then "[]" else env.dumps (.arr (reasons.map .str)))), text "raw_id" ""]

/-! ## Lines -/

/-- The lines of a file, with the ends that universal newlines know; `acc` is the line so far, backwards. -/
def fileLines (acc : Bytes) : Bytes → List Bytes
  | [] => if acc = [] then [] else [acc.reverse]
  | 10 :: rest => acc.reverse :: fileLines [] rest
  | 13 :: 10 :: rest => acc.reverse :: fileLines [] rest
  | 13 :: rest => acc.reverse :: fileLines [] rest
  | b :: rest => fileLines (b :: acc) rest

/-- The tables that a journal has rows for. -/
inductive JournalTable where
  | canonical
  | quarantine
  | lineage
  deriving DecidableEq

namespace JournalTable

/-- The columns. -/
def columns : JournalTable → List SqlType
  | .canonical => [.text, .text, .text, .real, .real, .real, .text, .integer, .real, .real, .real, .real, .real, .real, .text, .text,
      .text]
  | .quarantine => [.text, .text, .text, .text, .text, .text, .real]
  | .lineage => [.text, .text, .text, .text, .text, .text, .integer, .text, .text, .text, .real]

end JournalTable

/-- A row for a table. -/
structure JournalEntry (V : Type) where
  table : JournalTable
  row : List (PyJson V)

/-- What the text of a line stands for, or the text of the error that reading it raises. -/
def readEntry (rawLine : List Char) : Except PyText (JournalEntry V) :=
  match env.loads rawLine with
  | .error e => .error (pyText e.message)
  | .ok (.obj kvs) =>
    let entryType := PyJson.getD kvs "type" .null
    let isType (name : String) : Bool := match entryType with
      | .str s => s = pyText name
      | _ => false
    match PyJson.getD kvs "payload" .null with
    | .obj data =>
      if isType "canonical" then
        match fromDict env data with
        | .ok row => .ok ⟨.canonical, row⟩
        | .error e => .error (pyText e.message)
      else .error (pyText "Invalid or unrecognized journal entry: type=" ++ env.repr entryType)
    | .arr xs =>
      if isType "quarantine" then .ok ⟨.quarantine, xs⟩
      else if isType "lineage" then .ok ⟨.lineage, xs⟩
      else .error (pyText "Invalid or unrecognized journal entry: type=" ++ env.repr entryType)
    | _ => .error (pyText "Invalid or unrecognized journal entry: type=" ++ env.repr entryType)
  | .ok j => .error (pyText ("Journal line is not a JSON object: " ++ j.typeName))

/-- A byte in hexadecimal digits. -/
def hexByte (b : UInt8) : String := String.ofList [(b.toNat / 16).digitChar, (b.toNat % 16).digitChar]

/-- `digest.hex()`. -/
def digestText (b : Bytes) : String := String.join (b.map hexByte)

/-- The id of the row for a malformed line. -/
def corruptId (rawLine : List Char) (lineIdx : Nat) : String :=
  "corrupt_jrn_" ++ String.ofList ((digestText (env.sha256 (encodeUtf8 rawLine))).toList.take 16) ++ "_" ++ toString lineIdx

/-- The reasons of a malformed line. -/
def malformedReasons : PyText := pyText (env.dumps (.arr [.str (pyText "MALFORMED_JOURNAL_RECORD")]))

/-- The row for a malformed line. -/
def corruptRow (now : V) (rawLine : List Char) (error : PyText) (lineIdx : Nat) : List (PyJson V) :=
  [.str (pyText (corruptId env rawLine lineIdx)), .str (pyText "UNKNOWN"), .str (pyText "JOURNAL_RECOVERY"), .str (pyText "INVALID"),
    .str (malformedReasons env),
    .str (pyText (env.dumps (.obj [(pyText "raw_line", .str (rawLine.map Char.toNat)), (pyText "error", .str error)]))), .float now]

/-- What a line comes to. -/
inductive LineResult (V : Type) where
  | blank
  | entry (e : JournalEntry V)
  | malformed (row : List (PyJson V))

/-- A line; none where its bytes are no text. -/
def readLine (now : V) (lineIdx : Nat) (line : Bytes) : Option (LineResult V) :=
  match decodeUtf8 line with
  | none => none
  | some text =>
    let rawLine := strip text
    if rawLine = [] then some .blank
    else
      match readEntry env rawLine with
      | .ok e => some (.entry e)
      | .error error => some (.malformed (corruptRow env now rawLine error lineIdx))

/-- All lines, from a number on. The clock is read for each malformed one. -/
def readLines (clock : Nat → V) (lineIdx : Nat) : List Bytes → Option (List (LineResult V))
  | [] => some []
  | line :: lines => do
    let result ← readLine env (clock lineIdx) lineIdx line
    let results ← readLines clock (lineIdx + 1) lines
    return result :: results

/-! ## Tables -/

/-- An entry of the Merkle log of the quarantine. -/
structure MerkleEntry (V : Type) where
  timestamp : V
  entryHash : String
  prevRoot : String
  batchRoot : String
  batchSize : Nat

/-- The tables of the store. -/
structure StoreDb (V : Type) where
  rows : JournalTable → List (List (SqlValue V))
  merkleLog : List (MerkleEntry V)

/-- No code point of a text is a surrogate. -/
def encodable (s : PyText) : Bool := s.all (fun n => ¬(55296 ≤ n ∧ n < 57344))

/-- What a value is bound as. -/
def bindValue (x : PyJson V) : Option (SqlValue V) :=
  match x with
  | .null => some .null
  | .bool b => some (.int (if b then 1 else 0))
  | .int n => if -(2 ^ 63) ≤ n ∧ n < 2 ^ 63 then some (.int n) else none
  | .float x => some (if env.isNan x then .null else .real x)
  | .str s => if encodable s then some (.text s) else none
  | .arr _ => none
  | .obj _ => none

/-- The row that a table gets; none where a value cannot be bound or the number of values is not that of the columns. -/
def storedRow (e : JournalEntry V) : Option (List (SqlValue V)) :=
  if e.row.length = e.table.columns.length then
    (e.row.mapM (bindValue env)).map (List.zipWith env.column e.table.columns)
  else none

section Insert

variable [DecidableEq V]

/-- A row with the same id is there; a null is the same as nothing. -/
def conflicts (rows : List (List (SqlValue V))) (row : List (SqlValue V)) : Bool :=
  match row.head? with
  | none => false
  | some .null => false
  | some key => rows.any (fun row' => row'.head? = some key)

/-- `INSERT ... ON CONFLICT(event_id) DO NOTHING`. -/
def insertIgnore (rows : List (List (SqlValue V))) (row : List (SqlValue V)) : List (List (SqlValue V)) :=
  if conflicts rows row then rows else rows ++ [row]

/-- `executemany`. -/
def insertMany (table : JournalTable) (entries : List (JournalEntry V)) (db : StoreDb V) : Option (StoreDb V) := do
  let rows ← entries.mapM (storedRow env)
  return { db with rows := fun t => if t = table then rows.foldl insertIgnore (db.rows t) else db.rows t }

end Insert

/-- A level of the Merkle tree above another one; the last leaf of an odd number is taken twice. -/
def merkleLevel : List Bytes → List Bytes
  | [] => []
  | [a] => [env.sha256 (a ++ a)]
  | a :: b :: rest => env.sha256 (a ++ b) :: merkleLevel rest

/-- The levels up to the one with the root, at most as many as the first argument. -/
def merkleTop : Nat → List Bytes → List Bytes
  | 0, current => current
  | n + 1, current => if 1 < current.length then merkleTop n (merkleLevel env current) else current

/-- `_compute_merkle_root`. -/
def computeMerkleRoot (leaves : List Bytes) : String :=
  match merkleTop env leaves.length leaves with
  | [] => digestText (env.sha256 (encodeUtf8 "EMPTY_BATCH".toList))
  | root :: _ => digestText root

/-- `_append_quarantine_merkle_batch_in_tx`. -/
def appendQuarantineMerkleBatch (now : V) (rows : List (List (PyJson V))) (db : StoreDb V) : StoreDb V :=
  if rows.isEmpty then db
  else
    let leaves := rows.map (fun row => env.sha256 (encodeUtf8 (env.dumps (.arr row)).toList))
    let batchRoot := computeMerkleRoot env leaves
    let prevRoot := match db.merkleLog.getLast? with
      | some last => last.entryHash
      | none => "GENESIS_0000000000000000000000000000000000000000000000000000000000000000"
    let details := "n=" ++ toString rows.length ++ ",root=" ++ batchRoot
    { db with merkleLog := db.merkleLog ++ [⟨now, env.auditHash prevRoot now details, prevRoot, batchRoot, rows.length⟩] }

/-! ## Recovery -/

section Recover

variable [DecidableEq V]

/-- The rows of the results for a table: those of the entries, and for the quarantine those of the malformed lines too. -/
def rowsFor (table : JournalTable) (results : List (LineResult V)) : List (JournalEntry V) :=
  results.filterMap (fun result => match result with
    | .blank => none
    | .entry e => if e.table = table then some e else none
    | .malformed row => if table = .quarantine then some ⟨.quarantine, row⟩ else none)

/-- A line was malformed. -/
def hasCorrupted (results : List (LineResult V)) : Bool :=
  results.any (fun result => match result with
    | .malformed _ => true
    | _ => false)

/-- `write_batches_atomic`; none where it raises, and then nothing is written. -/
def writeBatchesAtomic (now : V) (canonical quarantine lineage : List (JournalEntry V)) (db : StoreDb V) : Option (StoreDb V) := do
  let db ← insertMany env .canonical canonical db
  let db ← insertMany env .quarantine quarantine db
  let db := appendQuarantineMerkleBatch env now (quarantine.map (·.row)) db
  insertMany env .lineage lineage db

/-- The times at which the clock is read: for a malformed line, and for the Merkle log. -/
structure RecoveryClock (V : Type) where
  line : Nat → V
  merkle : V

/-- `_recover_from_journal`: the tables and the journal. -/
def recoverFromJournal (clock : RecoveryClock V) (db : StoreDb V) (journal : Bytes) : StoreDb V × Bytes :=
  match readLines env clock.line 0 (fileLines [] journal) with
  | none => (db, journal)
  | some results =>
    match writeBatchesAtomic env clock.merkle (rowsFor .canonical results) (rowsFor .quarantine results)
      (rowsFor .lineage results) db with
    | none => (db, journal)
    | some db => (db, if hasCorrupted results then journal else [])

/-- `Store` is opened on a database and the journal beside it. -/
def openStore (clock : RecoveryClock V) (db : StoreDb V) (journal : Bytes) : StoreDb V × Bytes :=
  if journal = [] then (db, journal) else recoverFromJournal env clock db journal

end Recover

end Mdrap
