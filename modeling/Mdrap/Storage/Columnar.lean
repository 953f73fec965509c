import Mathlib.Order.Defs.LinearOrder
import Mdrap.Engine.Types
import Mdrap.Lib.KeyedTable
import Mdrap.Lib.Runs

/-!
# The columnar store

A `ColumnarStore` copies the canonical events of a SQLite store into a table of its own. An incremental copy asks SQLite only for the
rows whose exchange timestamp is at least the largest one it has.

Numbers come from a linear order, and a float may also be none of them. SQLite keeps such a float as null; DuckDB keeps it, and takes
it to be greater than all numbers.
-/

namespace Mdrap

open Lib

variable {T : Type}

/-! ## Values and rows -/

/-- A float. -/
inductive PyFloat (T : Type) where
  | nan
  | num (x : T)
  deriving DecidableEq

namespace PyFloat

/-- A float in a column of SQLite. -/
def sqliteReal : PyFloat T → Option T
  | .nan => none
  | .num x => some x

/-- The larger float, as DuckDB orders them. -/
def duckMax [LinearOrder T] : PyFloat T → PyFloat T → PyFloat T
  | .num x, .num y => .num (max x y)
  | _, _ => .nan

end PyFloat

/-- `EventType`. -/
inductive TickType where
  | trade
  | quote
  | bbo
  | book
  | depth
  | halt
  | status
  | unknown

def TickType.value : TickType → String
  | .trade => "TRADE"
  | .quote => "QUOTE"
  | .bbo => "BBO"
  | .book => "BOOK"
  | .depth => "DEPTH"
  | .halt => "HALT"
  | .status => "STATUS"
  | .unknown => "UNKNOWN"

/-- `CanonicalEvent`, as far as the tables keep it. -/
structure ColumnarEvent (T : Type) where
  eventId : String
  instrumentId : String
  eventType : TickType
  exchangeTimestamp : PyFloat T
  receiveTimestamp : PyFloat T
  processingTimestamp : PyFloat T
  source : String := ""
  sequenceNumber : Option Int := none
  price : Option (PyFloat T) := none
  quantity : Option (PyFloat T) := none
  bidPrice : Option (PyFloat T) := none
  bidSize : Option (PyFloat T) := none
  askPrice : Option (PyFloat T) := none
  askSize : Option (PyFloat T) := none
  qualityStatus : QualityStatus := .valid
  reasons : List String := []
  rawId : String := ""

/-- A row of `canonical_events`, or of `canonical_ticks`, by what the columns of numbers hold. -/
structure TickRow (F : Type) where
  eventId : String
  instrumentId : String
  eventType : String
  exchangeTimestamp : Option F
  receiveTimestamp : Option F
  processingTimestamp : Option F
  source : String
  sequenceNumber : Option Int
  price : Option F
  quantity : Option F
  bidPrice : Option F
  bidSize : Option F
  askPrice : Option F
  askSize : Option F
  qualityStatus : String
  reasons : String
  rawId : String
  deriving DecidableEq

/-- A row of SQLite in the columns of DuckDB. -/
def TickRow.copied (r : TickRow T) : TickRow (PyFloat T) where
  eventId := r.eventId
  instrumentId := r.instrumentId
  eventType := r.eventType
  exchangeTimestamp := r.exchangeTimestamp.map .num
  receiveTimestamp := r.receiveTimestamp.map .num
  processingTimestamp := r.processingTimestamp.map .num
  source := r.source
  sequenceNumber := r.sequenceNumber
  price := r.price.map .num
  quantity := r.quantity.map .num
  bidPrice := r.bidPrice.map .num
  bidSize := r.bidSize.map .num
  askPrice := r.askPrice.map .num
  askSize := r.askSize.map .num
  qualityStatus := r.qualityStatus
  reasons := r.reasons
  rawId := r.rawId

@[simp] theorem TickRow.eventId_copied (r : TickRow T) : r.copied.eventId = r.eventId := rfl

namespace ColumnarEvent

/-- The text of the reasons, with another one where there are none. -/
def reasonsOr (none : String) (e : ColumnarEvent T) : String :=
  if e.reasons = [] then none else jsonDumps (.arr (e.reasons.map .str))

/-- The row that `write_canonical_batch` binds. -/
def canonicalRow (e : ColumnarEvent T) : TickRow T where
  eventId := e.eventId
  instrumentId := e.instrumentId
  eventType := e.eventType.value
  exchangeTimestamp := e.exchangeTimestamp.sqliteReal
  receiveTimestamp := e.receiveTimestamp.sqliteReal
  processingTimestamp := e.processingTimestamp.sqliteReal
  source := e.source
  sequenceNumber := e.sequenceNumber
  price := e.price.bind PyFloat.sqliteReal
  quantity := e.quantity.bind PyFloat.sqliteReal
  bidPrice := e.bidPrice.bind PyFloat.sqliteReal
  bidSize := e.bidSize.bind PyFloat.sqliteReal
  askPrice := e.askPrice.bind PyFloat.sqliteReal
  askSize := e.askSize.bind PyFloat.sqliteReal
  qualityStatus := e.qualityStatus.value
  reasons := e.reasonsOr "[]"
  rawId := e.rawId

/-- The row that `ingest_events` binds. -/
def tickRow (e : ColumnarEvent T) : TickRow (PyFloat T) where
  eventId := e.eventId
  instrumentId := e.instrumentId
  eventType := e.eventType.value
  exchangeTimestamp := some e.exchangeTimestamp
  receiveTimestamp := some e.receiveTimestamp
  processingTimestamp := some e.processingTimestamp
  source := e.source
  sequenceNumber := e.sequenceNumber
  price := e.price
  quantity := e.quantity
  bidPrice := e.bidPrice
  bidSize := e.bidSize
  askPrice := e.askPrice
  askSize := e.askSize
  qualityStatus := e.qualityStatus.value
  reasons := e.reasonsOr ""
  rawId := if e.rawId = "" then "" else e.rawId

end ColumnarEvent

/-! ## The tables -/

/-- `canonical_events`. -/
abbrev CanonicalEvents (T : Type) := KeyedTable (R := TickRow T) TickRow.eventId

/-- `canonical_ticks`. -/
abbrev CanonicalTicks (T : Type) := KeyedTable (R := TickRow (PyFloat T)) TickRow.eventId

/-- `write_canonical_batch`. -/
def writeCanonicalBatch (events : List (ColumnarEvent T)) (t : CanonicalEvents T) : CanonicalEvents T :=
  t.insertAll (events.map ColumnarEvent.canonicalRow)

/-- `SELECT MAX(exchange_timestamp)` in SQLite. -/
def CanonicalEvents.maxTimestamp [LinearOrder T] (t : CanonicalEvents T) : Option T :=
  (t.rows.filterMap TickRow.exchangeTimestamp).max?

/-- What a copy asks SQLite through: DuckDB's scanner of an attached database, or `sqlite3`. -/
inductive Scan where
  | attached
  | fallback

/-- The rows whose exchange timestamp is at least the given one, or all. -/
def selectRows [LinearOrder T] (since : Option T) (t : CanonicalEvents T) : List (TickRow T) :=
  match since with
  | some x => t.rows.filter (fun r => r.exchangeTimestamp.any (x ≤ ·))
  | none => t.rows

/-- What `freshness` reports. -/
structure Freshness (T : Type) where
  duckdbTicks : Nat
  sqliteTicks : Nat
  lagTicks : Nat
  duckdbMaxTs : PyFloat T
  sqliteMaxTs : T
  isFresh : Bool

namespace CanonicalTicks

/-- `ingest_events`. -/
def ingestEvents (events : List (ColumnarEvent T)) (t : CanonicalTicks T) : Nat × CanonicalTicks T :=
  let rows := events.map ColumnarEvent.tickRow
  if rows = [] then (0, t) else (rows.length, t.insertAll rows)

/-- The exchange timestamps, without nulls. -/
def timestamps (t : CanonicalTicks T) : List (PyFloat T) := t.rows.filterMap TickRow.exchangeTimestamp

variable [LinearOrder T] [Zero T]

/-- `max_timestamp`. -/
def maxTimestamp (t : CanonicalTicks T) : PyFloat T :=
  match t.timestamps with
  | [] => .num 0
  | x :: xs => xs.foldl .duckMax x

/-- The timestamp that an incremental copy starts from, where it is greater than zero. -/
def since (incremental : Bool) (t : CanonicalTicks T) : Option T :=
  match if incremental then t.maxTimestamp else .num 0 with
  | .num x => if 0 < x then some x else none
  | .nan => none

/-- `sync_from_sqlite`. -/
def syncFromSqlite (incremental : Bool) (scan : Scan) (sqlite : CanonicalEvents T) (t : CanonicalTicks T) : Int × CanonicalTicks T :=
  let before := t.count
  let rows := (selectRows (t.since incremental) sqlite).map TickRow.copied
  let t :=
    match scan with
    | .attached => t.insertAll rows
    | .fallback => if rows = [] then t else t.insertAll rows
  ((t.count : Int) - before, t)

/-- `freshness`. -/
def freshness (sqlite : CanonicalEvents T) (t : CanonicalTicks T) : Freshness T where
  duckdbTicks := t.count
  sqliteTicks := sqlite.count
  lagTicks := sqlite.count - t.count
  duckdbMaxTs := t.maxTimestamp
  sqliteMaxTs := sqlite.maxTimestamp.getD 0
  isFresh := sqlite.count - t.count = 0

end CanonicalTicks

/-! ## Runs -/

/-- A call. -/
inductive ColumnarCall (T : Type) where
  | insert (events : List (ColumnarEvent T))
  | ingest (events : List (ColumnarEvent T))
  | sync (incremental : Bool) (scan : Scan)

/-- The two tables. -/
structure ColumnarTables (T : Type) where
  sqlite : CanonicalEvents T
  ticks : CanonicalTicks T

namespace ColumnarTables

/-- New stores. -/
def new : ColumnarTables T := ⟨.empty, .empty⟩

variable [LinearOrder T] [Zero T]

/-- The tables after a call. -/
def step (s : ColumnarTables T) : ColumnarCall T → ColumnarTables T
  | .insert events => { s with sqlite := writeCanonicalBatch events s.sqlite }
  | .ingest events => { s with ticks := (s.ticks.ingestEvents events).2 }
  | .sync incremental scan => { s with ticks := (s.ticks.syncFromSqlite incremental scan s.sqlite).2 }

end ColumnarTables

end Mdrap
