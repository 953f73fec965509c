import Mathlib.Data.Rat.Floor
import Mdrap.Engine.Types
import Mdrap.Lib.Dict

/-!
# The bar database

A `BarAggregator` rolls trades up into the bars of one interval; a `BarDatabase` feeds every trade to one aggregator for each interval
and merges the bars that come out into its table. Prices, quantities and times are exact numbers, and the table is that of a new
database.
-/

namespace Mdrap

open Lib

/-- What the bars read of a `CanonicalEvent`. -/
structure BarEvent where
  instrumentId : String
  eventType : EventType
  exchangeTimestamp : ℚ
  price : Option ℚ
  quantity : Option ℚ

/-- `INTERVALS`. -/
def barIntervals : List (String × ℚ) :=
  [("1s", 1), ("5s", 5), ("1m", 60), ("5m", 300), ("15m", 900), ("1h", 3600), ("1d", 86400)]

/-- `Bar`. -/
structure Bar where
  instrumentId : String
  intervalS : ℚ
  bucketStart : ℚ
  opening : ℚ
  high : ℚ
  low : ℚ
  close : ℚ
  volume : ℚ
  tradeCount : Nat
  vwap : ℚ

/-- The data of an open bucket. -/
structure Bucket where
  opening : ℚ
  high : ℚ
  low : ℚ
  close : ℚ
  volume : ℚ
  tradeCount : Nat
  vwapNum : ℚ

namespace Bucket

/-- A fresh bucket. -/
def seed (price quantity : ℚ) : Bucket := ⟨price, price, price, price, quantity, 1, price * quantity⟩

/-- One more trade. -/
def update (price quantity : ℚ) (d : Bucket) : Bucket where
  opening := d.opening
  high := max d.high price
  low := min d.low price
  close := price
  volume := d.volume + quantity
  tradeCount := d.tradeCount + 1
  vwapNum := d.vwapNum + price * quantity

/-- The bar of a bucket. -/
def bar (instrumentId : String) (intervalS bucketStart : ℚ) (d : Bucket) : Bar where
  instrumentId := instrumentId
  intervalS := intervalS
  bucketStart := bucketStart
  opening := d.opening
  high := d.high
  low := d.low
  close := d.close
  volume := d.volume
  tradeCount := d.tradeCount
  vwap := if 0 < d.volume then d.vwapNum / d.volume else d.close

end Bucket

/-- `BarAggregator`. -/
structure BarAggregator where
  intervalS : ℚ
  revisionWindowS : ℚ
  buckets : Dict String (ℚ × Bucket) := .empty
  recentBars : Dict String (Dict ℚ Bar) := .empty
  lastRevisionDelta : Option Bar := none
  lateTicksDropped : Nat := 0
  lateTicksRevised : Nat := 0

namespace BarAggregator

/-- The start of the bucket of a time. -/
def bucketStart (intervalS timestamp : ℚ) : ℚ := (timestamp / intervalS).floor * intervalS

/-- A bar is kept for revisions, and those that are too old go. -/
def cache (bar : Bar) (a : BarAggregator) : BarAggregator :=
  let bars := ((a.recentBars.get? bar.instrumentId).getD .empty).set bar.bucketStart bar
  let cutoff := bar.bucketStart - max (a.intervalS * 5) a.revisionWindowS
  { a with recentBars := a.recentBars.set bar.instrumentId (bars.filter (fun kv => cutoff ≤ kv.1)) }

/-- A bar that is kept, and that a late trade may still change. -/
def revisable (instrumentId : String) (bucketStart currentStart : ℚ) (a : BarAggregator) : Option Bar :=
  if 0 < a.revisionWindowS ∧ currentStart - bucketStart ≤ a.revisionWindowS then
    (a.recentBars.get? instrumentId).bind (·.get? bucketStart)
  else none

/-- A kept bar with one more trade. -/
def revised (price quantity : ℚ) (bar : Bar) : Bar where
  instrumentId := bar.instrumentId
  intervalS := bar.intervalS
  bucketStart := bar.bucketStart
  opening := bar.opening
  high := max bar.high price
  low := min bar.low price
  close := bar.close
  volume := bar.volume + quantity
  tradeCount := bar.tradeCount + 1
  vwap :=
    let oldVwapNum := if 0 < bar.volume then bar.vwap * bar.volume else bar.close * bar.volume
    if 0 < bar.volume + quantity then (oldVwapNum + price * quantity) / (bar.volume + quantity) else price

/-- What the table lacks of a kept bar with one more trade. -/
def delta (price quantity : ℚ) (bar : Bar) : Bar where
  instrumentId := bar.instrumentId
  intervalS := bar.intervalS
  bucketStart := bar.bucketStart
  opening := price
  high := price
  low := price
  close := bar.close
  volume := quantity
  tradeCount := 1
  vwap := price

/-- A late trade. -/
def late (instrumentId : String) (bucketStart currentStart price quantity : ℚ) (a : BarAggregator) : Option Bar × BarAggregator :=
  match a.revisable instrumentId bucketStart currentStart with
  | none => (none, { a with lateTicksDropped := a.lateTicksDropped + 1 })
  | some bar =>
    let bars := ((a.recentBars.get? instrumentId).getD .empty).set bucketStart (revised price quantity bar)
    (some (revised price quantity bar), {
      a with
      recentBars := a.recentBars.set instrumentId bars
      lastRevisionDelta := some (delta price quantity bar)
      lateTicksRevised := a.lateTicksRevised + 1 })

/-- `BarAggregator.observe`. -/
def observe (event : BarEvent) (a : BarAggregator) : Option Bar × BarAggregator :=
  let a := { a with lastRevisionDelta := none }
  match event.price, event.quantity with
  | some price, some quantity =>
    if event.eventType ≠ .trade then (none, a)
    else
      let start := bucketStart a.intervalS event.exchangeTimestamp
      let fresh := (start, Bucket.seed price quantity)
      match a.buckets.get? event.instrumentId with
      | none => (none, { a with buckets := a.buckets.set event.instrumentId fresh })
      | some (currentStart, data) =>
        if currentStart < start then
          let bar := data.bar event.instrumentId a.intervalS currentStart
          let a := a.cache bar
          (some bar, { a with buckets := a.buckets.set event.instrumentId fresh })
        else if start < currentStart then a.late event.instrumentId start currentStart price quantity
        else (none, { a with buckets := a.buckets.set event.instrumentId (currentStart, data.update price quantity) })
  | _, _ => (none, a)

/-- `BarAggregator.flush`. -/
def flush (a : BarAggregator) : List Bar × BarAggregator :=
  (a.buckets.items.map (fun kv => kv.2.2.bar kv.1 a.intervalS kv.2.1), { a with buckets := .empty })

/-- What an aggregator hands on to the database. -/
def stage (event : BarEvent) (a : BarAggregator) : Option Bar × BarAggregator :=
  match a.observe event with
  | (none, a) => (none, a)
  | (some bar, a) =>
    match a.lastRevisionDelta with
    | some delta => (some delta, { a with lastRevisionDelta := none })
    | none => (some bar, a)

end BarAggregator

/-- An instrument, an interval and a bucket: the key of the table. -/
abbrev BarKey := String × ℚ × ℚ

def Bar.key (b : Bar) : BarKey := (b.instrumentId, b.intervalS, b.bucketStart)

/-- The row of a key that had one. -/
def Bar.upsert (row excluded : Bar) : Bar where
  instrumentId := row.instrumentId
  intervalS := row.intervalS
  bucketStart := row.bucketStart
  opening := row.opening
  high := max row.high excluded.high
  low := min row.low excluded.low
  close := excluded.close
  volume := row.volume + excluded.volume
  tradeCount := row.tradeCount + excluded.tradeCount
  vwap :=
    if 0 < row.volume + excluded.volume then
      (row.vwap * row.volume + excluded.vwap * excluded.volume) / (row.volume + excluded.volume)
    else excluded.vwap

/-- `BarDatabase`. -/
structure BarDatabase where
  aggregators : Dict String BarAggregator
  pendingBars : List Bar := []
  rows : Dict BarKey Bar := .empty

namespace BarDatabase

/-- `BarDatabase.__init__`. -/
def new (intervals : List String) (revisionWindowS : ℚ) : BarDatabase where
  aggregators :=
    let codes := if intervals = [] then barIntervals.map (·.1) else intervals
    codes.foldl (fun aggregators code =>
      match barIntervals.lookup code with
      | none => aggregators
      | some intervalS => aggregators.set code { intervalS := intervalS, revisionWindowS := revisionWindowS }) .empty

/-- A row that is inserted, or merged into the one that is there. -/
def writeBar (rows : Dict BarKey Bar) (b : Bar) : Dict BarKey Bar :=
  match rows.get? b.key with
  | none => rows.set b.key b
  | some row => rows.set b.key (row.upsert b)

/-- `_write_bars`. -/
def writeBars (rows : Dict BarKey Bar) (bars : List Bar) : Dict BarKey Bar := bars.foldl writeBar rows

/-- The pending bars go to the table. -/
def commit (db : BarDatabase) : BarDatabase := { db with rows := writeBars db.rows db.pendingBars, pendingBars := [] }

/-- `BarDatabase.observe`. -/
def observe (event : BarEvent) (db : BarDatabase) : BarDatabase :=
  let db := {
    db with
    aggregators := ⟨db.aggregators.items.map (fun kv => (kv.1, (kv.2.stage event).2))⟩
    pendingBars := db.pendingBars ++ db.aggregators.items.filterMap (fun kv => (kv.2.stage event).1) }
  if 1000 ≤ db.pendingBars.length then db.commit else db

/-- `BarDatabase.flush`. -/
def flush (db : BarDatabase) : BarDatabase :=
  let db := {
    db with
    aggregators := ⟨db.aggregators.items.map (fun kv => (kv.1, kv.2.flush.2))⟩
    pendingBars := db.pendingBars ++ db.aggregators.items.flatMap (fun kv => kv.2.flush.1) }
  if db.pendingBars = [] then db else db.commit

end BarDatabase

/-- A call. -/
inductive BarCall where
  | observe (event : BarEvent)
  | flush

/-- The database after a call. -/
def BarDatabase.step (db : BarDatabase) : BarCall → BarDatabase
  | .observe event => db.observe event
  | .flush => db.flush

end Mdrap
