import Mathlib.Data.List.Sort
import Mdrap.Engine.Types
import Mdrap.Lib.Dict
import Mdrap.Lib.Machine

/-!
# The consolidated depth

`ConsolidatedDepthEngine` keeps the last book of every venue of an instrument, drops the books that are too old and those of venues
that the watchdog does not find active, and merges the levels of the rest into a ladder, as long as there are levels on both sides.
When there are more ladders than instruments allowed, the instruments that were seen first are dropped before the next ladder.

What the watchdog answers is an argument; without one, every venue is active. Of a `RawEvent`, what `str`, `float` and `upper` give is
taken as it is read; an exception that is not caught ends a call. The figures that are computed from the levels of a ladder alone
are left out, as are the rendered bytes: the caches hold the ladder that they are rendered from. No figure is rounded.
-/

namespace Mdrap

open Lib

/-- What the two numbers of a row are read as: a level, nothing where one is missing or no number, or an exception. -/
inductive DepthRow (V : Type) where
  | level (price size : V)
  | unreadable
  | raises

/-- A trade that an event tells of. -/
structure DepthTrade (V : Type) where
  price : V
  quantity : V
  side : Option String

/-- The rows of a side: none for a value such as `None`, which is as good as no rows until it is read. -/
abbrev DepthRows (V : Type) := Option (List (DepthRow V))

/-- What the engine reads of a `RawEvent`. A single price of a side is none where `float` fails on it or on its size. -/
structure DepthRaw (V : Type) where
  source : String
  instrument : String
  exchangeTs : Option V
  receiveTimestamp : V
  trade : Option (DepthTrade V)
  bids : DepthRows V
  asks : DepthRows V
  bid : Option (Option (V × V))
  ask : Option (Option (V × V))

/-- What the engine reads of a `CanonicalEvent`; a type that no stage accepts is none. -/
structure DepthCanonical (V : Type) where
  instrumentId : String
  eventType : Option EventType
  exchangeTimestamp : V
  source : String
  price : Option V
  quantity : Option V
  bidPrice : Option V
  bidSize : Option V
  askPrice : Option V
  askSize : Option V
  qualityStatus : QualityStatus

/-- An event. -/
inductive DepthInput (V : Type) where
  | raw (event : DepthRaw V)
  | canonical (event : DepthCanonical V)
  | other

/-- The book of a venue. -/
structure VenueBook (V : Type) where
  bids : DepthRows V
  asks : DepthRows V
  updatedAt : V

/-- `DepthLevel`. -/
structure DepthLevel (V : Type) where
  price : V
  size : V
  venue : String
  orderCount : Nat

/-- `AggregatedLevel`. -/
structure AggregatedLevel (V : Type) where
  price : V
  totalSize : V
  venueSizes : Dict String V
  orderCount : Nat
  cumulativeSize : V
  cumulativeNotional : V

/-- `ConsolidatedLadder`. -/
structure ConsolidatedLadder (V : Type) where
  instrumentId : String
  bids : List (DepthLevel V)
  asks : List (DepthLevel V)
  timestamp : V
  aggregatedBids : List (AggregatedLevel V)
  aggregatedAsks : List (AggregatedLevel V)
  ofi : V
  cumulativeOfi : V
  cvd : V

/-- `ConsolidatedDepthEngine`. -/
structure DepthEngine (V : Type) where
  depthTtlS : V
  maxLevelsPerSide : Nat
  maxInstruments : Nat
  venueBooks : Dict String (Dict String (VenueBook V))
  currentLadders : Dict String (ConsolidatedLadder V)
  cachedDepthJson : Dict String (ConsolidatedLadder V)
  cachedVwapJson : Dict String (ConsolidatedLadder V)
  totalUpdates : Nat
  crossedDepthCount : Nat
  prevTob : Dict String (V × V × V × V)
  cumOfi : Dict String V
  cumCvd : Dict String V
  lastSeen : Dict String V

/-- What an event says of a venue's book: the venue, the instrument, the time and the rows of both sides. -/
structure BookUpdate (V : Type) where
  source : String
  instrument : String
  time : V
  bids : DepthRows V
  asks : DepthRows V

/-- What a call comes to: it returns none, it raises, or it returns a ladder. -/
inductive DepthOutcome (V : Type) where
  | none
  | raised
  | ladder (l : ConsolidatedLadder V)

variable {V : Type} (F : Floats V)

/-! ## Levels -/

/-- The levels of a side of a venue's book, whose price and size are finite and above zero; none where a row raises. -/
def readLevels (venue : String) : List (DepthRow V) → Option (List (DepthLevel V))
  | [] => some []
  | .raises :: _ => none
  | .unreadable :: rows => readLevels venue rows
  | .level price size :: rows =>
    if F.isFinite price ∧ F.isFinite size ∧ F.lt (F.int 0) price ∧ F.lt (F.int 0) size then
      (readLevels venue rows).map (⟨price, size, venue, 1⟩ :: ·)
    else readLevels venue rows

/-- The levels of all venues: the bids and the asks. -/
def allLevels : List (String × VenueBook V) → Option (List (DepthLevel V) × List (DepthLevel V))
  | [] => some ([], [])
  | (venue, book) :: books => do
    let bids ← book.bids.bind (readLevels F venue)
    let asks ← book.asks.bind (readLevels F venue)
    let (moreBids, moreAsks) ← allLevels books
    return (bids ++ moreBids, asks ++ moreAsks)

/-- The levels in the order of their prices: the highest one first, or the lowest one. -/
def sortLevels (isDescending : Bool) (levels : List (DepthLevel V)) : List (DepthLevel V) :=
  levels.insertionSort (fun a b => if isDescending then F.lt a.price b.price = false else F.lt b.price a.price = false)

section Aggregate

variable [DecidableEq V]

/-- The first loop of `_aggregate_levels`: what there is at each price. -/
def priceMap (levels : List (DepthLevel V)) : Dict V (V × Dict String V × Nat) :=
  levels.foldl (fun m lvl =>
    let (total, venues, count) := (m.get? lvl.price).getD (F.int 0, .empty, 0)
    m.set lvl.price (F.add total lvl.size, venues.set lvl.venue (F.add ((venues.get? lvl.venue).getD (F.int 0)) lvl.size),
      count + lvl.orderCount)) .empty

/-- The second loop of `_aggregate_levels`: the sums up to each price. -/
def cumulate : V → V → List (V × V × Dict String V × Nat) → List (AggregatedLevel V)
  | _, _, [] => []
  | size, notional, (price, total, venues, count) :: rungs =>
    let size := F.add size total
    let notional := F.add notional (F.mul price total)
    ⟨price, total, venues, count, size, notional⟩ :: cumulate size notional rungs

/-- `_aggregate_levels`. -/
def aggregateLevels (isDescending : Bool) (levels : List (DepthLevel V)) : List (AggregatedLevel V) :=
  cumulate F (F.int 0) (F.int 0)
    ((priceMap F levels).items.insertionSort (fun a b => if isDescending then F.lt a.1 b.1 = false else F.lt b.1 a.1 = false))

end Aggregate

/-! ## Reading events -/

/-- `x or 1.0`, where `x` may be missing. -/
def sizeOrOne (x : Option V) : V :=
  match x with
  | none => F.int 1
  | some v => if F.eq v (F.int 0) then F.int 1 else v

/-- A trade counts when its price and its quantity are above zero. -/
def tradeCounts (t : DepthTrade V) : Bool := F.lt (F.int 0) t.price && F.lt (F.int 0) t.quantity

/-- What a `RawEvent` tells: a trade, if any, and what it says of a book, unless a single price cannot be read. -/
def readRaw (event : DepthRaw V) : Option (DepthTrade V) × Option (BookUpdate V) :=
  let rows (rows : DepthRows V) (single : Option (Option (V × V))) : Option (DepthRows V) :=
    if rows.getD [] ≠ [] then some rows
    else
      match single with
      | none => some rows
      | some x => x.map (fun (price, size) => some [.level price size])
  (event.trade.filter (tradeCounts F), do
    let bids ← rows event.bids event.bid
    let asks ← rows event.asks event.ask
    return ⟨event.source, event.instrument, event.exchangeTs.getD event.receiveTimestamp, bids, asks⟩)

/-- What a `CanonicalEvent` that is not invalid tells. -/
def readCanonical (upper : String → String) (event : DepthCanonical V) : Option (DepthTrade V) × BookUpdate V :=
  let trade : Option (DepthTrade V) :=
    if event.eventType = some .trade then event.price.map (fun price => ⟨price, sizeOrOne F event.quantity, none⟩) else none
  let rows (price size : Option V) : DepthRows V := some (price.map (fun price => .level price (sizeOrOne F size))).toList
  (trade.filter (tradeCounts F),
    ⟨upper event.source, event.instrumentId, event.exchangeTimestamp, rows event.bidPrice event.bidSize,
      rows event.askPrice event.askSize⟩)

/-- What an event tells: its instrument, a trade, if any, and what it says of a book, if it does. -/
def readEvent (upper : String → String) : DepthInput V → Option (String × Option (DepthTrade V) × Option (BookUpdate V))
  | .raw event => some (event.instrument, readRaw F event)
  | .canonical event =>
    if event.qualityStatus = .invalid then none
    else some (event.instrumentId, (readCanonical F upper event).1, some (readCanonical F upper event).2)
  | .other => none

namespace DepthEngine

/-- An engine that has seen nothing. -/
def new (depthTtlS : V) (maxLevelsPerSide maxInstruments : Nat) : DepthEngine V :=
  ⟨depthTtlS, maxLevelsPerSide, maxInstruments, .empty, .empty, .empty, .empty, 0, 0, .empty, .empty, .empty, .empty⟩

/-- An instrument is dropped. -/
def dropInstrument (e : DepthEngine V) (inst : String) : DepthEngine V :=
  { e with
    venueBooks := e.venueBooks.erase inst
    currentLadders := e.currentLadders.erase inst
    cachedDepthJson := e.cachedDepthJson.erase inst
    cachedVwapJson := e.cachedVwapJson.erase inst
    prevTob := e.prevTob.erase inst
    cumOfi := e.cumOfi.erase inst
    cumCvd := e.cumCvd.erase inst
    lastSeen := e.lastSeen.erase inst }

/-- The instruments in the order in which they were seen. -/
def byAge (e : DepthEngine V) : List (String × V) := e.lastSeen.items.insertionSort (fun a b => F.lt b.2 a.2 = false)

/-- `_evict_stale`. -/
def evictStale (e : DepthEngine V) : DepthEngine V :=
  if e.currentLadders.size ≤ e.maxInstruments then e
  else (((e.byAge F).take (e.currentLadders.size - e.maxInstruments)).map (·.1)).foldl dropInstrument e

/-- `observe_trade`. -/
def observeTrade (upper : String → String) (instrument : String) (t : DepthTrade V) (e : DepthEngine V) : DepthEngine V :=
  let minus := F.sub (F.int 0) t.quantity
  let delta :=
    match t.side with
    | some side =>
      if side = "" then
        F.int 0
      else if upper side ∈ ["BUY", "B", "1"] then t.quantity
      else if upper side ∈ ["SELL", "S", "-1"] then minus
      else F.int 0
    | none => F.int 0
  let delta :=
    if t.side.isNone ∨ t.side = some "" then
      match e.currentLadders.get? instrument with
      | some ladder =>
        match ladder.bids, ladder.asks with
        | bid :: _, ask :: _ =>
          if F.le ask.price t.price then t.quantity
          else if F.le t.price bid.price then minus
          else if F.le (F.div (F.add bid.price ask.price) (F.int 2)) t.price then t.quantity
          else minus
        | _, _ => t.quantity
      | none => t.quantity
    else delta
  { e with cumCvd := e.cumCvd.set instrument (F.add ((e.cumCvd.get? instrument).getD (F.int 0)) delta) }

/-- The change of the order flow between two tops of the book. -/
def flowChange (prev : Option (V × V × V × V)) (bid bidSize ask askSize : V) : V :=
  match prev with
  | none => F.int 0
  | some (prevBid, prevBidSize, prevAsk, prevAskSize) =>
    let bids :=
      if F.lt prevBid bid then bidSize
      else if F.eq bid prevBid then F.sub bidSize prevBidSize
      else F.sub (F.int 0) prevBidSize
    let asks :=
      if F.lt ask prevAsk then askSize
      else if F.eq ask prevAsk then F.sub askSize prevAskSize
      else F.sub (F.int 0) prevAskSize
    F.sub bids asks

/-- The book of a venue is taken in, unless there is a later one. -/
def takeBook (u : BookUpdate V) (books : Dict String (VenueBook V)) : Dict String (VenueBook V) :=
  if u.bids.getD [] = [] ∧ u.asks.getD [] = [] then books
  else
    match books.get? u.source with
    | none => books.set u.source ⟨u.bids, u.asks, u.time⟩
    | some old => if F.le old.updatedAt u.time then books.set u.source ⟨u.bids, u.asks, u.time⟩ else books

/-- The books that are not too old, of venues that are active. -/
def liveBooks (ttl time : V) (active : String → Bool) (books : Dict String (VenueBook V)) : Dict String (VenueBook V) :=
  books.filter (fun x => active x.1 && !F.lt ttl (F.sub time x.2.updatedAt))

/-- The levels of a side that are at the best prices: these prices, with what there is at them, and the levels in their order. -/
def topLevels [DecidableEq V] (maxLevels : Nat) (isDescending : Bool) (levels : List (DepthLevel V)) :
    List (AggregatedLevel V) × List (DepthLevel V) :=
  let aggregated := (aggregateLevels F isDescending levels).take maxLevels
  (aggregated, sortLevels F isDescending (levels.filter (fun l => l.price ∈ aggregated.map (·.price))))

/-- A ladder is made from the levels of both sides and kept. -/
def storeLadder [DecidableEq V] (inst : String) (time : V) (allBids allAsks : List (DepthLevel V)) (e : DepthEngine V) :
    DepthOutcome V × DepthEngine V :=
  let (aggBids, bids) := topLevels F e.maxLevelsPerSide true allBids
  let (aggAsks, asks) := topLevels F e.maxLevelsPerSide false allAsks
  match aggBids, aggAsks with
  | bestBid :: _, bestAsk :: _ =>
    let change := flowChange F (e.prevTob.get? inst) bestBid.price bestBid.totalSize bestAsk.price bestAsk.totalSize
    let cumOfi := F.add ((e.cumOfi.get? inst).getD (F.int 0)) change
    let crossed := bids.any (fun b => asks.any (fun a => F.lt a.price b.price && b.venue ≠ a.venue))
    let ladder : ConsolidatedLadder V :=
      ⟨inst, bids, asks, time, aggBids, aggAsks, change, cumOfi, (e.cumCvd.get? inst).getD (F.int 0)⟩
    (.ladder ladder, { e with
      currentLadders := e.currentLadders.set inst ladder
      cachedDepthJson := e.cachedDepthJson.set inst ladder
      cachedVwapJson := e.cachedVwapJson.set inst ladder
      totalUpdates := e.totalUpdates + 1
      crossedDepthCount := e.crossedDepthCount + crossed.toNat
      prevTob := e.prevTob.set inst (bestBid.price, bestBid.totalSize, bestAsk.price, bestAsk.totalSize)
      cumOfi := e.cumOfi.set inst cumOfi })
  | _, _ => (.raised, e)

/-- A ladder is made from the books of the venues, unless a side has no level. -/
def mergeBooks [DecidableEq V] (inst : String) (time : V) (books : Dict String (VenueBook V)) (e : DepthEngine V) :
    DepthOutcome V × DepthEngine V :=
  match allLevels F books.items with
  | none => (.raised, e)
  | some (allBids, allAsks) => if allBids = [] ∨ allAsks = [] then (.none, e) else storeLadder F inst time allBids allAsks e

/-- What an event says of a book is taken in, room is made, and the ladder is made anew. The instrument of the event may be dropped
on the way; its books are merged all the same. -/
def update [DecidableEq V] (u : BookUpdate V) (stillActive : String → Bool) (e : DepthEngine V) : DepthOutcome V × DepthEngine V :=
  let books := takeBook F u ((e.venueBooks.get? u.instrument).getD .empty)
  let e := { e with venueBooks := e.venueBooks.set u.instrument books, lastSeen := e.lastSeen.set u.instrument u.time }
  let e := e.evictStale F
  let books := liveBooks F e.depthTtlS u.time stillActive books
  let e := if e.venueBooks.contains u.instrument then { e with venueBooks := e.venueBooks.set u.instrument books } else e
  mergeBooks F u.instrument u.time books e

/-- `observe`, with what the watchdog answers for the event's venue first and for each venue when books are dropped. -/
def observe [DecidableEq V] (upper : String → String) (event : DepthInput V) (active : Bool) (stillActive : String → Bool)
    (e : DepthEngine V) : DepthOutcome V × DepthEngine V :=
  match readEvent F upper event with
  | none => (.none, e)
  | some (inst, trade, u) =>
    let e := trade.elim e (fun t => e.observeTrade F upper inst t)
    match u with
    | none => (.none, e)
    | some u => if active then e.update F u stillActive else (.none, e)

/-- `current_ladder`. -/
def currentLadder (instrumentId : String) (e : DepthEngine V) : Option (ConsolidatedLadder V) := e.currentLadders.get? instrumentId

/-- The ladder that `get_ladder_wire_bytes` tells of; without one, it tells that there is none. -/
def ladderWireBytes (instrumentId : String) (e : DepthEngine V) : Option (ConsolidatedLadder V) := e.cachedDepthJson.get? instrumentId

end DepthEngine

/-- A call of `observe`. -/
structure DepthCall (V : Type) where
  event : DepthInput V
  active : Bool
  stillActive : String → Bool

end Mdrap

/-!
## Walking the book

`compute_vwap` fills an order of some size from the levels of one side of a ladder, the best ones first, and says at which price it is
filled on average, how far that is from the best price and from the middle, and how much comes from each venue.
-/

namespace Mdrap

open Lib

/-- `VWAPSlice`. -/
structure VWAPSlice (V : Type) where
  side : String
  targetSize : V
  filledSize : V
  vwapPrice : V
  slippageBps : V
  slippageDollars : V
  effectiveSpreadBps : V
  isFullyFilled : Bool
  venueBreakdown : Dict String V
  totalNotional : V

/-- Why `compute_vwap` raises. -/
inductive VWAPError where
  | invalidSide
  | invalidTargetSize
  deriving DecidableEq

/-- What the loop of `compute_vwap` has so far. -/
structure BookWalk (V : Type) where
  remaining : V
  cumNotional : V
  venueBreakdown : Dict String V

variable {V : Type} (F : Floats V)

/-- How little may remain of an order that is filled. -/
def fillTolerance : V := F.dec 1 (-9)

/-- The loop of `compute_vwap`. -/
def walkBook : BookWalk V → List (DepthLevel V) → BookWalk V
  | w, [] => w
  | w, lvl :: levels =>
    if F.le w.remaining (fillTolerance F) then w
    else
      let fill := if F.lt lvl.size w.remaining then lvl.size else w.remaining
      walkBook {
        remaining := F.sub w.remaining fill
        cumNotional := F.add w.cumNotional (F.mul lvl.price fill)
        venueBreakdown := w.venueBreakdown.set lvl.venue
          (F.add ((w.venueBreakdown.get? lvl.venue).getD (F.int 0)) fill) } levels

/-- The price of the best level; zero where there is none. -/
def bestPrice (levels : List (DepthLevel V)) : V := (levels.head?.map (·.price)).getD (F.int 0)

/-- The price in the middle of both sides, where both have a finite one. -/
def midPrice (bids asks : List (DepthLevel V)) (otherwise : V) : V :=
  if bids ≠ [] ∧ asks ≠ [] ∧ F.isFinite (bestPrice F bids) ∧ F.isFinite (bestPrice F asks) then
    F.div (F.add (bestPrice F bids) (bestPrice F asks)) (F.int 2)
  else otherwise

/-- A part of a price in basis points; zero for a price that is not above zero. -/
def bps (part price : V) : V := if F.lt (F.int 0) price then F.mul (F.div part price) (F.int 10000) else F.int 0

namespace ConsolidatedLadder

/-- `compute_vwap`, for a size that is a number. -/
def computeVwap (upper : String → String) (side : String) (targetSize : V) (l : ConsolidatedLadder V) :
    Except VWAPError (VWAPSlice V) :=
  let sideNorm := upper side
  if sideNorm ≠ "BUY" ∧ sideNorm ≠ "SELL" then .error .invalidSide
  else
    let levels := if sideNorm = "BUY" then l.asks else l.bids
    let best := bestPrice F levels
    let mid := midPrice F l.bids l.asks best
    if ¬F.isFinite targetSize ∨ F.le targetSize (F.int 0) then .error .invalidTargetSize
    else
      let walk := walkBook F ⟨targetSize, F.int 0, .empty⟩ levels
      let filled := F.sub targetSize walk.remaining
      let vwap := if F.lt (F.int 0) filled then F.div walk.cumNotional filled else best
      let slippage := F.max (F.int 0) (if sideNorm = "BUY" then F.sub vwap best else F.sub best vwap)
      .ok {
        side := sideNorm
        targetSize := targetSize
        filledSize := filled
        vwapPrice := vwap
        slippageBps := bps F slippage best
        slippageDollars := slippage
        effectiveSpreadBps := bps F (if sideNorm = "BUY" then F.sub vwap mid else F.sub mid vwap) mid
        isFullyFilled := F.le walk.remaining (fillTolerance F)
        venueBreakdown := walk.venueBreakdown
        totalNotional := walk.cumNotional }

end ConsolidatedLadder

end Mdrap
