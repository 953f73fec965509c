import Mdrap.Engine.Types
import Mdrap.Lib.Dict
import Mdrap.Lib.Machine

/-!
# The consolidated best bid and offer

`BBOEngine` keeps the last quote of every source of an instrument, drops the quotes that are too old and those of sources that the
watchdog does not find active, and takes the best of the rest. What the watchdog answers is an argument; without one, every source is
active. The rendered bytes are left out: the cache holds the best bid and offer that they are rendered from.
-/

namespace Mdrap

open Lib

/-- What the engine reads of a `CanonicalEvent`; a type that no stage accepts is none. -/
structure BboEvent (V : Type) where
  instrumentId : String
  eventType : Option EventType
  exchangeTimestamp : V
  source : String
  bidPrice : Option V
  bidSize : Option V
  askPrice : Option V
  askSize : Option V
  qualityStatus : QualityStatus

/-- `ConsolidatedBBO`. -/
structure ConsolidatedBbo (V : Type) where
  instrumentId : String
  bestBid : Option V
  bestBidSize : V
  bestBidSource : String
  bestAsk : Option V
  bestAskSize : V
  bestAskSource : String
  spread : Option V
  midPrice : Option V
  isCrossed : Bool
  isLocked : Bool
  timestamp : V
  isStale : Bool
  microPrice : Option V
  imbalance : Option V

/-- The attribution counters of a venue. -/
structure VenueCounts where
  bidCount : Nat
  askCount : Nat
  bothCount : Nat

/-- `BBOEngine`. -/
structure BboEngine (V : Type) where
  quoteTtlS : V
  maxInstruments : Int
  books : Dict String (Dict String (BboEvent V))
  currentBbos : Dict String (ConsolidatedBbo V)
  cachedBboJson : Dict String (ConsolidatedBbo V)
  attribution : Dict String VenueCounts
  updateCount : Nat
  crossedCount : Nat
  lockedCount : Nat

/-- What `observe` comes to: it returns none where there is nothing to do and where no quote is left, and it raises where room is to
be made and there is no book. -/
inductive BboOutcome (V : Type) where
  | ignored
  | raised
  | emptied
  | bbo (b : ConsolidatedBbo V)

/-- The best price of a side so far, its size and its source. No price yet is an infinite one in the code. -/
structure BestSide (V : Type) where
  price : Option V
  size : V
  source : String

variable {V : Type} (F : Floats V)

/-- `x or 0.0`. -/
def valueOrZero (x : V) : V := if F.eq x (F.int 0) then F.int 0 else x

namespace BestSide

/-- No price yet. -/
def start : BestSide V := ⟨none, F.int 0, ""⟩

/-- A price goes before the best one, or is as good and has a greater size. -/
def better (ahead : V → V → Bool) (best : BestSide V) (price size : V) : Bool :=
  match best.price with
  | none => true
  | some p => ahead price p || (F.eq price p && F.lt best.size size)

/-- The quote of a source is looked at: its price has to be finite and its size not below zero. -/
def take (ahead : V → V → Bool) (best : BestSide V) (source : String) (price size : Option V) : BestSide V :=
  match price with
  | none => best
  | some p =>
    let sz := valueOrZero F (size.getD (F.int 0))
    if F.isFinite p ∧ F.le (F.int 0) sz ∧ best.better F ahead p sz then ⟨some p, sz, source⟩ else best

end BestSide

/-- The best bid of a book: the highest price goes first. -/
def bestBidOf (book : Dict String (BboEvent V)) : BestSide V :=
  book.items.foldl (fun best x => best.take F (fun a b => F.lt b a) x.1 x.2.bidPrice x.2.bidSize) (.start F)

/-- The best ask of a book: the lowest price goes first. -/
def bestAskOf (book : Dict String (BboEvent V)) : BestSide V :=
  book.items.foldl (fun best x => best.take F (fun a b => F.lt a b) x.1 x.2.askPrice x.2.askSize) (.start F)

/-- The best bid and offer of an instrument, from the best of both sides. -/
def consolidate (inst : String) (now : V) (bid ask : BestSide V) : ConsolidatedBbo V where
  instrumentId := inst
  bestBid := bid.price
  bestBidSize := bid.size
  bestBidSource := bid.source
  bestAsk := ask.price
  bestAskSize := ask.size
  bestAskSource := ask.source
  spread := Option.map₂ (fun b a => F.sub a b) bid.price ask.price
  midPrice :=
    match bid.price, ask.price with
    | some b, some a => some (F.div (F.add b a) (F.int 2))
    | some b, none => some b
    | none, a => a
  isCrossed := (Option.map₂ (fun b a => F.lt a b) bid.price ask.price).getD false
  isLocked := (Option.map₂ (fun b a => F.eq b a) bid.price ask.price).getD false
  timestamp := now
  isStale := false
  microPrice := Option.map₂ (fun b a =>
    let total := F.add bid.size ask.size
    if F.lt (F.int 0) total then F.div (F.add (F.mul bid.size a) (F.mul ask.size b)) total
    else F.div (F.add b a) (F.int 2)) bid.price ask.price
  imbalance := Option.map₂ (fun _ _ =>
    let total := F.add bid.size ask.size
    if F.lt (F.int 0) total then F.div (F.sub bid.size ask.size) total else F.int 0) bid.price ask.price

/-- The counters of the venues of a best bid and offer. -/
def countVenues (bidSource askSource : String) (counts : Dict String VenueCounts) : Dict String VenueCounts :=
  let seen (counts : Dict String VenueCounts) (venue : String) :=
    if counts.contains venue then counts else counts.set venue ⟨0, 0, 0⟩
  let bump (counts : Dict String VenueCounts) (venue : String) (f : VenueCounts → VenueCounts) :=
    counts.set venue (f ((counts.get? venue).getD ⟨0, 0, 0⟩))
  let counts := seen (seen counts bidSource) askSource
  if bidSource = askSource then bump counts bidSource (fun c => ⟨c.bidCount + 1, c.askCount + 1, c.bothCount + 1⟩)
  else bump (bump counts bidSource (fun c => { c with bidCount := c.bidCount + 1 })) askSource
    (fun c => { c with askCount := c.askCount + 1 })

namespace BboEngine

/-- An engine that has seen nothing. -/
def new (quoteTtlS : V) (maxInstruments : Int) : BboEngine V := ⟨quoteTtlS, maxInstruments, .empty, .empty, .empty, .empty, 0, 0, 0⟩

/-- An instrument is dropped. -/
def dropInstrument (e : BboEngine V) (inst : String) : BboEngine V :=
  { e with
    books := e.books.erase inst
    currentBbos := e.currentBbos.erase inst
    cachedBboJson := e.cachedBboJson.erase inst }

/-- Room for one more book is made: the instrument that was used least recently goes. None where there is none. -/
def makeRoom (e : BboEngine V) : Option (BboEngine V) :=
  if e.maxInstruments ≤ e.books.size then
    match e.books.items with
    | [] => none
    | (oldInst, _) :: _ => some (e.dropInstrument oldInst)
  else some e

/-- The book of an instrument, which is made if need be and is the last one then. -/
def bookOf (e : BboEngine V) (inst : String) : Option (Dict String (BboEvent V) × BboEngine V) :=
  match e.books.get? inst with
  | some book => some (book, { e with books := (e.books.erase inst).set inst book })
  | none => e.makeRoom.map (fun e => (.empty, { e with books := e.books.set inst .empty }))

/-- The quote of an event is put into a book, unless the book has a later one of the source; a source that is not active loses its
quote. -/
def takeQuote (active : Bool) (event : BboEvent V) (book : Dict String (BboEvent V)) : Dict String (BboEvent V) :=
  if active then
    match book.get? event.source with
    | none => book.set event.source event
    | some old =>
      if F.le (valueOrZero F old.exchangeTimestamp) (valueOrZero F event.exchangeTimestamp) then book.set event.source event else book
  else book.erase event.source

/-- A quote is too old at a time. -/
def expired (ttl now : V) (q : BboEvent V) : Bool := F.lt ttl (F.sub now q.exchangeTimestamp)

/-- Quotes that are too old and those of sources that are not active are dropped. -/
def prune (ttl now : V) (active : String → Bool) (book : Dict String (BboEvent V)) : Dict String (BboEvent V) :=
  book.filter (fun x => active x.1 && !expired F ttl now x.2)

/-- No quote of an instrument is left: its best bid and offer is stale, and no bytes are kept. -/
def markEmpty (inst : String) (e : BboEngine V) : BboEngine V :=
  { e with
    currentBbos :=
      match e.currentBbos.get? inst with
      | none => e.currentBbos
      | some bbo => e.currentBbos.set inst { bbo with isStale := true }
    cachedBboJson := e.cachedBboJson.erase inst }

/-- A new best bid and offer, with the sources of both. -/
def publish (bbo : ConsolidatedBbo V) (e : BboEngine V) : BboEngine V :=
  { e with
    currentBbos := e.currentBbos.set bbo.instrumentId bbo
    cachedBboJson := e.cachedBboJson.set bbo.instrumentId bbo
    attribution := countVenues bbo.bestBidSource bbo.bestAskSource e.attribution
    updateCount := e.updateCount + 1
    crossedCount := e.crossedCount + bbo.isCrossed.toNat
    lockedCount := e.lockedCount + bbo.isLocked.toNat }

/-- An event is of no use: it is not a quote, it is invalid, or it has no price. -/
def Useless (event : BboEvent V) : Prop :=
  event.eventType ≠ some .quote ∨ event.qualityStatus = .invalid ∨ (event.bidPrice.isNone ∧ event.askPrice.isNone)

instance (event : BboEvent V) : Decidable (Useless event) := inferInstanceAs (Decidable (_ ∨ _))

/-- `observe`, with what the watchdog answers for the event's source when the quote comes in and for each source when quotes are
dropped. -/
def observe (event : BboEvent V) (active : Bool) (stillActive : String → Bool) (e : BboEngine V) : BboOutcome V × BboEngine V :=
  if Useless event then (.ignored, e)
  else
    match e.bookOf event.instrumentId with
    | none => (.raised, e)
    | some (book, e) =>
      let book := prune F e.quoteTtlS event.exchangeTimestamp stillActive (takeQuote F active event book)
      let e := { e with books := e.books.set event.instrumentId book }
      if book.items = [] then (.emptied, e.markEmpty event.instrumentId)
      else
        let bbo := consolidate F event.instrumentId event.exchangeTimestamp (bestBidOf F book) (bestAskOf F book)
        (.bbo bbo, e.publish bbo)

/-- `get_bbo_wire_bytes`: the best bid and offer that the bytes render, if any. -/
def getBboWireBytes (e : BboEngine V) (inst : String) : Option (ConsolidatedBbo V) := e.cachedBboJson.get? inst

/-- `current_bbo`. -/
def currentBbo (inst : String) (allowStale : Bool) (now : Option V) (e : BboEngine V) : Option (ConsolidatedBbo V) × BboEngine V :=
  match e.currentBbos.get? inst with
  | none => (none, e)
  | some bbo =>
    let bbo :=
      match now with
      | none => bbo
      | some now => { bbo with isStale := F.lt e.quoteTtlS (F.sub now bbo.timestamp) }
    (if !allowStale && bbo.isStale then none else some bbo, { e with currentBbos := e.currentBbos.set inst bbo })

end BboEngine

/-! ## Runs -/

/-- A call. -/
inductive BboCall (V : Type) where
  | observe (event : BboEvent V) (active : Bool) (stillActive : String → Bool)
  | currentBbo (inst : String) (allowStale : Bool) (now : Option V)

end Mdrap
