import Mdrap.Lib.Bytes
import Mdrap.Lib.Dict

/-!
# The order book of an ITCH feed

`ITCHParser` reads the messages of a feed and `ITCHOrderBookTracker` keeps the orders they speak of, with the shares at each price. A
price is the integer of the message. Where a trade lies in time is kept as the message has it.
-/

namespace Mdrap

open Lib

/-! ## Messages -/

/-- The kind of a message, under the letter of its type byte. -/
inductive MsgType where
  | S | R | H | A | F | E | C | X | D | U | P | Q | B | I
  deriving DecidableEq

/-- What `ITCHMessage.details` can hold. -/
structure ITCHDetails where
  crossType : Option String := none
  state : Option String := none
  reason : Option String := none
  imbalanceShares : Option Nat := none
  imbalanceDirection : Option String := none
  farPrice : Option Nat := none
  nearPrice : Option Nat := none
  deriving DecidableEq

/-- `ITCHMessage`. -/
structure ITCHMessage where
  msgType : MsgType
  locate : Nat := 0
  tracking : Nat := 0
  timestampNs : Nat := 0
  stock : String := ""
  orderRef : Nat := 0
  side : String := ""
  shares : Nat := 0
  price : Nat := 0
  mpid : String := ""
  matchNumber : Nat := 0
  newOrderRef : Nat := 0
  eventCode : String := ""
  details : ITCHDetails := {}
  deriving DecidableEq

namespace ITCHParser

/-- `bytes.decode("ascii", errors="replace")`. -/
def asciiText (b : Bytes) : String := .ofList (b.map (fun x => if x < 128 then Char.ofNat x.toNat else Char.ofNat 0xfffd))

/-- A blank of `str.strip`, among the characters a byte can stand for. -/
def isBlank (c : Char) : Bool := c.toNat = 32 ∨ 9 ≤ c.toNat ∧ c.toNat ≤ 13 ∨ 28 ≤ c.toNat ∧ c.toNat ≤ 31

/-- `str.strip`. -/
def strip (s : String) : String := .ofList (((s.toList.dropWhile isBlank).reverse.dropWhile isBlank).reverse)

/-- An unsigned field of a body. -/
def uintField (body : Bytes) (pos n : Nat) : Nat := beNat ((body.drop pos).take n)

/-- A text field of a body. -/
def textField (body : Bytes) (pos n : Nat) : String := asciiText ((body.drop pos).take n)

/-- What every message begins with. -/
def header (msgType : MsgType) (body : Bytes) : ITCHMessage where
  msgType := msgType
  locate := uintField body 0 2
  tracking := uintField body 2 2
  timestampNs := uintField body 4 6

/-- The length of a body. -/
def bodyLength : MsgType → Nat
  | .S => 11
  | .R => 38
  | .H => 24
  | .A => 35
  | .F => 39
  | .E => 30
  | .C => 35
  | .X => 22
  | .D => 18
  | .U => 34
  | .P => 43
  | .Q => 39
  | .B => 18
  | .I => 49

/-- The message of a body of the right length. -/
def unpack (body : Bytes) : MsgType → ITCHMessage
  | .A => {
      header .A body with
      orderRef := uintField body 10 8
      side := textField body 18 1
      shares := uintField body 19 4
      stock := strip (textField body 23 8)
      price := uintField body 31 4 }
  | .E => {
      header .E body with
      orderRef := uintField body 10 8
      shares := uintField body 18 4
      matchNumber := uintField body 22 8 }
  | .X => { header .X body with orderRef := uintField body 10 8, shares := uintField body 18 4 }
  | .D => { header .D body with orderRef := uintField body 10 8 }
  | .U => {
      header .U body with
      orderRef := uintField body 10 8
      newOrderRef := uintField body 18 8
      shares := uintField body 26 4
      price := uintField body 30 4 }
  | .P => {
      header .P body with
      orderRef := uintField body 10 8
      side := textField body 18 1
      shares := uintField body 19 4
      stock := strip (textField body 23 8)
      price := uintField body 31 4
      matchNumber := uintField body 35 8 }
  | .F => {
      header .F body with
      orderRef := uintField body 10 8
      side := textField body 18 1
      shares := uintField body 19 4
      stock := strip (textField body 23 8)
      price := uintField body 31 4
      mpid := strip (textField body 35 4) }
  | .C => {
      header .C body with
      orderRef := uintField body 10 8
      shares := uintField body 18 4
      matchNumber := uintField body 22 8
      price := uintField body 31 4 }
  | .Q => {
      header .Q body with
      shares := uintField body 10 8
      stock := strip (textField body 18 8)
      price := uintField body 26 4
      matchNumber := uintField body 30 8
      details := { crossType := textField body 38 1 } }
  | .S => { header .S body with eventCode := textField body 10 1 }
  | .R => { header .R body with stock := strip (textField body 10 8) }
  | .H => {
      header .H body with
      stock := strip (textField body 10 8)
      details := { state := textField body 18 1, reason := strip (textField body 20 4) } }
  | .B => { header .B body with matchNumber := uintField body 10 8 }
  | .I => {
      header .I body with
      shares := uintField body 10 8
      stock := strip (textField body 27 8)
      price := uintField body 43 4
      details := {
        imbalanceShares := uintField body 18 8
        imbalanceDirection := textField body 26 1
        farPrice := uintField body 35 4
        nearPrice := uintField body 39 4 } }

/-- The type bytes. -/
def msgTypes : List (Bytes × MsgType) :=
  [([0x41], .A), ([0x45], .E), ([0x58], .X), ([0x44], .D), ([0x55], .U), ([0x50], .P), ([0x46], .F), ([0x43], .C), ([0x51], .Q),
    ([0x53], .S), ([0x52], .R), ([0x48], .H), ([0x42], .B), ([0x49], .I)]

/-- `ITCHParser.parse_payload`. -/
def parsePayload (msgTypeByte body : Bytes) : Option ITCHMessage := do
  let msgType ← msgTypes.lookup msgTypeByte
  if body.length = bodyLength msgType then some (unpack body msgType) else none

end ITCHParser

/-! ## The tracker -/

/-- A resting order. -/
structure ITCHOrder where
  stock : String
  side : String
  price : Nat
  shares : Nat
  deriving DecidableEq

/-- The shares at each price, for the sides `"B"` and `"S"`. -/
structure Ladders where
  bids : Dict Nat Nat := .empty
  asks : Dict Nat Nat := .empty
  deriving DecidableEq

namespace Ladders

def side? (l : Ladders) (side : String) : Option (Dict Nat Nat) :=
  if side = "B" then some l.bids else if side = "S" then some l.asks else none

def setSide (l : Ladders) (side : String) (book : Dict Nat Nat) : Ladders :=
  if side = "B" then { l with bids := book } else if side = "S" then { l with asks := book } else l

end Ladders

/-- The quality of a trade. -/
inductive ITCHStatus where
  | valid | suspicious | invalid
  deriving DecidableEq

/-- The `CanonicalEvent` of a trade. -/
structure ITCHTrade where
  eventId : String
  instrumentId : String
  timestampNs : Nat
  sequenceNumber : Nat
  price : Option Nat
  quantity : Nat
  qualityStatus : ITCHStatus
  reasons : List String := []
  deriving DecidableEq

/-- `ITCHOrderBookTracker`. -/
structure ITCHOrderBookTracker where
  orders : Dict Nat ITCHOrder := .empty
  locateToStock : Dict Nat String := .empty
  depth : Dict String Ladders := .empty
  totalAdds : Nat := 0
  totalExecutes : Nat := 0
  totalCancels : Nat := 0
  totalReplaces : Nat := 0
  totalTrades : Nat := 0
  quarantinedExecutes : Nat := 0
  deriving DecidableEq

/-- How a call ends: a `KeyError`, or an event that may be there. -/
inductive ITCHAnswer where
  | raised
  | returned (event : Option ITCHTrade)
  deriving DecidableEq

namespace ITCHOrderBookTracker

/-- `_ensure_symbol`. -/
def ensureSymbol (symbol : String) (t : ITCHOrderBookTracker) : ITCHOrderBookTracker :=
  if t.depth.contains symbol then t else { t with depth := t.depth.set symbol {} }

/-- `self.depth[stock][side]`. -/
def book? (t : ITCHOrderBookTracker) (stock side : String) : Option (Dict Nat Nat) := (t.depth.get? stock).bind (·.side? side)

/-- The ladder of a side, changed where it is. -/
def withBook (t : ITCHOrderBookTracker) (stock side : String) (change : Dict Nat Nat → Dict Nat Nat) : Option ITCHOrderBookTracker := do
  let ladders ← t.depth.get? stock
  let book ← ladders.side? side
  some { t with depth := t.depth.set stock (ladders.setSide side (change book)) }

/-- Shares come to a price. -/
def addShares (price shares : Nat) (book : Dict Nat Nat) : Dict Nat Nat := book.set price ((book.get? price).getD 0 + shares)

/-- Shares leave a price that is there, and the price goes with the last of them. -/
def takeShares (price shares : Nat) (book : Dict Nat Nat) : Dict Nat Nat :=
  match book.get? price with
  | none => book
  | some old => if old ≤ shares then book.erase price else book.set price (old - shares)

/-- An order loses shares, and goes with the last of them. -/
def reduceOrder (orderRef newShares : Nat) (order : ITCHOrder) (t : ITCHOrderBookTracker) : ITCHOrderBookTracker :=
  if newShares = 0 then { t with orders := t.orders.erase orderRef }
  else { t with orders := t.orders.set orderRef { order with shares := newShares } }

/-- `msg.match_number or msg.order_ref`. -/
def tradeNumber (msg : ITCHMessage) : Nat := if msg.matchNumber = 0 then msg.orderRef else msg.matchNumber

/-- An add. -/
def addOrder (msg : ITCHMessage) (t : ITCHOrderBookTracker) : ITCHAnswer × ITCHOrderBookTracker :=
  let t := {
    t with
    totalAdds := t.totalAdds + 1
    orders := t.orders.set msg.orderRef ⟨msg.stock, msg.side, msg.price, msg.shares⟩ }
  let t := t.ensureSymbol msg.stock
  match t.withBook msg.stock msg.side (addShares msg.price msg.shares) with
  | none => (.raised, t)
  | some t => (.returned none, t)

/-- An execution of an order that is not there. -/
def executeUnknown (msg : ITCHMessage) (t : ITCHOrderBookTracker) : ITCHAnswer × ITCHOrderBookTracker :=
  let stock :=
    if msg.stock = "" then (t.locateToStock.get? msg.locate).getD ("LOCATE_" ++ toString msg.locate) else msg.stock
  if msg.msgType = .E then
    -- the message has no price, and none is made up
    let t := { t with quarantinedExecutes := t.quarantinedExecutes + 1 }
    (.returned (some {
      eventId := "itch-e-" ++ toString (tradeNumber msg)
      instrumentId := stock
      timestampNs := msg.timestampNs
      sequenceNumber := t.totalTrades + t.quarantinedExecutes
      price := none
      quantity := msg.shares
      qualityStatus := .invalid
      reasons := ["UNKNOWN_ORDER_REF", "EXECUTION_WITHOUT_PRICE"] }), t)
  else
    let t := { t with totalTrades := t.totalTrades + 1 }
    (.returned (some {
      eventId := "itch-c-" ++ toString (tradeNumber msg)
      instrumentId := stock
      timestampNs := msg.timestampNs
      sequenceNumber := t.totalTrades
      price := if 0 < msg.price then some msg.price else none
      quantity := msg.shares
      qualityStatus := .suspicious
      reasons := ["EXECUTION_WITHOUT_LOCAL_ORDER_STATE"] }), t)

/-- An execution. -/
def executeOrder (msg : ITCHMessage) (t : ITCHOrderBookTracker) : ITCHAnswer × ITCHOrderBookTracker :=
  let t := { t with totalExecutes := t.totalExecutes + 1 }
  match t.orders.get? msg.orderRef with
  | none => executeUnknown msg t
  | some order =>
    let execShares := min msg.shares order.shares
    let t := t.reduceOrder msg.orderRef (order.shares - execShares) order
    match t.withBook order.stock order.side (takeShares order.price execShares) with
    | none => (.raised, t)
    | some t =>
      let t := { t with totalTrades := t.totalTrades + 1 }
      (.returned (some {
        eventId := "itch-e-" ++ toString (tradeNumber msg)
        instrumentId := order.stock
        timestampNs := msg.timestampNs
        sequenceNumber := t.totalTrades
        price := if msg.msgType = .C ∧ 0 < msg.price then some msg.price else some order.price
        quantity := execShares
        qualityStatus := .valid }), t)

/-- A cancel of some shares. -/
def cancelOrder (msg : ITCHMessage) (t : ITCHOrderBookTracker) : ITCHAnswer × ITCHOrderBookTracker :=
  let t := { t with totalCancels := t.totalCancels + 1 }
  match t.orders.get? msg.orderRef with
  | none => (.returned none, t)
  | some order =>
    let cancelShares := min msg.shares order.shares
    let t := t.reduceOrder msg.orderRef (order.shares - cancelShares) order
    match t.withBook order.stock order.side (takeShares order.price cancelShares) with
    | none => (.raised, t)
    | some t => (.returned none, t)

/-- A delete. -/
def deleteOrder (msg : ITCHMessage) (t : ITCHOrderBookTracker) : ITCHAnswer × ITCHOrderBookTracker :=
  let t := { t with totalCancels := t.totalCancels + 1 }
  match t.orders.get? msg.orderRef with
  | none => (.returned none, t)
  | some order =>
    let t := { t with orders := t.orders.erase msg.orderRef }
    match t.withBook order.stock order.side (takeShares order.price order.shares) with
    | none => (.raised, t)
    | some t => (.returned none, t)

/-- A replace. -/
def replaceOrder (msg : ITCHMessage) (t : ITCHOrderBookTracker) : ITCHAnswer × ITCHOrderBookTracker :=
  let t := { t with totalReplaces := t.totalReplaces + 1 }
  match t.orders.get? msg.orderRef with
  | none => (.returned none, t)
  | some order =>
    let t := { t with orders := t.orders.erase msg.orderRef }
    match t.withBook order.stock order.side (fun book => addShares msg.price msg.shares (takeShares order.price order.shares book)) with
    | none => (.raised, t)
    | some t => (.returned none, { t with orders := t.orders.set msg.newOrderRef { order with price := msg.price, shares := msg.shares } })

/-- A trade that touches no order of the book. -/
def trade (msg : ITCHMessage) (t : ITCHOrderBookTracker) : ITCHAnswer × ITCHOrderBookTracker :=
  let t := { t with totalTrades := t.totalTrades + 1 }
  (.returned (some {
    eventId := "itch-t-" ++ toString (tradeNumber msg)
    instrumentId := msg.stock
    timestampNs := msg.timestampNs
    sequenceNumber := t.totalTrades
    price := some msg.price
    quantity := msg.shares
    qualityStatus := .valid }), t)

/-- Clear the book of a symbol. -/
def clearSymbol (stock : String) (t : ITCHOrderBookTracker) : ITCHOrderBookTracker := {
  t with
  depth := t.depth.set stock {}
  orders := t.orders.filter (fun kv => kv.2.stock ≠ stock) }

/-- A halt or a pause clears the book of its symbol. -/
def tradingAction (msg : ITCHMessage) (t : ITCHOrderBookTracker) : ITCHAnswer × ITCHOrderBookTracker :=
  let stock := if msg.stock = "" then (t.locateToStock.get? msg.locate).getD "" else msg.stock
  let state := msg.details.state.getD ""
  if (state = "H" ∨ state = "P") ∧ stock ≠ "" ∧ t.depth.contains stock then (.returned none, t.clearSymbol stock)
  else (.returned none, t)

/-- The end of the day clears all books. -/
def systemEvent (msg : ITCHMessage) (t : ITCHOrderBookTracker) : ITCHAnswer × ITCHOrderBookTracker :=
  if msg.eventCode = "C" ∨ msg.eventCode = "E" then (.returned none, { t with orders := .empty, depth := .empty })
  else (.returned none, t)

/-- `process_message`. -/
def processMessage (t : ITCHOrderBookTracker) (msg : ITCHMessage) : ITCHAnswer × ITCHOrderBookTracker :=
  let t :=
    if msg.locate ≠ 0 ∧ msg.stock ≠ "" then { t with locateToStock := t.locateToStock.set msg.locate msg.stock } else t
  match msg.msgType with
  | .A | .F => addOrder msg t
  | .E | .C => executeOrder msg t
  | .X => cancelOrder msg t
  | .D => deleteOrder msg t
  | .U => replaceOrder msg t
  | .P | .Q => trade msg t
  | .H => tradingAction msg t
  | .S => systemEvent msg t
  | .R | .B | .I => (.returned none, t)

/-- What `get_bbo` returns, without the symbol. -/
structure Bbo where
  bid : Option Nat
  ask : Option Nat
  bidSize : Nat
  askSize : Nat
  deriving DecidableEq

/-- The shares at a price that may be there. -/
def sizeOf (book : Dict Nat Nat) (price : Option Nat) : Nat := (price.bind book.get?).getD 0

/-- `get_bbo`. -/
def getBbo (t : ITCHOrderBookTracker) (symbol : String) : Bbo :=
  match t.depth.get? symbol with
  | none => ⟨none, none, 0, 0⟩
  | some ladders =>
    let bestBid := (ladders.bids.items.map (·.1)).max?
    let bestAsk := (ladders.asks.items.map (·.1)).min?
    ⟨bestBid, bestAsk, sizeOf ladders.bids bestBid, sizeOf ladders.asks bestAsk⟩

end ITCHOrderBookTracker

end Mdrap
