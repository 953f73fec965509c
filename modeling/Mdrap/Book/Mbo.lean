import Mathlib.Algebra.Order.Field.Rat
import Mathlib.Data.Rat.Floor
import Mdrap.Lib.Dict

/-!
# The order book by order

`OrderBookMBO` keeps every resting order, and for each side a queue of orders at each price. Prices and sizes are exact numbers, which
the book rounds to four decimals. What `str.upper` does is left open. When an order came by the clock is left out: nothing reads it.
-/

namespace Mdrap

open Lib

/-- The nearest integer, and the even one of two. -/
def roundHalfEven (x : ℚ) : Int :=
  let down := x.floor
  if x - down < 1 / 2 then down
  else if 1 / 2 < x - down then down + 1
  else if down % 2 = 0 then down else down + 1

/-- `round(x, 4)`. -/
def round4 (x : ℚ) : ℚ := roundHalfEven (x * 10000) / 10000

/-- `RestingOrder`. -/
structure RestingOrder where
  orderId : String
  side : String
  price : ℚ
  size : ℚ
  venue : String
  priority : Nat
  deriving DecidableEq

/-- An order to buy. -/
def isBid (side : String) : Bool := side = "BUY" ∨ side = "BID"

/-- `PriceLevelQueue`. -/
structure PriceLevelQueue where
  price : ℚ
  orderIds : List String
  totalSize : ℚ
  venueSizes : Dict String ℚ

namespace PriceLevelQueue

def new (price : ℚ) : PriceLevelQueue := ⟨price, [], 0, .empty⟩

def addOrder (orderId : String) (size : ℚ) (venue : String) (q : PriceLevelQueue) : PriceLevelQueue where
  price := q.price
  orderIds := q.orderIds ++ [orderId]
  totalSize := q.totalSize + size
  venueSizes := q.venueSizes.set venue ((q.venueSizes.get? venue).getD 0 + size)

/-- `remove_order`, and whether the order was there. -/
def removeOrder (orderId : String) (size : ℚ) (venue : String) (q : PriceLevelQueue) : Bool × PriceLevelQueue :=
  if orderId ∈ q.orderIds then
    (true, {
      price := q.price
      orderIds := q.orderIds.erase orderId
      totalSize := max 0 (q.totalSize - size)
      venueSizes :=
        match q.venueSizes.get? venue with
        | none => q.venueSizes
        | some old =>
          if max 0 (old - size) ≤ 1 / 10 ^ 9 then q.venueSizes.erase venue else q.venueSizes.set venue (max 0 (old - size)) })
  else (false, q)

def reduceOrderSize (sizeReduction : ℚ) (venue : String) (q : PriceLevelQueue) : PriceLevelQueue where
  price := q.price
  orderIds := q.orderIds
  totalSize := max 0 (q.totalSize - sizeReduction)
  venueSizes :=
    match q.venueSizes.get? venue with
    | none => q.venueSizes
    | some old => q.venueSizes.set venue (max 0 (old - sizeReduction))

end PriceLevelQueue

/-- `QueuePositionInfo`. Its instrument, which is the one of the book, is left out. -/
structure QueuePositionInfo where
  orderId : String
  side : String
  price : ℚ
  size : ℚ
  ordersAhead : Nat
  sizeAhead : ℚ
  totalLevelSize : ℚ
  totalLevelOrders : Nat
  queueRank : Nat

/-- `OrderBookMBO`. -/
structure OrderBookMBO where
  orders : Dict String RestingOrder
  bids : Dict ℚ PriceLevelQueue
  asks : Dict ℚ PriceLevelQueue
  prioritySeq : Nat
  totalAdds : Nat
  totalCancels : Nat
  totalModifies : Nat
  totalExecutes : Nat

namespace OrderBookMBO

def new : OrderBookMBO := ⟨.empty, .empty, .empty, 0, 0, 0, 0, 0⟩

/-- The queues of a side. -/
def book (b : OrderBookMBO) (bid : Bool) : Dict ℚ PriceLevelQueue := if bid then b.bids else b.asks

def setBook (b : OrderBookMBO) (bid : Bool) (book : Dict ℚ PriceLevelQueue) : OrderBookMBO :=
  if bid then { b with bids := book } else { b with asks := book }

/-- An order goes to the end of its queue, which is made if need be. -/
def enqueue (order : RestingOrder) (b : OrderBookMBO) : OrderBookMBO :=
  let book := b.book (isBid order.side)
  let queue := (book.get? order.price).getD (.new order.price)
  b.setBook (isBid order.side) (book.set order.price (queue.addOrder order.orderId order.size order.venue))

/-- An order leaves its queue, which goes if it is empty then. -/
def dequeue (order : RestingOrder) (b : OrderBookMBO) : OrderBookMBO :=
  let book := b.book (isBid order.side)
  match book.get? order.price with
  | none => b
  | some queue =>
    let queue := (queue.removeOrder order.orderId order.size order.venue).2
    b.setBook (isBid order.side) (if queue.orderIds = [] then book.erase order.price else book.set order.price queue)

/-- An order becomes smaller where it stands. -/
def shrink (order : RestingOrder) (sizeReduction : ℚ) (b : OrderBookMBO) : OrderBookMBO :=
  let book := b.book (isBid order.side)
  match book.get? order.price with
  | none => b
  | some queue => b.setBook (isBid order.side) (book.set order.price (queue.reduceOrderSize sizeReduction order.venue))

/-- `order_add`. -/
def orderAdd (upper : String → String) (orderId side : String) (price size : ℚ) (venue : String) (b : OrderBookMBO) :
    Bool × OrderBookMBO :=
  if b.orders.contains orderId ∨ price ≤ 0 ∨ size ≤ 0 then (false, b)
  else
    let order : RestingOrder := ⟨orderId, upper side, round4 price, round4 size, venue, b.prioritySeq + 1⟩
    let b := { b with prioritySeq := b.prioritySeq + 1, orders := b.orders.set orderId order }
    let b := b.enqueue order
    (true, { b with totalAdds := b.totalAdds + 1 })

/-- `order_cancel`. -/
def orderCancel (orderId : String) (b : OrderBookMBO) : Bool × OrderBookMBO :=
  match b.orders.get? orderId with
  | none => (false, b)
  | some order =>
    let b := { b with orders := b.orders.erase orderId }
    let b := b.dequeue order
    (true, { b with totalCancels := b.totalCancels + 1 })

/-- `order_modify`. -/
def orderModify (orderId : String) (newSize : ℚ) (newPrice : Option ℚ) (b : OrderBookMBO) : Bool × OrderBookMBO :=
  match b.orders.get? orderId with
  | none => (false, b)
  | some order =>
    let targetPrice := (newPrice.map round4).getD order.price
    let targetSize := round4 newSize
    if targetSize ≤ 0 then b.orderCancel orderId
    else if ¬1 / 10 ^ 6 < |targetPrice - order.price| ∧ ¬order.size < targetSize then
      -- a smaller order at the same price keeps its place
      let b := { b with orders := b.orders.set orderId { order with size := targetSize } }
      let b := b.shrink order (order.size - targetSize)
      (true, { b with totalModifies := b.totalModifies + 1 })
    else
      let b := b.dequeue order
      let changed := { order with price := targetPrice, size := targetSize, priority := b.prioritySeq + 1 }
      let b := { b with prioritySeq := b.prioritySeq + 1, orders := b.orders.set orderId changed }
      let b := b.enqueue changed
      (true, { b with totalModifies := b.totalModifies + 1 })

/-- `order_execute`, and what remains. -/
def orderExecute (orderId : String) (filledSize : ℚ) (b : OrderBookMBO) : (Bool × ℚ) × OrderBookMBO :=
  match b.orders.get? orderId with
  | none => ((false, 0), b)
  | some order =>
    if filledSize ≤ 0 then ((false, 0), b)
    else
      let fill := min order.size (round4 filledSize)
      let remaining := max 0 (order.size - fill)
      if remaining ≤ 1 / 10 ^ 6 then
        let b := (b.orderCancel orderId).2
        ((true, 0), { b with totalExecutes := b.totalExecutes + 1 })
      else
        let b := { b with orders := b.orders.set orderId { order with size := remaining } }
        let b := b.shrink order (order.size - remaining)
        ((true, remaining), { b with totalExecutes := b.totalExecutes + 1 })

/-- The loop of `get_queue_position`: the orders ahead, their size and the rank, up to the order. -/
def aheadLoop (orders : Dict String RestingOrder) (orderId : String) : List String → Nat × ℚ × Nat → Nat × ℚ × Nat
  | [], counts => counts
  | oid :: oids, (ordersAhead, sizeAhead, rank) =>
    if oid = orderId then (ordersAhead, sizeAhead, rank)
    else
      match orders.get? oid with
      | some aheadOrder => aheadLoop orders orderId oids (ordersAhead + 1, sizeAhead + aheadOrder.size, rank + 1)
      | none => aheadLoop orders orderId oids (ordersAhead, sizeAhead, rank)

/-- `get_queue_position`. -/
def getQueuePosition (orderId : String) (b : OrderBookMBO) : Option QueuePositionInfo :=
  match b.orders.get? orderId with
  | none => none
  | some order =>
    match (b.book (isBid order.side)).get? order.price with
    | none => none
    | some queue =>
      let (ordersAhead, sizeAhead, rank) := aheadLoop b.orders orderId queue.orderIds (0, 0, 1)
      some {
        orderId := orderId
        side := order.side
        price := order.price
        size := order.size
        ordersAhead := ordersAhead
        sizeAhead := round4 sizeAhead
        totalLevelSize := round4 queue.totalSize
        totalLevelOrders := queue.orderIds.length
        queueRank := rank }

end OrderBookMBO

/-- A call. -/
inductive MboCall where
  | add (orderId side : String) (price size : ℚ) (venue : String)
  | modify (orderId : String) (newSize : ℚ) (newPrice : Option ℚ)
  | cancel (orderId : String)
  | execute (orderId : String) (filledSize : ℚ)

/-- The book after a call. -/
def OrderBookMBO.step (upper : String → String) (b : OrderBookMBO) : MboCall → OrderBookMBO
  | .add orderId side price size venue => (b.orderAdd upper orderId side price size venue).2
  | .modify orderId newSize newPrice => (b.orderModify orderId newSize newPrice).2
  | .cancel orderId => (b.orderCancel orderId).2
  | .execute orderId filledSize => (b.orderExecute orderId filledSize).2

end Mdrap
