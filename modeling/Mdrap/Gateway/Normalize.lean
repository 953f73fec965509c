import Mdrap.Book.Itch
import Mdrap.Engine.Types
import Mdrap.Protocol.Sbe

/-!
# The gateway

`Gateway.normalize` makes an event of a raw one: of its payload, or of its wire bytes where there is no payload. A floating-point
number stands for its bits. What `float` makes of an integer, the quotient of two integers, the text of a value and the symbology are
left open; the clock is read once.

An integer of more than 4300 digits has no text: `str` and `repr` raise, and so does an error whose message is to show it.
-/

namespace Mdrap

open Lib

/-- A value of a payload. -/
inductive PyValue where
  | none
  | bool (b : Bool)
  | int (n : Int)
  | float (bits : UInt64)
  | str (s : String)
  /-- A list or a dictionary; `str` and `repr` of it may raise. -/
  | other (truthy : Bool) (textError : Option String)
  deriving DecidableEq

/-- The name of what `str` and `repr` of a value raise. -/
def PyValue.textError : PyValue → Option String
  | .int n => if 10 ^ 4300 ≤ n.natAbs then some "ValueError" else Option.none
  | .other _ textError => textError
  | _ => Option.none

/-- `bool(x)`. -/
def PyValue.truthy : PyValue → Bool
  | .none => false
  | .bool b => b
  | .int n => n ≠ 0
  | .float bits => !isZero bits
  | .str s => s ≠ ""
  | .other truthy _ => truthy

/-- `RawEvent`; a payload is none where it is not a dictionary. -/
structure GatewayRaw where
  source : String
  payload : Option (Dict String PyValue)
  receiveTimestamp : UInt64
  rawId : String
  wire : Bytes
  sessionId : Option String

/-- Why `normalize` raises. -/
inductive SchemaError where
  | payloadNotDict
  | eventType (x : Option PyValue)
  | missing (fields : List String)
  | exchangeTsNotNumeric (x : PyValue)
  | exchangeTsNotFinite (x : PyValue)
  | sequenceNotInt (x : PyValue)
  | sequenceOutOfRange (n : Int)
  | instrument
  | price (x : PyValue)
  | quantity (x : PyValue)
  | bidAsk
  | bidSize
  | askSize
  deriving DecidableEq

/-- The value that a message shows. -/
def SchemaError.shown : SchemaError → Option PyValue
  | .eventType x => x
  | .exchangeTsNotNumeric x | .exchangeTsNotFinite x | .sequenceNotInt x | .price x | .quantity x => some x
  | .sequenceOutOfRange n => some (.int n)
  | .payloadNotDict | .missing _ | .instrument | .bidAsk | .bidSize | .askSize => none

/-- How `normalize` ends if not with an event. -/
inductive GatewayError where
  | schema (e : SchemaError)
  | overflow
  | unprintable (name : String)
  deriving DecidableEq

/-- What `raise SchemaError(..)` raises. -/
def SchemaError.raised (e : SchemaError) : GatewayError :=
  match e.shown.bind PyValue.textError with
  | none => .schema e
  | some name => .unprintable name

/-- What `normalize` sets of a `CanonicalEvent`. -/
structure GatewayEvent where
  eventId : String
  instrumentId : String
  eventType : EventType
  exchangeTimestamp : UInt64
  receiveTimestamp : UInt64
  source : String
  sequenceNumber : Option Int
  price : Option UInt64 := none
  quantity : Option UInt64 := none
  bidPrice : Option UInt64 := none
  bidSize : Option UInt64 := none
  askPrice : Option UInt64 := none
  askSize : Option UInt64 := none
  rawId : String
  sourceId : Int := -1
  instrumentIdInt : Int := -1
  sessionId : Option String := none
  venue : PyValue := .str "XNAS"
  currency : PyValue := .str "USD"
  clockSource : String := "HOST_SYS_CLOCK"
  sourceKind : String := "LIVE"

/-- What is left open. -/
structure GatewayEnv where
  ofInt : Int → Option UInt64
  div : Nat → Nat → UInt64
  text : PyValue → String
  resolveSymbol : String → Option (String × String)

/-- `Gateway`. -/
structure Gateway where
  runId : String
  idCounter : Nat
  symbolMetadataCache : Dict String (String × String)
  sourceIdMap : Dict String Nat
  instrumentIdMap : Dict String Nat

namespace Gateway

variable (env : GatewayEnv)

/-! ## Numbers -/

/-- A number that is not a Boolean, and too large for `float` or not. -/
def isNumber : PyValue → Bool
  | .int _ => true
  | .float _ => true
  | _ => false

/-- `isinstance(x, int) and x.bit_length() > 1024`. -/
def isHuge : PyValue → Bool
  | .int n => 2 ^ 1024 ≤ n.natAbs
  | _ => false

/-- `float(x)` of a number, which an integer can be too large for. -/
def toFloat (x : PyValue) : Except GatewayError UInt64 :=
  match x with
  | .float bits => .ok bits
  | .int n =>
    match env.ofInt n with
    | none => .error .overflow
    | some bits => .ok bits
  | _ => .error .overflow

/-- A number that is neither huge nor infinite nor not a number; `math.isfinite` raises for an integer it cannot convert. -/
def checkFinite (x : PyValue) (e : SchemaError) : Except GatewayError Unit :=
  if ¬isNumber x ∨ isHuge x then .error e.raised
  else
    match toFloat env x with
    | .error e => .error e
    | .ok bits => if isFinite bits then .ok () else .error e.raised

/-- `x <= 0` of a number that is finite. -/
def notPositive : PyValue → Bool
  | .int n => n ≤ 0
  | .float bits => !isPositive bits
  | _ => true

/-- A finite number above zero, as `float`. -/
def positive (x : PyValue) (e : SchemaError) : Except GatewayError UInt64 := do
  checkFinite env x e
  if notPositive x then throw e.raised
  toFloat env x

/-! ## Ids -/

/-- `next_event_id`. -/
def nextEventId (g : Gateway) : String × Gateway :=
  ("evt-" ++ g.runId ++ "-" ++ toString g.idCounter, { g with idCounter := g.idCounter + 1 })

/-- `raw.raw_id or self.next_raw_id()`. -/
def rawIdOr (rawId : String) (g : Gateway) : String × Gateway :=
  if rawId = "" then ("raw-" ++ g.runId ++ "-" ++ toString g.idCounter, { g with idCounter := g.idCounter + 1 }) else (rawId, g)

/-- The number of a name, the next one where it has none. -/
def internId (ids : Dict String Nat) (name : String) : Nat × Dict String Nat :=
  match ids.get? name with
  | some id => (id, ids)
  | none => (ids.size, ids.set name ids.size)

/-- `x or y` of two texts. -/
def textOr (x y : String) : String := if x = "" then y else x

/-- `x or y` of two floats. -/
def floatOr (x y : UInt64) : UInt64 := if isZero x then y else x

/-! ## Wire bytes -/

/-- The event of a tick. -/
def ofSbeTick (now : UInt64) (raw : GatewayRaw) (tick : SbeTickMessage) (g : Gateway) : GatewayEvent × Gateway :=
  let (eventId, g) := g.nextEventId
  let (rawId, g) := g.rawIdOr raw.rawId
  ({
    eventId := eventId
    instrumentId := textOr tick.symbol "UNKNOWN"
    -- the price of a tick is a number, also where it stands for none
    eventType := .trade
    exchangeTimestamp := tick.exchangeTs
    receiveTimestamp := floatOr raw.receiveTimestamp (floatOr tick.ingestTs now)
    source := textOr raw.source (textOr tick.source "CME")
    sequenceNumber := some tick.seq
    rawId := rawId
    sessionId := raw.sessionId
    price := some tick.price
    quantity := some tick.size
    bidPrice := some tick.bid
    bidSize := some tick.bidSize
    askPrice := some tick.ask
    askSize := some tick.askSize }, g)

/-- The event of an ITCH message. -/
def ofItchMessage (now : UInt64) (raw : GatewayRaw) (msg : ITCHMessage) (g : Gateway) : GatewayEvent × Gateway :=
  let (eventId, g) := g.nextEventId
  let (rawId, g) := g.rawIdOr raw.rawId
  ({
    eventId := eventId
    instrumentId := textOr msg.stock "UNKNOWN"
    eventType := if msg.msgType ∈ [.P, .Q, .E, .C] then .trade else .quote
    exchangeTimestamp := env.div msg.timestampNs 1000000000
    receiveTimestamp := floatOr raw.receiveTimestamp now
    source := textOr raw.source "NASDAQ"
    sequenceNumber := some msg.tracking
    rawId := rawId
    sessionId := raw.sessionId
    price := some (env.div msg.price 10000)
    quantity := some (env.div msg.shares 1) }, g)

/-- The type byte and the body of an ITCH frame. -/
def itchParts (wire : Bytes) : Bytes × Bytes :=
  if 2 < wire.length ∧ wire.take 2 ≠ [0, 0] then ((wire.drop 2).take 1, wire.drop 3) else (wire.take 1, wire.drop 1)

/-- `_try_normalize_wire`, of bytes. -/
def tryNormalizeWire (now : UInt64) (raw : GatewayRaw) (g : Gateway) : Option GatewayEvent × Gateway :=
  match if 8 ≤ raw.wire.length then unpackSbeTick raw.wire else none with
  | some tick =>
    let (event, g) := ofSbeTick now raw tick g
    (some event, g)
  | none =>
    match if 3 ≤ raw.wire.length then ITCHParser.parsePayload (itchParts raw.wire).1 (itchParts raw.wire).2 else none with
    | some msg =>
      let (event, g) := ofItchMessage env now raw msg g
      (some event, g)
    | none => (none, g)

/-! ## Payloads -/

/-- The fields that an event needs. -/
def requiredFields (eventType : EventType) : List String :=
  match eventType with
  | .trade => ["instrument", "event_type", "price", "quantity"]
  | .quote => ["instrument", "event_type", "bid", "ask"]
  | _ => ["instrument", "event_type"]

/-- The type of an event that `normalize` knows. -/
def eventTypeOf (x : Option PyValue) : Except GatewayError EventType :=
  match x with
  | some (.str "TRADE") => .ok .trade
  | some (.str "QUOTE") => .ok .quote
  | some (.str "HALT") => .ok .halt
  | some (.str "STATUS") => .ok .status
  | x => .error (SchemaError.eventType x).raised

/-- The exchange timestamp and where it is from. -/
def exchangeTsOf (receiveTimestamp : UInt64) (p : Dict String PyValue) : Except GatewayError (String × PyValue) :=
  match (p.get? "exchange_ts").getD .none with
  | .none => .ok ("GATEWAY_RECV", .float receiveTimestamp)
  | x =>
    if ¬isNumber x then .error (SchemaError.exchangeTsNotNumeric x).raised
    else do
      checkFinite env x (.exchangeTsNotFinite x)
      return ("EXCHANGE", x)

/-- The sequence number, which is optional. -/
def sequenceOf (p : Dict String PyValue) : Except GatewayError (Option Int) :=
  match (p.get? "sequence").getD .none with
  | .none => .ok none
  | .int n =>
    if n < -9223372036854775808 ∨ 9223372036854775807 < n then .error (SchemaError.sequenceOutOfRange n).raised else .ok (some n)
  | x => .error (SchemaError.sequenceNotInt x).raised

/-- The instrument. -/
def instrumentOf (p : Dict String PyValue) : Except GatewayError String :=
  match (p.get? "instrument").getD .none with
  | .str s => if s = "" then .error (.schema .instrument) else .ok s
  | _ => .error (.schema .instrument)

/-- `p.get(name, 0) or 0`. -/
def sizeOf (p : Dict String PyValue) (name : String) : PyValue :=
  let x := (p.get? name).getD (.int 0)
  if x.truthy then x else .int 0

/-- The prices of a quote. -/
def bidAskOf (p : Dict String PyValue) : Except GatewayError (UInt64 × UInt64) :=
  let bid := (p.get? "bid").getD .none
  let ask := (p.get? "ask").getD .none
  if ¬isNumber bid ∨ ¬isNumber ask ∨ isHuge bid ∨ isHuge ask then .error (.schema .bidAsk)
  else do
    checkFinite env bid .bidAsk
    checkFinite env ask .bidAsk
    return (← toFloat env bid, ← toFloat env ask)

/-- The sizes of a quote, of which only the types are checked. -/
def sizesOf (p : Dict String PyValue) : Except GatewayError (UInt64 × UInt64) :=
  let bidSize := sizeOf p "bid_size"
  let askSize := sizeOf p "ask_size"
  if ¬isNumber bidSize then .error (.schema .bidSize)
  else if ¬isNumber askSize then .error (.schema .askSize)
  else return (← toFloat env bidSize, ← toFloat env askSize)

/-- The fields of a trade or a quote. -/
def setFields (p : Dict String PyValue) (event : GatewayEvent) : Except GatewayError GatewayEvent :=
  match event.eventType with
  | .trade => do
    let price := (p.get? "price").getD .none
    let qty := (p.get? "quantity").getD .none
    let price ← positive env price (.price price)
    let quantity ← positive env qty (.quantity qty)
    return { event with price := some price, quantity := some quantity }
  | .quote => do
    let (bidPrice, askPrice) ← bidAskOf env p
    let (bidSize, askSize) ← sizesOf env p
    return { event with bidPrice := some bidPrice, askPrice := some askPrice, bidSize := some bidSize, askSize := some askSize }
  | _ => return event

/-- What is read of a payload before an event is made. -/
structure PayloadHead where
  eventType : EventType
  clockSource : String
  exchangeTs : UInt64
  sequence : Option Int
  instrument : String

/-- The checks of `normalize` that come before an event is made. -/
def headOf (receiveTimestamp : UInt64) (p : Dict String PyValue) : Except GatewayError PayloadHead := do
  let eventType ← eventTypeOf (p.get? "event_type")
  let missing := (requiredFields eventType).filter (fun f => ¬p.contains f)
  if missing ≠ [] then throw (.schema (.missing missing))
  let (clockSource, exchangeTs) ← exchangeTsOf env receiveTimestamp p
  let sequence ← sequenceOf p
  let instrument ← instrumentOf p
  let exchangeTs ← toFloat env exchangeTs
  return ⟨eventType, clockSource, exchangeTs, sequence, instrument⟩

/-- Whether a text has another one in it. -/
def hasText (needle s : String) : Bool := s.toList.tails.any (fun rest => needle.toList.isPrefixOf rest)

/-- The kind of a source. -/
def sourceKindOf (source : String) (p : Dict String PyValue) : Except GatewayError String :=
  if ((p.get? "is_simulated").getD .none).truthy ∨ hasText "SIM" source then .ok "SIMULATED"
  else if hasText "REPLAY" source then .ok "REPLAY"
  else
    let kind := (p.get? "source_kind").getD (.str "LIVE")
    match kind.textError with
    | none => .ok (env.text kind)
    | some name => .error (.unprintable name)

/-- `x or y` of a member of a payload and a text. -/
def memberOr (p : Dict String PyValue) (name y : String) : PyValue :=
  let x := (p.get? name).getD .none
  if x.truthy then x else .str y

/-- The venue and the currency of an instrument, which are kept. -/
def metadata (instrument : String) (g : Gateway) : (String × String) × Gateway :=
  match g.symbolMetadataCache.get? instrument with
  | some found => (found, g)
  | none =>
    let found := (env.resolveSymbol instrument).getD ("XNAS", "USD")
    (found, { g with symbolMetadataCache := g.symbolMetadataCache.set instrument found })

/-- The payload path of `normalize`. -/
def normalizePayload (raw : GatewayRaw) (p : Dict String PyValue) (g : Gateway) : Except GatewayError GatewayEvent × Gateway :=
  match headOf env raw.receiveTimestamp p with
  | .error e => (.error e, g)
  | .ok head =>
    let (sourceId, sourceIdMap) := internId g.sourceIdMap raw.source
    let (instrumentIdInt, instrumentIdMap) := internId g.instrumentIdMap head.instrument
    let g := { g with sourceIdMap := sourceIdMap, instrumentIdMap := instrumentIdMap }
    let (eventId, g) := g.nextEventId
    match sourceKindOf env raw.source p with
    | .error e => (.error e, g)
    | .ok sourceKind =>
    let (found, g) := metadata env head.instrument g
    let event := {
      eventId := eventId
      instrumentId := head.instrument
      eventType := head.eventType
      exchangeTimestamp := head.exchangeTs
      receiveTimestamp := raw.receiveTimestamp
      source := raw.source
      sequenceNumber := head.sequence
      rawId := raw.rawId
      sourceId := sourceId
      instrumentIdInt := instrumentIdInt
      clockSource := head.clockSource
      sourceKind := sourceKind
      venue := memberOr p "venue" found.1
      currency := memberOr p "currency" found.2 }
    (setFields env p event, g)

/-- `normalize`. -/
def normalize (now : UInt64) (raw : GatewayRaw) (g : Gateway) : Except GatewayError GatewayEvent × Gateway :=
  -- an empty payload is none
  let fromWire :=
    if raw.wire ≠ [] ∧ ((raw.payload.map (·.items)).getD [] = []) then tryNormalizeWire env now raw g else (none, g)
  match fromWire with
  | (some event, g) => (.ok event, g)
  | (none, g) =>
    match raw.payload with
    | none => (.error (.schema .payloadNotDict), g)
    | some p => normalizePayload env raw p g

end Gateway

end Mdrap
