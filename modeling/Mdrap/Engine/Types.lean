import Mdrap.IngestLog.Record

/-!
# Decisions

The engine turns each raw event into a decision: the quality of the event, the reasons for it, and either a canonical event or a
row for the quarantine table. Numbers are of a type `V` throughout; what the engine asks of them, and of the few texts it makes
of arbitrary values, is a record of Python's built-ins (`Py`).
-/

namespace Mdrap

open Lib

/-! ## Python's built-ins -/

/-- An exception: the name of its class and its text. -/
structure PyError where
  name : String
  message : String
  deriving DecidableEq

/-- The built-ins the engine uses. Any of the operations on numbers may raise. -/
structure Py (V : Type) where
  str : Json → String
  repr : Json → String
  num : Json → Except PyError V
  float : Json → Except PyError V
  toJson : V → Json
  lit : Decimal → V
  add : V → V → Except PyError V
  sub : V → V → Except PyError V
  mul : V → V → Except PyError V
  div : V → V → Except PyError V
  square : V → Except PyError V
  sqrt : V → Except PyError V
  sum : List V → Except PyError V
  abs : V → V
  lt : V → V → Bool
  eq : V → V → Bool
  isNan : V → Bool

/-- At most, which a number that is not a number is to nothing. -/
def Py.le {V : Type} (P : Py V) (a b : V) : Bool := P.lt a b || P.eq a b

/-- The larger of two, as `max` takes it. -/
def Py.max {V : Type} (P : Py V) (a b : V) : V := if P.lt a b then b else a

/-- A decimal literal. -/
def Py.dec {V : Type} (P : Py V) (mant : Nat) (exp : Int) : V := P.lit (Decimal.ofParts false mant exp)

/-- `json.dumps` of a value. -/
def jsonDumps (j : Json) : String := String.ofList (j.text .default)

/-! ## Enumerations -/

/-- `QualityStatus`. -/
inductive QualityStatus where
  | valid
  | suspicious
  | invalid
  deriving DecidableEq

namespace QualityStatus

def value : QualityStatus → String
  | .valid => "VALID"
  | .suspicious => "SUSPICIOUS"
  | .invalid => "INVALID"

def severityLevel : QualityStatus → Nat
  | .valid => 0
  | .suspicious => 1
  | .invalid => 2

/-- The worse of two. -/
def merge (s t : QualityStatus) : QualityStatus := if s.severityLevel < t.severityLevel then t else s

end QualityStatus

/-- `Reason`: the codes the engine attaches. -/
inductive Reason where
  | schemaViolation
  | duplicate
  | sequenceGap
  | outOfOrder
  | stale
  | priceAnomaly
  | crossedQuote
  | crossFeedDisagreement
  | malformed
  | circuitFilterBreach
  | volatilityInterruption
  | specialQuoteIndication
  | implausibleTs
  | rateLimited
  | securityReject
  | backpressureDrop
  | epochReset
  | gapFilled
  deriving DecidableEq

def Reason.value : Reason → String
  | .schemaViolation => "SCHEMA_VIOLATION"
  | .duplicate => "DUPLICATE"
  | .sequenceGap => "SEQUENCE_GAP"
  | .outOfOrder => "OUT_OF_ORDER"
  | .stale => "STALE"
  | .priceAnomaly => "PRICE_ANOMALY"
  | .crossedQuote => "CROSSED_QUOTE"
  | .crossFeedDisagreement => "CROSS_FEED_DISAGREEMENT"
  | .malformed => "MALFORMED"
  | .circuitFilterBreach => "CIRCUIT_FILTER_BREACH"
  | .volatilityInterruption => "VOLATILITY_INTERRUPTION"
  | .specialQuoteIndication => "SPECIAL_QUOTE_INDICATION"
  | .implausibleTs => "TS_IMPLAUSIBLE"
  | .rateLimited => "RATE_LIMITED"
  | .securityReject => "SECURITY_REJECT"
  | .backpressureDrop => "BACKPRESSURE_DROP"
  | .epochReset => "EPOCH_RESET"
  | .gapFilled => "GAP_FILLED"

/-- The list of reasons as the tables hold it. -/
def reasonsText (reasons : List Reason) : String := jsonDumps (.arr (reasons.map (fun r => .str r.value)))

/-- `EventType`: the types the engine accepts. -/
inductive EventType where
  | trade
  | quote
  | halt
  | status
  deriving DecidableEq

def EventType.value : EventType → String
  | .trade => "TRADE"
  | .quote => "QUOTE"
  | .halt => "HALT"
  | .status => "STATUS"

/-! ## Decisions -/

/-- `CanonicalEvent`, as far as the engine fills it in. -/
structure CanonicalEvent (V : Type) where
  eventId : String
  instrumentId : String
  eventType : EventType
  exchangeTimestamp : V
  receiveTimestamp : V
  processingTimestamp : V
  source : Json
  sequenceNumber : Option Int
  price : Json
  quantity : Json
  bidPrice : Json
  askPrice : Json
  bidSize : Json
  askSize : Json
  qualityStatus : QualityStatus
  reasons : List Reason
  rawId : Json
  sessionId : Option String

/-- A row of the quarantine table. -/
structure QuarantineRow where
  eventId : String
  instrumentId : Json
  source : Json
  qualityStatus : String
  reasons : String
  payloadJson : String
  receiveTimestamp : Json

/-- `EngineDecision`. -/
structure EngineDecision (V : Type) where
  offset : Int
  eventId : String
  qualityStatus : QualityStatus
  reasons : List Reason
  canonicalEvent : Option (CanonicalEvent V)
  quarantineRow : Option QuarantineRow
  isDuplicate : Bool
  disagreement : Bool
  durable : Bool

/-- The decision on an event that is put into quarantine before its quality is looked at. -/
def EngineDecision.quarantined {V : Type} (offset : Int) (reason : Reason) (row : QuarantineRow) : EngineDecision V :=
  ⟨offset, row.eventId, .invalid, [reason], none, some row, false, false, true⟩

/-- The row for an event without an instrument. -/
def QuarantineRow.noInstrument (eventId : String) (source : Json) (payload : Json) (recvTs : Json) : QuarantineRow :=
  ⟨eventId, .str "UNKNOWN", source, QualityStatus.invalid.value, jsonDumps (.arr [.str "Missing or invalid instrument string"]),
    jsonDumps payload, recvTs⟩

end Mdrap
