import Mdrap.Engine.Prices

/-!
# A step of the engine

A step takes an event through all stages and makes the decision on it. An exception on the way undoes what the step has done to
the state, as far as the journal knows it, and the event is counted and put into quarantine.
-/

namespace Mdrap

open Lib

variable {V : Type}

/-- What a step depends on beside the state and the event. -/
structure StepConfig (V : Type) where
  py : Py V
  sessionPolicy : SessionPolicy
  security : Option Security := none

/-- The id the feed gave an event, where it gave one. -/
def RawEvent.idText (P : Py V) (raw : RawEvent) : Option String :=
  if truthy raw.rawId then some (match raw.rawId with
    | .str s => s
    | j => P.str j)
  else none

/-- The id of an event that has passed the checks of its fields. -/
def RawEvent.eventId (P : Py V) (raw : RawEvent) (f : Fields V) (offset : Int) : String :=
  match raw.idText P, f.seq with
  | some id, _ => id
  | none, some seq => s!"evt_{raw.sourceText P}_{f.instrument}_{seq}"
  | none, none => s!"evt_{raw.sourceText P}_{f.instrument}_{offset}"

/-- When an event came in: it says so, or it is now. -/
def RawEvent.recvTs (raw : RawEvent) (now : Json) : Json := if truthy raw.receiveTimestamp then raw.receiveTimestamp else now

/-- The row for a payload that is not an object. -/
def notADict (P : Py V) (raw : RawEvent) (offset : Int) (recvTs : Json) : QuarantineRow :=
  ⟨s!"q_{raw.sourceText P}_{offset}", .str "MALFORMED", raw.source, QualityStatus.invalid.value,
    jsonDumps (.arr [.str "Payload is not a dictionary"]), jsonDumps (.str (P.str raw.payload)), recvTs⟩

/-- The stages after the checks of the fields: the epoch, what they find, and whether the event is a duplicate and whether the
feeds disagree. -/
def runStages (c : StepConfig V) (raw : RawEvent) (f : Fields V) (recvTs : Json) (isReplay : Bool) :
    StepM V (Epoch × QualityStatus × List Reason × Bool × Bool) := do
  let P := c.py
  let e ← stageSessionAndEpoch P c.sessionPolicy raw f
  let order ← stageSequenceAndDedup P raw f recvTs e isReplay .valid (if e.reset then [.epochReset] else [])
  let threshold ← look EngineState.stalenessThresholdS
  let (status, reasons) ← Proc.lift (stageQuoteAndStaleness P raw.payload f recvTs threshold order.status order.reasons)
  let price := fieldValue P raw.payload "price"
  let (status, reasons) ← stagePriceCorridor P e.slot price status reasons
  let feeds ← stageBboAndReconciliation P raw f price status reasons
  return (e, feeds.status, feeds.reasons, order.flagged, feeds.flagged)

/-- The decision on an event that has passed all stages. -/
def package (P : Py V) (raw : RawEvent) (f : Fields V) (offset : Int) (recvTs now : Json)
    (found : Epoch × QualityStatus × List Reason × Bool × Bool) : Except PyError (EngineDecision V) :=
  let (e, status, reasons, isDuplicate, disagreement) := found
  let eventId := raw.eventId P f offset
  if status = .invalid then
    .ok ⟨offset, eventId, status, reasons, none,
      some ⟨eventId, .str f.instrument, raw.source, QualityStatus.invalid.value, reasonsText reasons, jsonDumps raw.payload, recvTs⟩,
      isDuplicate, disagreement, true⟩
  else do
    let receiveTimestamp ← P.float recvTs
    let processingTimestamp ← P.float now
    return ⟨offset, eventId, status, reasons, some {
      eventId := eventId
      instrumentId := f.instrument
      eventType := f.eventType
      exchangeTimestamp := f.exchTs
      receiveTimestamp := receiveTimestamp
      processingTimestamp := processingTimestamp
      source := raw.source
      sequenceNumber := f.seq
      price := raw.payload.get "price"
      quantity := raw.payload.get "quantity"
      bidPrice := raw.payload.get "bid"
      askPrice := raw.payload.get "ask"
      bidSize := raw.payload.get "bid_size"
      askSize := raw.payload.get "ask_size"
      qualityStatus := status
      reasons := reasons
      rawId := raw.rawId
      sessionId := e.session.or (if 0 < e.epoch then some s!"epoch_{e.epoch}" else none) }, none, isDuplicate, disagreement, true⟩

/-- The first two stages, the security envelope and the checks of the fields: a decision on the event, or its fields. -/
def stageChecks (c : StepConfig V) (raw : RawEvent) (offset : Int) (recvTs : Json) :
    Except PyError (Except (EngineDecision V) (Fields V)) := do
  match ← stageSecurityEnvelope c.py c.security raw offset recvTs with
  | some d => return .error d
  | none => stageSchemaValidation c.py raw offset recvTs

/-- The decision on an event, and its count. -/
def judge (c : StepConfig V) (raw : RawEvent) (now : Json) (offset : Int) (isReplay : Bool) : StepM V (EngineDecision V) := do
  if raw.payload.isObj then
    match ← Proc.lift (stageChecks c raw offset (raw.recvTs now)) with
    | .error d => do
      bumpCount .invalid
      return d
    | .ok f => do
      let found ← runStages c raw f (raw.recvTs now) isReplay
      bumpCount found.2.1
      Proc.lift (package c.py raw f offset (raw.recvTs now) now found)
  else do
    bumpCount .invalid
    return .quarantined offset .schemaViolation (notADict c.py raw offset (raw.recvTs now))

/-- `_step_internal`. -/
def stepInternal (c : StepConfig V) (raw : RawEvent) (now : Json) (offset : Int) (isReplay : Bool) : StepM V (EngineDecision V) := do
  recordEventCount
  update (fun s => { s with eventCount := s.eventCount + 1, lastAppliedOffset := offset })
  judge c raw now offset isReplay

/-- The quarantine of an event on which the step has raised. -/
def unhandled (P : Py V) (raw : RawEvent) (offset : Int) (now : Json) (exc : PyError) : EngineDecision V :=
  .quarantined offset .schemaViolation
    ⟨(raw.idText P).getD s!"q_{raw.sourceText P}_{offset}", .str "MALFORMED", raw.source, QualityStatus.invalid.value,
      jsonDumps (.arr [.str s!"Unhandled engine exception: {exc.name}: {exc.message}"]), jsonDumps (.str (P.str raw.payload)),
      raw.recvTs now⟩

/-- An event on which the step has raised is counted. -/
def countUnhandled (eventCount : Nat) : StepM V Unit := do
  recordEventCount
  recordCount .invalid
  update (fun s => { s with eventCount := eventCount, counts := s.counts.set .invalid (s.counts.get .invalid + 1) })

/-- `step`, within a transaction whose journal is part of the work. Without an offset the number of the event is taken for it. -/
def step (c : StepConfig V) (raw : RawEvent) (now : Json) (offset : Option Int) (isReplay : Bool) (w : Work V) :
    EngineDecision V × Work V :=
  let offset := offset.getD w.state.eventCount
  match stepInternal c raw now offset isReplay w with
  | (.ok d, w') => (d, w')
  | (.error exc, w') =>
    (unhandled c.py raw offset now exc, (countUnhandled (w.state.eventCount + 1) (w'.rollbackTo c.py w.journal.length)).2)

/-- `step`, in a transaction of its own. -/
def stepAlone (c : StepConfig V) (raw : RawEvent) (now : Json) (offset : Option Int) (isReplay : Bool) (s : EngineState V)
    (gaps : Option GapManager) : EngineDecision V × EngineState V × Option GapManager :=
  let (d, w) := step c raw now offset isReplay ⟨s, [], gaps⟩
  (d, w.state, w.gaps)

/-- `step_batch`. -/
def stepBatch (c : StepConfig V) (now : Json) : List (RawEvent × Int) → Work V → List (EngineDecision V) × Work V
  | [], w => ([], w)
  | (raw, offset) :: rest, w =>
    let (d, w) := step c raw now (some offset) false w
    let (ds, w) := stepBatch c now rest w
    (d :: ds, w)

end Mdrap
