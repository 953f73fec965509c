import Mdrap.Lib.Proc
import Mdrap.Pipeline.Reconcile
import Mdrap.Quality.Engine

/-!
# The pipeline

`Pipeline` without an engine, a security object or hooks. A raw event is ingested and normalised by the gateway, checked by the
quality engine, reconciled with the other feeds and put into up to three batches of rows: canonical, quarantine and lineage. Events
come one by one (`processOne`) or as a list (`processBatch`). The quality engine may hold an event back and hand it over later.

The clock stands still. Rows are kept as they are enqueued; the writer, the journal, the archive and the metrics are left out. A
list of texts stands for itself where the source has its JSON.
-/

namespace Mdrap

open Lib

/-! ## Events and rows -/

/-- A payload: none, a dictionary, or any other value with its JSON. -/
inductive RawPayload where
  | none
  | dict (p : Dict String PyValue)
  | other (json : String)

/-- The dictionary of a payload that is one. -/
def RawPayload.toDict : RawPayload → Option (Dict String PyValue)
  | .dict p => some p
  | _ => Option.none

/-- `RawEvent`. -/
structure PipelineRaw where
  source : String
  payload : RawPayload
  receiveTimestamp : UInt64
  rawId : String
  wire : Bytes
  sessionId : Option String

/-- A raw event as the gateway reads it. -/
def PipelineRaw.toGateway (raw : PipelineRaw) : GatewayRaw :=
  ⟨raw.source, raw.payload.toDict, raw.receiveTimestamp, raw.rawId, raw.wire, raw.sessionId⟩

/-- A row of the quarantine batch. -/
structure PipelineQuarantineRow where
  eventId : String
  instrumentId : String
  source : String
  qualityStatus : QualityStatus
  reasons : List String
  rawPayload : String
  receiveTimestamp : UInt64
  deriving DecidableEq

/-- A row of the lineage batch. -/
structure PipelineLineageRow where
  eventId : String
  instrumentId : String
  rawIds : List String
  rawId : String
  transformations : List String
  validationsRun : List String
  disagreement : Bool
  reason : String
  source : String
  codeVersion : String
  processingTimestamp : UInt64
  deriving DecidableEq

/-- `_VALIDATIONS_RUN_JSON`. -/
def VALIDATIONS_RUN : List String :=
  ["schema", "sequence_gap", "duplicate", "ordering", "staleness", "price_sanity", "quote_consistency"]

/-- `_TRANSFORMATIONS_JSON`. -/
def TRANSFORMATIONS (reconciled : Bool) : List String :=
  ["ingest", "normalize", "quality_evaluate"] ++ (if reconciled then ["reconcile"] else [])

def MAX_QUARANTINE_PAYLOAD_BYTES : Nat := 65536

/-! ## What a pipeline is made of -/

/-- A quality engine. It marks the event it is given and hands it back, or holds it back; what it raises leaves the event as it was
marked by then. Two of its methods it may lack. -/
structure QualityEvaluator (Q : Type) where
  evaluate : PipelineEvent → Proc Q (PyError × PipelineEvent) (Option PipelineEvent)
  evaluateBatch : Option (List PipelineEvent → Proc Q (PyError × List PipelineEvent) (List (Option PipelineEvent)))
  drainExpired : Option (Proc Q PyError (List PipelineEvent))
  evaluate_rawId : ∀ ev q ev', (evaluate ev q).1 = .ok (some ev') → ev'.rawId = ev.rawId

/-- What a pipeline is set up with: `observeMarket` is what the analytics and the best bid and offer make of an event, `watch` what
the watchdog does, each only where there is one. -/
structure PipelineEnv (V Q M W : Type) where
  gateway : GatewayEnv
  reconcile : ReconcileEnv V
  quality : QualityEvaluator Q
  observeMarket : PipelineEvent → M → M
  watch : PipelineEvent → W → W
  now : UInt64
  codeVersion : String
  dumps : Dict String PyValue → String
  truncated : String → String

/-- What an evaluated event goes to: the reconciler, those that watch, the payloads of events that are not out yet, and the
batches. -/
structure Desk (V M W : Type) where
  reconciler : Reconciler V
  reliability : ReliabilityTracker V
  market : M
  watchdog : W
  pendingRawPayloads : Dict String RawPayload
  canonical : List PipelineEvent
  quarantine : List PipelineQuarantineRow
  lineage : List PipelineLineageRow

/-- `Pipeline`, with the gateway it uses. -/
structure Pipeline (V Q M W : Type) where
  gateway : Gateway
  quality : Q
  desk : Desk V M W

variable {V Q M W : Type} (env : PipelineEnv V Q M W)

/-- A procedure of the pipeline. -/
abbrev PipelineM (V Q M W : Type) := Proc (Pipeline V Q M W) PyError

/-- `json.dumps`. -/
def RawPayload.json : RawPayload → String
  | .none => "null"
  | .dict p => env.dumps p
  | .other json => json

/-- `_safe_payload_json`. -/
def safePayloadJson (payload : RawPayload) : String :=
  let s := payload.json env
  if MAX_QUARANTINE_PAYLOAD_BYTES < s.length then env.truncated s else s

/-- `ingest`. -/
def PipelineRaw.ingest (now : UInt64) (raw : PipelineRaw) (g : Gateway) : PipelineRaw × Gateway :=
  let (rawId, g) := g.rawIdOr raw.rawId
  ({ raw with rawId := rawId, receiveTimestamp := Gateway.floatOr raw.receiveTimestamp now }, g)

namespace Desk

/-! ## One event at the desk -/

/-- The event that stands for one that is rejected. -/
def fakeEvent (raw : PipelineRaw) (reasonCode : Reason) : PipelineEvent where
  -- an ingested event has an id
  eventId := raw.rawId
  instrumentId :=
    match raw.payload.toDict with
    | some p => env.gateway.text ((p.get? "instrument").getD (.str "MALFORMED"))
    | none => "MALFORMED"
  eventType := none
  exchangeTimestamp := Gateway.floatOr raw.receiveTimestamp 0
  receiveTimestamp := raw.receiveTimestamp
  processingTimestamp := env.now
  source := raw.source
  sequenceNumber := none
  price := none
  quantity := none
  bidPrice := none
  bidSize := none
  askPrice := none
  askSize := none
  qualityStatus := .invalid
  reasons := [reasonCode.value]
  rawId := raw.rawId
  sourceId := -1
  instrumentIdInt := -1
  sessionId := none
  venue := .str "XNAS"
  currency := .str "USD"
  clockSource := "HOST_SYS_CLOCK"
  sourceKind := "LIVE"

/-- `_create_quarantined_event`, of an event that is ingested. -/
def createQuarantinedEvent (raw : PipelineRaw) (reasonMsg lineageDesc : String) (reasonCode : Reason) (d : Desk V M W) :
    PipelineEvent × Desk V M W :=
  let fake := fakeEvent env raw reasonCode
  (fake, { d with
    quarantine := d.quarantine ++ [{
      eventId := fake.eventId
      instrumentId := fake.instrumentId
      source := fake.source
      qualityStatus := fake.qualityStatus
      reasons := [reasonMsg]
      rawPayload := safePayloadJson env raw.payload
      receiveTimestamp := raw.receiveTimestamp }]
    lineage := d.lineage ++ [{
      eventId := fake.eventId
      instrumentId := fake.instrumentId
      rawIds := [fake.rawId]
      rawId := fake.rawId
      transformations := TRANSFORMATIONS false
      validationsRun := VALIDATIONS_RUN
      disagreement := false
      reason := lineageDesc
      source := fake.source
      codeVersion := env.codeVersion
      processingTimestamp := fake.processingTimestamp }]
    reliability := d.reliability.observe env.reconcile fake
    watchdog := env.watch fake d.watchdog })

/-- The payload an evaluated event goes with: the one it is given, or else the one that is kept for it. -/
def payloadOf (event : PipelineEvent) (rawPayload : RawPayload) (d : Desk V M W) : RawPayload :=
  match rawPayload with
  | .none => (d.pendingRawPayloads.get? event.rawId).getD (.dict .empty)
  | payload => payload

/-- What a decision puts on an event. -/
def annotate (decision : Option CanonicalDecision) (event : PipelineEvent) : PipelineEvent :=
  match decision with
  | none => event
  | some decision =>
    if decision.qualityReasons = [] then event
    else
      { event with
        reasons := event.reasons ++ decision.qualityReasons
        qualityStatus := if event.qualityStatus = .valid then .suspicious else event.qualityStatus }

/-- The lineage of an event that was evaluated. -/
def lineageRow (event : PipelineEvent) (decision : Option CanonicalDecision) : PipelineLineageRow where
  eventId := event.eventId
  instrumentId := event.instrumentId
  rawIds := [event.rawId]
  rawId := event.rawId
  transformations := TRANSFORMATIONS decision.isSome
  validationsRun := VALIDATIONS_RUN
  disagreement := (decision.map (·.disagreement)).getD false
  reason := (decision.map (·.reason)).getD "single-source / no reconciliation needed"
  source := (decision.map (·.chosenSource)).getD event.source
  codeVersion := env.codeVersion
  processingTimestamp := event.processingTimestamp

/-- `_dispatch_evaluated`. -/
def dispatchEvaluated (event : PipelineEvent) (rawPayload : RawPayload) (d : Desk V M W) : PipelineEvent × Desk V M W :=
  let payload := payloadOf event rawPayload d
  let event := { event with processingTimestamp := env.now }
  let (decision, reconciler) := d.reconciler.reconcile env.reconcile d.reliability.cachedScores event
  let event := annotate decision event
  (event, {
    reconciler := reconciler
    reliability := d.reliability.observe env.reconcile event
    market := env.observeMarket event d.market
    watchdog := env.watch event d.watchdog
    pendingRawPayloads := d.pendingRawPayloads.erase event.rawId
    canonical := if event.qualityStatus = .invalid then d.canonical else d.canonical ++ [event]
    quarantine :=
      if event.qualityStatus = .valid then d.quarantine
      else
        d.quarantine ++ [{
          eventId := event.eventId
          instrumentId := event.instrumentId
          source := event.source
          qualityStatus := event.qualityStatus
          reasons := event.reasons
          rawPayload := safePayloadJson env payload
          receiveTimestamp := event.receiveTimestamp }]
    lineage := d.lineage ++ [lineageRow env event decision] })

/-- An event that was evaluated, if it was not held back. -/
def dispatchAny (event : Option PipelineEvent) (rawPayload : RawPayload) (d : Desk V M W) : Option PipelineEvent × Desk V M W :=
  match event with
  | none => (none, d)
  | some event =>
    let (event, d) := dispatchEvaluated env event rawPayload d
    (some event, d)

/-- Events that are drained, one after the other. -/
def dispatchAll : List PipelineEvent → Desk V M W → List PipelineEvent × Desk V M W
  | [], d => ([], d)
  | ev :: evs, d =>
    let (ev, d) := dispatchEvaluated env ev .none d
    let (evs, d) := dispatchAll evs d
    (ev :: evs, d)

end Desk

namespace Pipeline

/-! ## One event -/

/-- Work at the desk. -/
def atDesk {α : Type} (f : Desk V M W → α × Desk V M W) : PipelineM V Q M W α := fun st =>
  let (a, d) := f st.desk
  (.ok a, { st with desk := d })

/-- What the gateway makes of a raw event: the event as ingested, and the event that `normalize` makes of it or why there is none. -/
def take (gateway : GatewayEnv) (now : UInt64) (raw : PipelineRaw) (g : Gateway) :
    (PipelineRaw × Except GatewayError GatewayEvent) × Gateway :=
  let (raw, g) := raw.ingest now g
  let (result, g) := Gateway.normalize gateway now raw.toGateway g
  ((raw, result), g)

/-- Ingest and normalise an event; what is not a violation of the schema is raised. -/
def intake (raw : PipelineRaw) : PipelineM V Q M W (PipelineRaw × Option PipelineEvent) := fun st =>
  let ((raw, result), g) := take env.gateway env.now raw st.gateway
  let st := { st with gateway := g }
  match result with
  | .ok event => (.ok (raw, some event.toPipeline), st)
  | .error (.schema _) => (.ok (raw, none), st)
  | .error .overflow => (.error ⟨"OverflowError", "int too large to convert to float"⟩, st)
  | .error (.unprintable name) => (.error ⟨name, ""⟩, st)

/-- `is_bp_drop`. -/
def isBpDrop (raw : PipelineRaw) : Bool :=
  match raw.payload.toDict with
  | some p => p.get? "drop_reason" = some (.str "BACKPRESSURE_DROP") ∨ p.get? "event_type" = some (.str "TOMBSTONE_DROPPED")
  | none => false

/-- How `process_one` rejects an event. -/
def reject (raw : PipelineRaw) : Desk V M W → PipelineEvent × Desk V M W :=
  if isBpDrop raw then
    Desk.createQuarantinedEvent env raw "Backpressure drop tombstone" "quarantined (backpressure drop)" .backpressureDrop
  else Desk.createQuarantinedEvent env raw "Schema violation" "quarantined (schema error)" .schemaViolation

/-- Work at the quality engine. -/
def atQuality {α : Type} (m : Proc Q PyError α) : PipelineM V Q M W α := fun st =>
  let (result, q) := m st.quality
  (result, { st with quality := q })

/-- Evaluate an event; what is raised is passed on. -/
def evaluate (event : PipelineEvent) : Proc Q PyError (Option PipelineEvent) := fun q =>
  match env.quality.evaluate event q with
  | (.ok event, q) => (.ok event, q)
  | (.error (e, _), q) => (.error e, q)

/-- `drain_expired`, of an engine that has it. -/
def drainExpired : Proc Q PyError (List PipelineEvent) := env.quality.drainExpired.getD (pure [])

/-- Drain the engine, and dispatch what comes. -/
def drain : PipelineM V Q M W (List PipelineEvent) := do
  let evs ← atQuality (drainExpired env)
  atDesk (Desk.dispatchAll env evs)

/-- `process_one`. -/
def processOne (raw : PipelineRaw) : PipelineM V Q M W (Option PipelineEvent) := do
  let (raw, event) ← intake env raw
  match event with
  | none =>
    let fake ← atDesk (reject env raw)
    return some fake
  | some event =>
    atDesk (fun d => ((), { d with pendingRawPayloads := d.pendingRawPayloads.set event.rawId raw.payload }))
    let event ← atQuality (evaluate env event)
    let result ← atDesk (Desk.dispatchAny env event raw.payload)
    let _ ← drain env
    return result

/-- The events of a list, one after the other. -/
def processEach : List PipelineRaw → PipelineM V Q M W (List (Option PipelineEvent))
  | [] => pure []
  | raw :: raws => do
    let ev ← processOne env raw
    let evs ← processEach raws
    return ev :: evs

/-! ## A batch -/

/-- The results of a batch by their index. -/
abbrev Results := Nat → Option PipelineEvent

/-- A result at its index. -/
def setResult (results : Results) (idx : Nat) (event : PipelineEvent) : Results := Function.update results idx (some event)

/-- An event of a batch that the gateway accepted: its index, the event as it was ingested, and what the gateway made of it. -/
structure Admitted where
  idx : Nat
  raw : PipelineRaw
  event : PipelineEvent

/-- The first loop of `process_batch`: the raw events as they are ingested, the ones that are admitted, and the results so far. -/
def admitAll : List (PipelineRaw × Nat) → Results → PipelineM V Q M W (List (PipelineRaw × Nat) × List Admitted × Results)
  | [], results => pure ([], [], results)
  | (raw, idx) :: raws, results => do
    let (raw, event) ← intake env raw
    match event with
    | none =>
      let fake ← atDesk (Desk.createQuarantinedEvent env raw "Schema violation" "quarantined (schema error)" .schemaViolation)
      let (raws, admitted, results) ← admitAll raws (setResult results idx fake)
      return ((raw, idx) :: raws, admitted, results)
    | some event =>
      let (raws, admitted, results) ← admitAll raws results
      return ((raw, idx) :: raws, ⟨idx, raw, event⟩ :: admitted, results)

/-- Evaluate events one by one. -/
def evaluateEach : List PipelineEvent → Proc Q PyError (List (Option PipelineEvent))
  | [] => pure []
  | ev :: evs => do
    let ev ← evaluate env ev
    let evs ← evaluateEach evs
    return ev :: evs

/-- An event that the engine raised for: it is invalid, and goes on. -/
def poisoned (ev : PipelineEvent) : PipelineEvent :=
  { ev with qualityStatus := .invalid, reasons := ev.reasons ++ [Reason.malformed.value] }

/-- Evaluate events one by one, after the batch has failed. -/
def bisect : List PipelineEvent → Proc Q PyError (List (Option PipelineEvent))
  | [] => pure []
  | ev :: evs => do
    let ev ← fun q =>
      match env.quality.evaluate ev q with
      | (.ok ev, q) => (.ok ev, q)
      | (.error (_, ev), q) => (.ok (some (poisoned ev)), q)
    let evs ← bisect evs
    return ev :: evs

/-- The evaluation of a batch, by the engine's own method for it where it has one. -/
def evaluateAll (evs : List PipelineEvent) : Proc Q PyError (List (Option PipelineEvent)) :=
  match env.quality.evaluateBatch with
  | none => evaluateEach env evs
  | some batch => fun q =>
    match batch evs q with
    | (.ok evs, q) => (.ok evs, q)
    | (.error (_, evs), q) => bisect env evs q

/-- The evaluation of what is admitted, if anything is. -/
def evaluateAdmitted (admitted : List Admitted) : PipelineM V Q M W (List (Option PipelineEvent)) :=
  if admitted = [] then pure [] else atQuality (evaluateAll env (admitted.map (·.event)))

/-- The last loop of `process_batch`, over the events that the engine has handed back. -/
def dispatchPairs : List (Admitted × Option PipelineEvent) → Results → PipelineM V Q M W Results
  | [], results => pure results
  | (_, none) :: pairs, results => dispatchPairs pairs results
  | (admitted, some event) :: pairs, results => do
    let event ← atDesk (Desk.dispatchEvaluated env event admitted.raw.payload)
    dispatchPairs pairs (setResult results admitted.idx event)

/-- The slots that are still empty are filled, where results have to align with the events. -/
def fillSlots : List (PipelineRaw × Nat) → Results → PipelineM V Q M W Results
  | [], results => pure results
  | (raw, idx) :: raws, results =>
    match results idx with
    | some _ => fillSlots raws results
    | none => do
      let fake ← atDesk (Desk.createQuarantinedEvent env raw "Processing error: unhandled event failure"
        "quarantined (unhandled pipeline failure)" .malformed)
      fillSlots raws (setResult results idx fake)

/-- The results in the order of the events. -/
def resultList (raws : List (PipelineRaw × Nat)) (results : Results) : List PipelineEvent :=
  raws.filterMap (fun raw => results raw.2)

/-- `process_batch`. -/
def processBatch (strictAlign : Bool) (rawEvents : List PipelineRaw) : PipelineM V Q M W (List PipelineEvent) :=
  if rawEvents = [] then pure []
  else do
    let (raws, admitted, results) ← admitAll env rawEvents.zipIdx (fun _ => none)
    let evaluated ← evaluateAdmitted env admitted
    let results ← dispatchPairs env (admitted.zip evaluated) results
    let drained ← drain env
    if strictAlign then
      let results ← fillSlots env raws results
      return resultList raws results
    else return resultList raws results ++ drained

end Pipeline

end Mdrap

/-!
## The pipeline's quality engine

`QualityEngine` as the pipeline uses it. The engine hands over events by their number; the events themselves are kept beside it.
-/

namespace Mdrap

open Lib

variable {V : Type}

/-- `QualityEngine`, with the events it was given so far. -/
structure PythonQuality (V : Type) where
  engine : QualityEngine V
  objects : List PipelineEvent

namespace PythonQuality

/-- A new engine. -/
def new : PythonQuality V := ⟨QualityEngine.new, []⟩

/-- An event as the engine reads it; a venue that is no text is none of those it knows. -/
def toMarket (num : UInt64 → V) (object : Nat) (ev : PipelineEvent) : MarketEvent V where
  object := object
  source := ev.source
  instrumentId := ev.instrumentId
  eventType := ev.eventType
  exchangeTimestamp := num ev.exchangeTimestamp
  receiveTimestamp := num ev.receiveTimestamp
  sequenceNumber := ev.sequenceNumber
  price := ev.price.map num
  quantity := ev.quantity.map num
  bidPrice := ev.bidPrice.map num
  askPrice := ev.askPrice.map num
  bidSize := ev.bidSize.map num
  askSize := ev.askSize.map num
  sessionId := ev.sessionId
  venue :=
    match ev.venue with
    | .str s => s
    | _ => ""
  qualityStatus := ev.qualityStatus
  reasons := ev.reasons

/-- An event with the marks that the engine has put on it. -/
def marked (ev : PipelineEvent) (m : MarketEvent V) : PipelineEvent :=
  { ev with qualityStatus := m.qualityStatus, reasons := m.reasons }

variable (F : Floats V) (s : QualitySetup V) (num : UInt64 → V) (now : V)

/-- `evaluate`. The engine has no method for a batch, so nothing reads the marks of an event that it raises for. -/
def evaluate (ev : PipelineEvent) : Proc (PythonQuality V) (PyError × PipelineEvent) (Option PipelineEvent) := fun q =>
  match QualityEngine.evaluate F s now (toMarket num q.objects.length ev) q.engine with
  | (.ok m, engine) => (.ok (m.map (marked ev)), ⟨engine, q.objects ++ [ev]⟩)
  | (.error e, engine) => (.error (e, ev), ⟨engine, q.objects ++ [ev]⟩)

/-- `drain_expired`. -/
def drainExpired : Proc (PythonQuality V) PyError (List PipelineEvent) := fun q =>
  match QualityEngine.drainExpired F s now false q.engine with
  | (.ok ms, engine) => (.ok (ms.filterMap (fun m => q.objects[m.object]?.map (marked · m))), ⟨engine, q.objects⟩)
  | (.error e, engine) => (.error e, ⟨engine, q.objects⟩)

/-- The engine, for the pipeline. -/
def evaluator : QualityEvaluator (PythonQuality V) where
  evaluate := evaluate F s num now
  evaluateBatch := none
  drainExpired := some (drainExpired F s now)
  evaluate_rawId := by
    intro ev q ev' h
    unfold evaluate at h
    split at h
    · obtain ⟨m, -, rfl⟩ := Option.map_eq_some_iff.mp (Except.ok.inj h)
      rfl
    · cases h

end PythonQuality

end Mdrap
