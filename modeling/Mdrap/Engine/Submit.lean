import Mdrap.IngestLog.Log
import Mdrap.Engine.Step

/-!
# Submitting events

`submit` takes a list of events. It stamps them, turns away those whose payload is too large or no JSON value, logs the others in
one batch, and takes them through a step each, all in one transaction. An error of the log undoes the transaction.

The clock is fixed. What the log and the wall clock do during a call is an argument of it.
-/

namespace Mdrap

open Lib

variable {V : Type}

/-! ## The size of a payload -/

/-- The estimate for a member of a payload; a large container has none. -/
def estimateMember : Json → Option Nat
  | .str s => some (s.length + 2)
  | .arr xs => if xs.length ≤ 50 then some (2 + xs.length * 32) else none
  | .obj kvs => if kvs.length ≤ 20 then some (2 + kvs.length * 48) else none
  | .null | .bool _ | .int _ | .float _ => some 26

/-- `estimate_payload_size`, for a payload that is a JSON value. -/
def estimatePayloadSize (P : Py V) (payload : Json) (maxBytes : Int) : Nat :=
  match payload with
  | .str s => s.length
  | .obj kvs =>
    match (if kvs.length ≤ 32 then kvs.mapM (fun kv => (estimateMember kv.2).map (kv.1.length + 4 + ·)) else none) with
    | some sizes =>
      let est : Nat := 2 + sizes.sum
      if maxBytes ≤ 0 ∨ (est : Int) ≤ maxBytes then est else (jsonDumps payload).length
    | none => (jsonDumps payload).length
  | j => (P.str j).length

/-! ## The engine -/

/-- The configuration of an engine, as far as it matters to its events, with the time of its clock. -/
structure EngineConfig (V : Type) extends StepConfig V where
  stalenessThresholdS : V
  maxPayloadBytes : Int
  snapshotCadenceEvents : Int
  now : Json

/-- `Engine`, without its projections. -/
structure Engine (V : Type) where
  config : EngineConfig V
  state : EngineState V
  gaps : Option GapManager
  log : Option IngestLog
  observedRawCount : Nat
  rejectedCount : Nat
  lastSnapshotEventCount : Nat

/-- An engine that has seen nothing. -/
def Engine.new (c : EngineConfig V) (gaps : Option GapManager) (log : Option IngestLog) : Engine V where
  config := c
  state := .initial c.stalenessThresholdS
  gaps := gaps
  log := log
  observedRawCount := 0
  rejectedCount := 0
  lastSnapshotEventCount := 0

/-- An event that is handed in. Where its payload is no JSON value, the check of its size raises this. -/
structure Incoming where
  raw : RawEvent
  serError : Option String

/-- What the outside does during a call: the log's files and clock, and whether the time for a snapshot has come. -/
structure SubmitEnv where
  log : Env
  cadenceElapsed : Bool

/-- What `submit` returns, the offset it hands to the projections, and whether it takes a snapshot. -/
structure Submitted (V : Type) where
  decisions : List (EngineDecision V)
  dispatchOffset : Int
  snapshotDue : Bool

/-! ## Turning events away -/

/-- An event with the time it came in. -/
def RawEvent.stamped (raw : RawEvent) (now : Json) : RawEvent := { raw with receiveTimestamp := raw.recvTs now }

/-- An event with an id: its own, or one made of its offset. -/
def RawEvent.named (P : Py V) (raw : RawEvent) (offset : Nat) : RawEvent :=
  if truthy raw.rawId then raw else { raw with rawId := .str s!"raw_{raw.sourceText P}_{offset}" }

/-- The decision on an event that is turned away, the `n`-th the engine has seen. -/
def turnedAway (P : Py V) (raw : RawEvent) (n : Nat) (instrument message : String) (detail : Json) : EngineDecision V :=
  .quarantined (-1) .schemaViolation ⟨s!"q_{raw.sourceText P}_{n}", .str instrument, raw.source, QualityStatus.invalid.value,
    jsonDumps (.arr [.str message]), jsonDumps detail, raw.receiveTimestamp⟩

/-- The check at the engine's boundary. -/
def turnAway (c : EngineConfig V) (x : Incoming) (n : Nat) : Option (EngineDecision V) :=
  let raw := x.raw.stamped c.now
  if 0 < c.maxPayloadBytes then
    match x.serError with
    | some err =>
      some (turnedAway c.py raw n "CORRUPT_PAYLOAD" s!"Payload serialization failed: {err}" (.obj [("error", .str err)]))
    | none =>
      let size := estimatePayloadSize c.py raw.payload c.maxPayloadBytes
      if c.maxPayloadBytes < size then
        some (turnedAway c.py raw n "OVERSIZE" s!"Payload size {size} bytes exceeds limit {c.maxPayloadBytes} bytes"
          (.obj [("size", .int size), ("truncated", .str (String.ofList ((c.py.str raw.payload).toList.take 256)))]))
      else none
  else none

/-- The events of a list after `n` others, the accepted ones with an id that counts on from `base`. -/
def screen (c : EngineConfig V) : List Incoming → Nat → Nat → List (Except (EngineDecision V) RawEvent)
  | [], _, _ => []
  | x :: xs, n, base =>
    match turnAway c x (n + 1) with
    | some d => .error d :: screen c xs (n + 1) base
    | none => .ok ((x.raw.stamped c.now).named c.py base) :: screen c xs (n + 1) (base + 1)

/-- The accepted events. -/
def accepted (xs : List (Except (EngineDecision V) RawEvent)) : List RawEvent := xs.filterMap Except.toOption

/-- The decisions of all events in their order, from those of the accepted ones. -/
def merge : List (Except (EngineDecision V) RawEvent) → List (EngineDecision V) → List (EngineDecision V)
  | [], _ => []
  | .error d :: xs, ds => d :: merge xs ds
  | .ok _ :: xs, d :: ds => d :: merge xs ds
  | .ok _ :: xs, [] => merge xs []

/-- The offset of the last event of the list, which one that is turned away does not have. -/
def lastOffset (xs : List (Except (EngineDecision V) RawEvent)) (offsets : List Int) : Int :=
  match xs.getLast? with
  | some (.ok _) => offsets.getLast?.getD (-1)
  | _ => -1

/-! ## Submitting -/

/-- Every event is counted, whatever becomes of it. -/
def observe : Nat → StepM V Unit
  | 0 => pure ()
  | n + 1 => do
    recordEventCount
    update (fun s => { s with observedCount := s.observedCount + 1 })
    observe n

/-- The offsets of events that are not logged. -/
def unloggedStart (s : EngineState V) : Int := if 0 ≤ s.lastAppliedOffset then s.lastAppliedOffset + 1 else s.eventCount

/-- The accepted events get their offsets: from the log, or from the state. -/
def allocate (log : Option IngestLog) (s : EngineState V) (events : List RawEvent) (env : Env) :
    Except IngestLogError (List Int) × Option IngestLog :=
  match log with
  | none => (.ok ((List.range events.length).map (fun (i : Nat) => unloggedStart s + i)), none)
  | some log =>
    if events = [] then (.ok [], some log)
    else
      match log.appendBatch (events.map .event) env with
      | (.ok offsets, log) => (.ok (offsets.map Int.ofNat), some log)
      | (.error err, log) => (.error err, some log)

/-- Whether a decision is durable. -/
def isDurable (log : Option IngestLog) (d : EngineDecision V) : Bool :=
  match log with
  | none => false
  | some log => log.config.fsyncPolicy ≠ .never ∧ (0 ≤ d.offset → d.offset ≤ log.syncedOffset)

/-- Whether a snapshot is due. -/
def cadenceDue (e : Engine V) (elapsed : Bool) : Bool :=
  e.log.isSome && ((0 < e.config.snapshotCadenceEvents &&
    e.config.snapshotCadenceEvents ≤ (e.state.eventCount : Int) - e.lastSnapshotEventCount) || elapsed)

namespace Engine

/-- The offset the ids of the accepted events count on from. -/
def idBase (e : Engine V) : Nat :=
  match e.log with
  | none => e.state.eventCount
  | some log => log.nextOffset

/-- `submit`, up to the point where the projections are served. -/
def submit (e : Engine V) (xs : List Incoming) (env : SubmitEnv) : Except IngestLogError (Submitted V) × Engine V :=
  if xs = [] then (.ok ⟨[], -1, false⟩, e)
  else
    let w := (observe xs.length ⟨e.state, [], e.gaps⟩).2
    let screened := screen e.config xs e.observedRawCount e.idBase
    let events := accepted screened
    let seen := { e with
      observedRawCount := e.observedRawCount + xs.length
      rejectedCount := e.rejectedCount + (xs.length - events.length) }
    match allocate e.log e.state events env.log with
    | (.error err, log) => (.error err, { seen with state := (w.rollbackTo e.config.py 0).state, log := log })
    | (.ok offsets, log) =>
      let (ds, w) := stepBatch e.config.toStepConfig e.config.now (events.zip offsets) w
      let done := { seen with state := w.state, gaps := w.gaps, log := log }
      let due := cadenceDue done env.cadenceElapsed
      (.ok ⟨(merge screened ds).map (fun d => { d with durable := isDurable log d }), lastOffset screened offsets, due⟩,
        { done with lastSnapshotEventCount := if due then done.state.eventCount else done.lastSnapshotEventCount })

end Engine

end Mdrap
