import Mdrap.Engine.State

/-!
# The stages of a step

An event passes through a row of stages: the checks of its fields, the epoch of its stream, its place in the sequence or among the
events without a sequence number, its age and its quote, its price against the window of prices before it, and the quotes and
prices of the other feeds. Each stage works on the state and on the journal, may worsen the status and may add a reason.

What the engine asks of its security object, where it has one, is a parameter. The text of a message is as the engine writes it.
-/

namespace Mdrap

open Lib

variable {V : Type}

/-- A piece of a step. -/
abbrev StepM (V : Type) : Type → Type := Proc (Work V) PyError

/-- `session_policy`. -/
inductive SessionPolicy where
  | strict
  | sessionMarker
  | autoDetect
  deriving DecidableEq

def DEFAULT_PRICE_WINDOW : Nat := 50

def DEFAULT_DEDUP_WINDOW_SIZE : Nat := 10000

def SEQUENCE_BITMAP_BITS : Int := 64

def SEQUENCE_BITMAP_MASK : Nat := 0xFFFFFFFFFFFFFFFF

def DEFAULT_SEQ_JUMP_LIMIT : Int := 1000

def DEFAULT_PRICE_RESEED_AFTER : Nat := 8

/-! ## Statements -/

/-- Look at the state. -/
def look {α : Type} (f : EngineState V → α) : StepM V α := Proc.read (fun w => f w.state)

/-- Change the state. -/
def update (f : EngineState V → EngineState V) : StepM V Unit := Proc.modify (fun w => { w with state := f w.state })

/-- Write an entry into the journal. -/
def record (a : EngineState V → UndoAction V) : StepM V Unit :=
  Proc.modify (fun w => { w with journal := a w.state :: w.journal })

/-- `record_event_count`. -/
def recordEventCount : StepM V Unit := do
  record (fun s => .eventCount s.eventCount)
  record (fun s => .observedCount s.observedCount)
  record (fun s => .lastAppliedOffset s.lastAppliedOffset)

/-- `record_count`. -/
def recordCount (status : QualityStatus) : StepM V Unit := record (fun s => .count status (s.counts.get status))

/-- `record_sequence`. -/
def recordSequence (key : String) : StepM V Unit := do
  record (fun s => .sequenceState key (s.sequenceState.get? key))
  record (fun s => .sequenceSeen key (s.sequenceSeen.get? key))
  record (fun s => .sequenceCand key (s.sequenceCand.get? key))
  record (fun s => .sequenceRegress key (s.sequenceRegress.get? key))

/-- `record_price_window`. -/
def recordPriceWindow (key : String) : StepM V Unit := do
  record (fun s => .priceWindow key (s.priceWindows.get? key))
  record (fun s => .priceAnom key (s.priceAnom.get? key))
  record (fun s => .priceStats key (s.priceStats.get? key))

/-- `record_epoch`. -/
def recordEpoch (key : String) : StepM V Unit := do
  record (fun s => .epochState key (s.epochState.get? key))
  record (fun s => .epochTs key (s.epochTs.get? key))
  record (fun s => .sessionState key (s.sessionState.get? key))

/-- `record_bbo`. -/
def recordBbo (instrument source : String) : StepM V Unit :=
  record (fun s => .bbo instrument source (s.bboState.contains instrument) ((s.bboState.get? instrument).bind (·.get? source)))

/-- `record_reconciliation`. -/
def recordReconciliation (instrument source : String) : StepM V Unit :=
  record (fun s => .recon instrument source (s.reconciliationState.contains instrument)
    ((s.reconciliationState.get? instrument).bind (·.get? source)))

/-- One more decision of a status. -/
def bumpCount (status : QualityStatus) : StepM V Unit := do
  recordCount status
  update (fun s => { s with counts := s.counts.set status (s.counts.get status + 1) })

/-! ## Fields -/

/-- The source of an event. -/
def RawEvent.sourceText (P : Py V) (raw : RawEvent) : String :=
  match raw.source with
  | .str s => s
  | j => P.str j

/-- `_is_finite_num`. -/
def isFiniteNum : Json → Bool
  | .float (.dec _) => true
  | .int n => n.natAbs < 2 ^ 1024
  | _ => false

/-- White space, as `str.strip` knows it. -/
def isSpace (c : Char) : Bool :=
  [9, 10, 11, 12, 13, 28, 29, 30, 31, 32, 133, 160, 5760, 8232, 8233, 8239, 8287, 12288].contains c.toNat ||
    (8192 ≤ c.toNat && c.toNat ≤ 8202)

/-- `str.strip`. -/
def strip (cs : List Char) : List Char := ((cs.dropWhile isSpace).reverse.dropWhile isSpace).reverse

/-- `str.upper`, as far as it leads to one of the letters from A to Z: beside the small letters of ASCII these are the dotless i,
the long s and the ligatures. -/
def upperChar (c : Char) : List Char :=
  if c = 'ı' then ['I'] else if c = 'ſ' then ['S'] else if c = 'ß' then ['S', 'S']
  else if c = 'ﬀ' then ['F', 'F'] else if c = 'ﬁ' then ['F', 'I'] else if c = 'ﬂ' then ['F', 'L']
  else if c = 'ﬃ' then ['F', 'F', 'I'] else if c = 'ﬄ' then ['F', 'F', 'L'] else if c = 'ﬅ' then ['S', 'T']
  else if c = 'ﬆ' then ['S', 'T'] else [c.toUpper]

/-- The event type a text stands for. -/
def eventTypeOf (j : Json) : Option EventType :=
  match j with
  | .str s =>
    let word := String.ofList ((strip s.toList).flatMap upperChar)
    if word = "TRADE" then some .trade
    else if word = "QUOTE" then some .quote
    else if word = "HALT" then some .halt
    else if word = "STATUS" then some .status
    else none
  | _ => none

/-- Equal to an integer, as Python compares a value with one. -/
def equalsInt (P : Py V) (j : Json) (n : Int) : Bool :=
  match P.num j, P.num (.int n) with
  | .ok x, .ok y => P.eq x y
  | _, _ => false

/-- A string that is equal to a word. -/
def isWord (j : Json) (word : String) : Bool :=
  match j with
  | .str s => s = word
  | _ => false

def Json.isTrue (j : Json) : Bool :=
  match j with
  | .bool b => b
  | _ => false

def Json.isNull : Json → Bool
  | .null => true
  | _ => false

/-- The first value that is true in Python's sense, or the last one. -/
def firstTruthy : List Json → Json
  | [] => .null
  | [j] => j
  | j :: js => if truthy j then j else firstTruthy js

/-- The events of a stream share a key. -/
def streamKey (source instrument : String) : String := source ++ ":" ++ instrument

/-- The key of an epoch of a stream: the first epoch has the key of the stream. -/
def slotKey (stream : String) (epoch : Nat) : String := if 0 < epoch then stream ++ ":" ++ toString epoch else stream

/-! ## Schema -/

/-- What the checks of the fields leave. -/
structure Fields (V : Type) where
  instrument : String
  eventType : EventType
  seq : Option Int
  exchTs : V

/-- The quarantine of an event whose fields do not pass. -/
def rejected (P : Py V) (raw : RawEvent) (offset : Int) (recvTs : Json) (instrument : Json) (reason : Reason) (message : String) :
    EngineDecision V :=
  .quarantined offset reason ⟨s!"q_{raw.sourceText P}_{offset}", instrument, raw.source, QualityStatus.invalid.value,
    jsonDumps (.arr [.str message]), jsonDumps raw.payload, recvTs⟩

/-! ## Security -/

/-- What the engine asks of its security object: what is wrong with a payload, whether a source has to sign, and whether a signature
is that of a payload. Any of it may raise. -/
structure Security where
  sanitizePayload : Json → Except PyError (Option String)
  hmacRequired : Json → Except PyError Bool
  verifyPayload : Json → Json → Json → Except PyError Bool

/-- `_stage_security_envelope`: the decision on an event that the security object turns away. -/
def stageSecurityEnvelope (P : Py V) (security : Option Security) (raw : RawEvent) (offset : Int) (recvTs : Json) :
    Except PyError (Option (EngineDecision V)) :=
  match security with
  | none => .ok none
  | some security => do
    match ← security.sanitizePayload raw.payload with
    | some err =>
      return some (.quarantined offset .malformed ⟨s!"q_{raw.sourceText P}_{offset}", .str "MALFORMED", raw.source,
        QualityStatus.invalid.value, jsonDumps (.arr [.str ("Payload failed security sanitization: " ++ err)]),
        jsonDumps (.str (P.str raw.payload)), recvTs⟩)
    | none =>
      if (← security.hmacRequired raw.source) || (raw.payload.get? "signature").isSome then
        if truthy (raw.payload.get "signature") then
          if ← security.verifyPayload raw.source raw.payload (raw.payload.get "signature") then return none
          else return some unsigned
        else return some unsigned
      else return none
where
  /-- The decision on an event without a good signature. -/
  unsigned : EngineDecision V :=
    rejected P raw offset recvTs (.str (match raw.payload.get? "instrument" with
      | none => "UNKNOWN"
      | some (.str s) => s
      | some j => P.str j)) .securityReject "Cryptographic HMAC verification failed: missing or tampered signature"

/-! ## Fields of the payload -/

/-- The first field that is neither missing nor a finite number. -/
def badNumber (payload : Json) : List String → Option String
  | [] => none
  | f :: fs => if !Json.isNull (payload.get f) && !isFiniteNum (payload.get f) then some f else badNumber payload fs

/-- `_stage_schema_validation`. -/
def stageSchemaValidation (P : Py V) (raw : RawEvent) (offset : Int) (recvTs : Json) :
    Except PyError (Except (EngineDecision V) (Fields V)) :=
  let payload := raw.payload
  let instrument := payload.get "instrument"
  let rawEventType := payload.get "event_type"
  let reject (name : Json) (reason : Reason) (message : String) : Except PyError (Except (EngineDecision V) (Fields V)) :=
    .ok (.error (rejected P raw offset recvTs name reason message))
  if isWord (payload.get "drop_reason") "BACKPRESSURE_DROP" || isWord rawEventType "TOMBSTONE_DROPPED" then
    reject (if truthy instrument then instrument else .str "UNKNOWN") .backpressureDrop
      "Event dropped due to ingress queue backpressure"
  else
    match instrument with
    | .str name =>
      if name = "" then reject (.str "UNKNOWN") .schemaViolation "Missing or invalid instrument string"
      else if Json.isNull rawEventType then reject instrument .schemaViolation "Missing required event_type field"
      else
        match eventTypeOf rawEventType with
        | none => reject instrument .schemaViolation ("Unknown or invalid event_type: " ++ P.repr rawEventType)
        | some eventType =>
          if eventType = .trade ∧ Json.isNull (payload.get "price") then
            reject instrument .schemaViolation "TRADE event requires price"
          else if eventType = .quote ∧ Json.isNull (payload.get "bid") ∧ Json.isNull (payload.get "ask") then
            reject instrument .schemaViolation "QUOTE event requires at least one of bid or ask"
          else
            match seqOf (payload.get "sequence") with
            | none => reject instrument .schemaViolation ("Sequence number out of range: " ++ P.str (payload.get "sequence"))
            | some seq =>
              if !Json.isNull (payload.get "exchange_ts") && !isFiniteNum (payload.get "exchange_ts") then
                reject instrument .schemaViolation ("Exchange timestamp not finite: " ++ P.str (payload.get "exchange_ts"))
              else
                match badNumber payload ["price", "quantity", "bid", "ask", "bid_size", "ask_size"] with
                | some f => reject instrument .schemaViolation ("Field " ++ f ++ " not a finite number: " ++ P.str (payload.get f))
                | none => do
                  let exchTs ← P.float (if Json.isNull (payload.get "exchange_ts") then recvTs else payload.get "exchange_ts")
                  return .ok ⟨name, eventType, seq, exchTs⟩
    | _ => reject (.str "UNKNOWN") .schemaViolation "Missing or invalid instrument string"
where
  /-- The sequence number, which may be missing, if it is an integer of 64 bits. -/
  seqOf : Json → Option (Option Int)
    | .null => some none
    | .int n => if -9223372036854775808 ≤ n ∧ n ≤ 9223372036854775807 then some (some n) else none
    | _ => none

/-! ## Sessions and epochs -/

/-- The epoch of an event. -/
structure Epoch where
  epoch : Nat
  stream : String
  slot : String
  session : Option String
  reset : Bool

/-- The jump back in time and in the sequence that `auto_detect` takes for a new session. -/
def restarted (P : Py V) (seq : Option Int) (last : Option Int) (exchTs : V) (lastTs : Option V) : Except PyError Bool :=
  match seq, last, lastTs with
  | some seq, some last, some lastTs =>
    if last - seq ≥ 50 ∨ (last > 10 ∧ seq ≤ 10) then do
      return P.le (P.dec 60 0) (← P.sub exchTs lastTs)
    else .ok false
  | _, _, _ => .ok false

/-- Whether an event starts a new epoch of its stream. -/
def epochReset (P : Py V) (policy : SessionPolicy) (payload : Json) (session : Option String) (currentSession : Option String)
    (currentEpoch : Nat) (seq last : Option Int) (exchTs : V) (lastTs : Option V) : Except PyError Bool :=
  if session.isSome ∧ currentSession.isSome ∧ session ≠ currentSession then .ok true
  else
    match policy with
    | .strict => .ok false
    | .sessionMarker =>
      .ok (Json.isTrue (payload.get "is_reset") || Json.isTrue (payload.get "reset") ||
        (!Json.isNull (payload.get "epoch_id") && !equalsInt P (payload.get "epoch_id") currentEpoch))
    | .autoDetect => restarted P seq last exchTs lastTs

/-- The session an event names. -/
def sessionOf (P : Py V) (raw : RawEvent) : Option String :=
  let j := if truthy raw.sessionId then raw.sessionId else raw.payload.get "session_id"
  if Json.isNull j then none else some (match j with
    | .str s => s
    | j => P.str j)

/-- `_stage_session_and_epoch`. -/
def stageSessionAndEpoch (P : Py V) (policy : SessionPolicy) (raw : RawEvent) (f : Fields V) : StepM V Epoch := do
  let stream := streamKey (raw.sourceText P) f.instrument
  let currentEpoch ← look (fun s => (s.epochState.get? stream).getD 0)
  let currentSession ← look (fun s => s.sessionState.get? stream)
  let lastTs ← look (fun s => s.epochTs.get? stream)
  let last ← look (fun s => s.sequenceState.get? (slotKey stream currentEpoch))
  let session := sessionOf P raw
  let reset ← Proc.lift (epochReset P policy raw.payload session currentSession currentEpoch f.seq last f.exchTs lastTs)
  let epoch := if reset then currentEpoch + 1 else currentEpoch
  noteSession stream session currentSession epoch reset
  noteTs stream f.exchTs lastTs reset
  return ⟨epoch, stream, slotKey stream epoch, session, reset⟩
where
  /-- The epoch that begins, and the session it belongs to. -/
  noteSession (stream : String) (session currentSession : Option String) (epoch : Nat) (reset : Bool) : StepM V Unit :=
    if reset then do
      recordEpoch stream
      update (fun s => { s with epochState := s.epochState.set stream epoch })
      match session with
      | some id => update (fun s => { s with sessionState := s.sessionState.set stream id })
      | none => pure ()
    else
      match session, currentSession with
      | some id, none => do
        record (fun s => .sessionState stream (s.sessionState.get? stream))
        update (fun s => { s with sessionState := s.sessionState.set stream id })
      | _, _ => pure ()
  /-- The time of the stream's last event. -/
  noteTs (stream : String) (exchTs : V) (lastTs : Option V) (reset : Bool) : StepM V Unit :=
    if lastTs.any (fun ts => P.eq ts exchTs) then pure ()
    else do
      if reset then pure () else record (fun s => .epochTs stream (s.epochTs.get? stream))
      update (fun s => { s with epochTs := s.epochTs.set stream exchTs })

/-! ## Sequence -/

/-- Do something for the epoch's key and, where it is another one, for the stream's key. -/
def forSlots (e : Epoch) (f : String → StepM V Unit) : StepM V Unit := do
  f e.slot
  if e.slot ≠ e.stream then f e.stream else pure ()

/-- What a stage finds: the status, the reasons, and whether it found what it looks for (a duplicate, or a disagreement). -/
structure Finding where
  status : QualityStatus
  reasons : List Reason
  flagged : Bool

/-- The first event of an epoch. -/
def seqFirst (e : Epoch) (seq : Int) : StepM V Unit := do
  forSlots e recordSequence
  forSlots e (fun k => update (fun s => { s with
    sequenceState := s.sequenceState.set k seq
    sequenceSeen := s.sequenceSeen.set k 1
    sequenceCand := s.sequenceCand.set k 0
    sequenceRegress := s.sequenceRegress.set k 0 }))

/-- A jump ahead beyond the limit: the second one near the first is believed. -/
def seqJump (e : Epoch) (seq candPlus1 : Int) : StepM V Unit :=
  if candPlus1 ≠ 0 ∧ seq > candPlus1 - 1 ∧ seq - (candPlus1 - 1) ≤ DEFAULT_SEQ_JUMP_LIMIT then do
    forSlots e recordSequence
    forSlots e (fun k => update (fun s => { s with
      sequenceState := s.sequenceState.set k seq
      sequenceSeen := s.sequenceSeen.set k 1
      sequenceCand := s.sequenceCand.set k 0 }))
  else do
    forSlots e (fun k => record (fun s => .sequenceCand k (s.sequenceCand.get? k)))
    forSlots e (fun k => update (fun s => { s with sequenceCand := s.sequenceCand.set k (seq + 1) }))

/-- The window of numbers seen, after a number that many places ahead. -/
def shiftSeen (seen : Nat) (jump : Int) : Nat :=
  if jump < SEQUENCE_BITMAP_BITS then (seen <<< jump.toNat ||| 1) &&& SEQUENCE_BITMAP_MASK else 1

/-- A number ahead, within the limit. -/
def seqAdvance (e : Epoch) (seq : Int) (seen : Nat) : StepM V Unit := do
  forSlots e recordSequence
  forSlots e (fun k => update (fun s => { s with
    sequenceState := s.sequenceState.set k seq
    sequenceSeen := s.sequenceSeen.set k seen
    sequenceCand := s.sequenceCand.set k 0 }))

/-- The gap before a number is opened, unless the log is replayed. -/
def openGaps (source instrument : String) (last seq : Int) (epoch : Nat) (recvTs : Json) (isReplay : Bool) : StepM V Unit :=
  if isReplay then pure ()
  else Proc.modify (fun w => { w with gaps := w.gaps.map (fun g => g.recordGap source instrument (last + 1) seq epoch recvTs) })

/-- A late number fills its gap, where a manager has it open. -/
def fillGap (source instrument : String) (seq : Int) (epoch : Nat) : StepM V Bool := do
  let filled ← Proc.read (fun w => w.gaps.any (fun g => (g.tryFill source instrument seq epoch).1))
  Proc.modify (fun w => { w with gaps := w.gaps.map (fun g => (g.tryFill source instrument seq epoch).2) })
  return filled

/-- A late number that is not seen yet. -/
def seqLate (e : Epoch) (seen : Nat) (d : Int) : StepM V Unit := do
  forSlots e (fun k => record (fun s => .sequenceSeen k (s.sequenceSeen.get? k)))
  forSlots e (fun k => update (fun s => { s with sequenceSeen := s.sequenceSeen.set k (seen ||| 1 <<< d.toNat) }))

/-- The list of numbers from before the window, with one more. -/
def pushStale (stale : List Int) (seq : Int) : List Int :=
  let stale := stale ++ [seq]
  if 64 < stale.length then stale.tail else stale

/-- The sequence starts again from a number far back. The list of old numbers is emptied where there is one. -/
def seqResync (e : Epoch) (seq : Int) : StepM V Unit := do
  forSlots e recordSequence
  forSlots e (fun k => update (fun s => { s with
    sequenceState := s.sequenceState.set k seq
    sequenceSeen := s.sequenceSeen.set k 1
    sequenceRegress := s.sequenceRegress.set k 0
    sequenceCand := s.sequenceCand.set k 0
    sequenceStaleSeen := if s.sequenceStaleSeen.contains k then s.sequenceStaleSeen.set k [] else s.sequenceStaleSeen }))

/-- A number from before the window is noted. The list of these is not in the journal. -/
def seqStale (e : Epoch) (seq : Int) (regress : Nat) (stale : List Int) : StepM V Unit := do
  forSlots e (fun k => record (fun s => .sequenceRegress k (s.sequenceRegress.get? k)))
  forSlots e (fun k => update (fun s => { s with sequenceRegress := s.sequenceRegress.set k regress }))
  update (fun s => { s with sequenceStaleSeen := s.sequenceStaleSeen.set e.slot (pushStale stale seq) })

/-- A number from before the window. -/
def seqBehind (e : Epoch) (seq d : Int) (regress : Nat) (status : QualityStatus) (reasons : List Reason) : StepM V Finding := do
  update (fun s => { s with sequenceStaleSeen := s.sequenceStaleSeen.set e.slot ((s.sequenceStaleSeen.get? e.slot).getD []) })
  let stale ← look (fun s => (s.sequenceStaleSeen.get? e.slot).getD [])
  if seq ∈ stale then return ⟨status.merge .invalid, reasons ++ [.duplicate, .outOfOrder], true⟩
  else do
    if d > DEFAULT_SEQ_JUMP_LIMIT then
      if 2 ≤ regress + 1 then seqResync e seq else seqStale e seq (regress + 1) stale
    else seqStale e seq 0 stale
    return ⟨status.merge .suspicious, reasons ++ [.outOfOrder], false⟩

/-- The place of an event with a sequence number. -/
def stageSequence (P : Py V) (raw : RawEvent) (instrument : String) (seq : Int) (recvTs : Json) (e : Epoch) (isReplay : Bool)
    (status : QualityStatus) (reasons : List Reason) : StepM V Finding := do
  let lastSeq ← look (fun s => s.sequenceState.get? e.slot)
  let seen ← look (fun s => (s.sequenceSeen.get? e.slot).getD 0)
  let candPlus1 ← look (fun s => (s.sequenceCand.get? e.slot).getD 0)
  let regress ← look (fun s => (s.sequenceRegress.get? e.slot).getD 0)
  match lastSeq with
  | none => do
    seqFirst e seq
    return ⟨status, reasons, false⟩
  | some last =>
    if seq > last then
      if seq - last > DEFAULT_SEQ_JUMP_LIMIT then do
        seqJump e seq candPlus1
        return ⟨status.merge .suspicious, reasons ++ [.sequenceGap], false⟩
      else if seq - last > 1 then do
        openGaps (raw.sourceText P) instrument last seq e.epoch recvTs isReplay
        seqAdvance e seq (shiftSeen seen (seq - last))
        return ⟨status.merge .suspicious, reasons ++ [.sequenceGap], false⟩
      else do
        seqAdvance e seq (shiftSeen seen (seq - last))
        return ⟨status, reasons, false⟩
    else if last - seq < SEQUENCE_BITMAP_BITS then
      if seen.testBit (last - seq).toNat then
        return ⟨status.merge .invalid, reasons ++ .duplicate :: (if last - seq > 0 then [.outOfOrder] else []), true⟩
      else do
        let filled ← fillGap (raw.sourceText P) instrument seq e.epoch
        seqLate e seen (last - seq)
        if filled then return ⟨status, reasons ++ [.gapFilled], false⟩
        else return ⟨status.merge .suspicious, reasons ++ [.outOfOrder], false⟩
    else seqBehind e seq (last - seq) regress status reasons

/-! ## Events without a sequence number -/

/-- The value of a number field. -/
def fieldValue (P : Py V) (payload : Json) (f : String) : Option V :=
  match P.num (payload.get f) with
  | .ok x => some x
  | .error _ => none

/-- What an event is known by: the first id it has, or its content. -/
def fingerprint (P : Py V) (raw : RawEvent) (f : Fields V) : Fingerprint V :=
  let bizId := firstTruthy (["trade_id", "msg_id", "message_id", "exec_id", "order_id", "id"].map raw.payload.get)
  if Json.isNull bizId then
    .content (raw.sourceText P) f.instrument f.eventType f.exchTs
      (["price", "quantity", "bid", "ask", "bid_size", "ask_size"].map (fieldValue P raw.payload))
  else
    .id (raw.sourceText P) f.instrument f.eventType ("id=" ++ match bizId with
      | .str s => s
      | j => P.str j)

/-- An event without a sequence number, which may have come before. -/
def stageDedup (P : Py V) (raw : RawEvent) (f : Fields V) (status : QualityStatus) (reasons : List Reason) : StepM V Finding := do
  let x := fingerprint P raw f
  if ← look (fun s => s.dedupSet.any (Fingerprint.same P x)) then
    return ⟨status.merge .invalid, reasons ++ [.duplicate], true⟩
  else do
    let evicted ← look (fun s => if DEFAULT_DEDUP_WINDOW_SIZE < s.dedupWindow.length + 1 then (s.dedupWindow ++ [x]).head? else none)
    update (fun s => { s with
      dedupSet := match evicted with
        | none => s.dedupSet ++ [x]
        | some y => (s.dedupSet ++ [x]).filter (fun z => !z.same P y)
      dedupWindow := match evicted with
        | none => s.dedupWindow ++ [x]
        | some _ => (s.dedupWindow ++ [x]).tail })
    record (fun _ => .dedup x evicted)
    return ⟨status, reasons, false⟩

/-- `_stage_sequence_and_dedup`. -/
def stageSequenceAndDedup (P : Py V) (raw : RawEvent) (f : Fields V) (recvTs : Json) (e : Epoch) (isReplay : Bool)
    (status : QualityStatus) (reasons : List Reason) : StepM V Finding :=
  match f.seq with
  | some seq => stageSequence P raw f.instrument seq recvTs e isReplay status reasons
  | none => stageDedup P raw f status reasons

/-! ## Age and quote -/

/-- `_stage_quote_and_staleness`. -/
def stageQuoteAndStaleness (P : Py V) (payload : Json) (f : Fields V) (recvTs : Json) (threshold : V) (status : QualityStatus)
    (reasons : List Reason) : Except PyError (QualityStatus × List Reason) := do
  let (status, reasons) ← staleness status reasons
  match fieldValue P payload "bid", fieldValue P payload "ask" with
  | some bid, some ask =>
    if P.lt ask bid then return (status.merge .invalid, reasons ++ [.crossedQuote]) else return (status, reasons)
  | _, _ => return (status, reasons)
where
  /-- An event that took too long is suspicious. -/
  staleness (status : QualityStatus) (reasons : List Reason) : Except PyError (QualityStatus × List Reason) :=
    if status ≠ .invalid ∧ f.eventType ≠ .halt ∧ f.eventType ≠ .status then do
      let age ← P.sub (← P.num recvTs) f.exchTs
      if P.lt threshold age then return (status.merge .suspicious, reasons ++ [.stale]) else return (status, reasons)
    else .ok (status, reasons)

end Mdrap
