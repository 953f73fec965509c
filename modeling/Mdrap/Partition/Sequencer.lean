import Mathlib.Data.Char
import Mathlib.Data.List.Lex
import Mathlib.Data.Finset.Image
import Mathlib.Order.Interval.Finset.Basic
import Mathlib.Data.Int.Interval
import Mdrap.Engine.Types
import Mdrap.Lib.Runs
import Mdrap.Engine.Stages
import Mdrap.Lib.Digest

/-!
# The sequencer of a channel

`ChannelIngressSequencer` compares the number of an event with the one it expects next on its channel, before events are routed by their
symbols. It keeps the last number and the current session only. A run lists beside it the numbers that were received in each session,
those that verdicts of a gap have skipped, and the events that were called duplicates and were none.
-/

namespace Mdrap

/-- The members of a payload that the sequencer reads. -/
structure ChannelPayload where
  sequence : Option Int
  sessionId : Option String
  instrument : Option String
  symbol : Option String

/-- What the sequencer reads of an event; a payload that is no dictionary is none. -/
structure ChannelEvent where
  sequenceNumber : Option Int
  sessionId : Option String
  source : Option String
  instrumentId : Option String
  instrument : Option String
  payload : Option ChannelPayload

/-- What `record_gap` is called with. -/
structure ChannelGap where
  source : String
  instrument : String
  expectedStart : Int
  receivedSeq : Int
  epoch : Option String
  deriving DecidableEq

/-- `ChannelIngressSequencer`. -/
structure ChannelIngressSequencer where
  channelId : String
  hasGapManager : Bool
  lastSequence : Option Int
  expectedSequence : Option Int
  currentSessionId : Option String
  totalReceived : Nat
  inOrderCount : Nat
  gapsDetected : Nat
  missingEventsCount : Int
  duplicatesDetected : Nat
  outOfOrderCount : Nat
  resetsDetected : Nat

/-- What `verify_sequence` returns, and the gap it records. -/
structure ChannelVerdict where
  status : QualityStatus
  reason : Option Reason
  gap : Option ChannelGap

namespace ChannelEvent

/-- `seq`. -/
def seq (e : ChannelEvent) : Option Int := e.sequenceNumber.or (e.payload.bind (·.sequence))

/-- `sess_str`. -/
def session (e : ChannelEvent) : String := (e.sessionId.or (e.payload.bind (·.sessionId))).getD "SESSION_0"

/-- A text that is not empty. -/
def nonEmpty (s : Option String) : Option String := s.filter (· ≠ "")

/-- `inst`. -/
def inst (e : ChannelEvent) : String :=
  let own := (nonEmpty e.instrumentId).or e.instrument
  match e.payload with
  | none => own.getD ""
  | some p => ((nonEmpty own).or ((nonEmpty p.instrument).or p.symbol)).getD ""

/-- The number of an event in its session. -/
def key (e : ChannelEvent) : Option (String × Int) := e.seq.map (fun n => (e.session, n))

end ChannelEvent

namespace ChannelIngressSequencer

def new (channelId : String) (hasGapManager : Bool) : ChannelIngressSequencer :=
  ⟨channelId, hasGapManager, none, none, none, 0, 0, 0, 0, 0, 0, 0⟩

/-- The next number follows this one. -/
def anchor (s : ChannelIngressSequencer) (seq : Int) : ChannelIngressSequencer :=
  { s with lastSequence := some seq, expectedSequence := some (seq + 1) }

/-- `VALID`, and the event is counted as one in order. -/
def inOrder (s : ChannelIngressSequencer) (seq : Int) : ChannelVerdict × ChannelIngressSequencer :=
  (⟨.valid, none, none⟩, { s.anchor seq with inOrderCount := s.inOrderCount + 1 })

/-- `verify_sequence`. -/
def verifySequence (s : ChannelIngressSequencer) (e : ChannelEvent) : ChannelVerdict × ChannelIngressSequencer :=
  let s := { s with totalReceived := s.totalReceived + 1 }
  match e.seq with
  | none => (⟨.valid, none, none⟩, s)
  | some seq =>
    let sess := e.session
    if s.currentSessionId ≠ none ∧ s.currentSessionId ≠ some sess then
      { s with resetsDetected := s.resetsDetected + 1, currentSessionId := some sess }.inOrder seq
    else
      let s := { s with currentSessionId := some (s.currentSessionId.getD sess) }
      match s.expectedSequence with
      | none => s.inOrder seq
      | some expected =>
        if seq = expected then s.inOrder seq
        else if some seq = s.lastSequence then
          (⟨.suspicious, some .duplicate, none⟩, { s with duplicatesDetected := s.duplicatesDetected + 1 })
        else if seq < expected then
          let s := { s with outOfOrderCount := s.outOfOrderCount + 1 }
          if s.lastSequence.any (fun last => last - seq < 100) then
            (⟨.suspicious, some .duplicate, none⟩, { s with duplicatesDetected := s.duplicatesDetected + 1 })
          else (⟨.suspicious, some .outOfOrder, none⟩, s)
        else
          let gap : ChannelGap := ⟨e.source.getD "UNKNOWN", e.inst, expected, seq, s.currentSessionId⟩
          (⟨.suspicious, some .sequenceGap, if s.hasGapManager then some gap else none⟩,
            { s.anchor seq with
              gapsDetected := s.gapsDetected + 1
              missingEventsCount := s.missingEventsCount + (seq - expected) })

end ChannelIngressSequencer

/-! ## Runs -/

/-- A sequencer, the numbers that were received in each session, those that verdicts of a gap skipped, and the numbers that were called
duplicates before they were received. -/
structure ChannelRun where
  sequencer : ChannelIngressSequencer
  received : Finset (String × Int)
  skipped : Finset (String × Int)
  wrongDuplicates : List (String × Int)

namespace ChannelRun

def start (channelId : String) (hasGapManager : Bool) : ChannelRun := ⟨.new channelId hasGapManager, ∅, ∅, []⟩

/-- The numbers from the one that was expected up to this one. -/
def numbersBefore (expected : Option Int) (key : String × Int) : Finset (String × Int) :=
  match expected with
  | none => ∅
  | some n => (@Finset.Ico Int instLatticeInt.toSemilatticeInf.toPartialOrder.toPreorder _ n key.2).image (fun k => (key.1, k))

def step (r : ChannelRun) (e : ChannelEvent) : ChannelRun :=
  let (verdict, sequencer) := r.sequencer.verifySequence e
  match e.key with
  | none => { r with sequencer := sequencer }
  | some key =>
    { sequencer := sequencer
      received := insert key r.received
      skipped := if verdict.reason = some .sequenceGap then r.skipped ∪ numbersBefore r.sequencer.expectedSequence key else r.skipped
      wrongDuplicates :=
        if verdict.reason = some .duplicate ∧ key ∉ r.received then r.wrongDuplicates ++ [key] else r.wrongDuplicates }

/-- The numbers that were skipped and have not been received. -/
def missing (r : ChannelRun) : Finset (String × Int) := r.skipped \ r.received

/-- Duplicates were called so of numbers that had been received, and the count is that of the missing numbers. -/
def Truthful (r : ChannelRun) : Prop := r.wrongDuplicates = [] ∧ r.sequencer.missingEventsCount = r.missing.card

end ChannelRun

end Mdrap

/-!
## Routing by symbol

`SymbolPartitioner` assigns a symbol to a shard, by the range that its first letter is in or by a hash of the symbol. Without ranges of
the caller, the alphabet is cut into as many chunks as there are shards. `str.upper` is left open; modes are texts of ASCII.
-/

namespace Mdrap

open Lib

/-- `SymbolPartitioner`. -/
structure SymbolPartitioner where
  numShards : Int
  mode : String
  shardRanges : List (String × String)
  deriving DecidableEq

/-- The letters from A to Z. -/
def alphabet : List String := (List.range 26).map (fun i => String.singleton (Char.ofNat (65 + i)))

/-- An item of a list, or an exception. -/
def itemOf (xs : List String) (i : Nat) : Except PyError String :=
  match xs[i]? with
  | some x => .ok x
  | none => .error ⟨"IndexError", "list index out of range"⟩

/-- The default ranges: of two and of four shards, or chunks of the alphabet. -/
def defaultRanges (numShards : Nat) : Except PyError (List (String × String)) :=
  if numShards = 2 then .ok [("A", "L"), ("M", "Z")]
  else if numShards = 4 then .ok [("A", "F"), ("G", "L"), ("M", "R"), ("S", "Z")]
  else
    let chunkSize := (alphabet.length + numShards - 1) / numShards
    (List.range numShards).mapM (fun i => do
      let first ← itemOf alphabet (i * chunkSize)
      let last ← itemOf alphabet (min ((i + 1) * chunkSize - 1) (alphabet.length - 1))
      return (first, last))

/-- The order of texts by their characters. -/
def textLe (s t : String) : Bool := s.toList ≤ t.toList

namespace SymbolPartitioner

/-- `__init__`. -/
def new (numShards : Int) (mode : String) (shardRanges : Option (List (String × String))) : Except PyError SymbolPartitioner :=
  if numShards ≤ 0 then .error ⟨"ValueError", s!"num_shards must be positive, got {numShards}"⟩
  else
    let mode := String.ofList (mode.toList.map Char.toLower)
    let shardRanges := shardRanges.getD []
    if mode = "range" ∧ shardRanges = [] then (defaultRanges numShards.toNat).map (fun ranges => ⟨numShards, mode, ranges⟩)
    else .ok ⟨numShards, mode, shardRanges⟩

/-- The first range that a letter is in, or the last shard. -/
def rangeIndex (p : SymbolPartitioner) (firstChar : Char) : Int :=
  match p.shardRanges.findIdx? (fun range => textLe range.1 (String.singleton firstChar) && textLe (String.singleton firstChar) range.2) with
  | some idx => idx
  | none => p.numShards - 1

/-- `instrument.strip().upper()`. -/
def symbolOf (upper : List Char → List Char) (instrument : String) : List Char := upper (strip instrument.toList)

/-- `get_shard_id`. -/
def getShardId (upper : List Char → List Char) (p : SymbolPartitioner) (instrument : String) : Except PyError Int :=
  if instrument = "" then .ok 0
  else
    let sym := symbolOf upper instrument
    if p.mode = "hash" then .ok ((crc32 (encodeUtf8 sym)).toNat % p.numShards)
    else
      match sym with
      | [] => .error ⟨"IndexError", "string index out of range"⟩
      | firstChar :: _ => .ok (p.rangeIndex firstChar)

end SymbolPartitioner

end Mdrap
