import Mdrap.Native.Engine
import Mdrap.Protocol.Sbe
import Mdrap.Shm.Slot

/-!
# Streams of binary frames

The native engine takes a stream of frames of the binary encoding: the numbers of each are checked, a number that was seen before is
marked, and what is not invalid goes on to the ring of a shared segment, if there is one. The number of frames has 32 bits.

The segment has been initialised for ticks of version 3. Beside it stands the check of a stream in Python, where there is no native
library; it keeps nothing from one call to the next.
-/

namespace Mdrap

open Lib

/-- A frame, of 128 bytes. -/
abbrev SbeFrame := {b : Bytes // b.length = 128}

/-- `SbeTickPayload`. -/
structure SbeTickPayload where
  seq : UInt64
  exchangeTs : UInt64
  ingestTs : UInt64
  broadcastTs : UInt64
  price : UInt64
  size : UInt64
  bid : UInt64
  ask : UInt64
  bidSize : UInt64
  askSize : UInt64
  status : UInt8
  isCrossed : UInt8
  engineUs : UInt32
  symbol : Bytes
  source : Bytes
  deriving DecidableEq

/-- The payload of a frame, as it stands in memory behind the header. -/
def SbeFrame.payload (frame : SbeFrame) : SbeTickPayload :=
  let b := frame.1.drop 8
  { seq := UInt64.ofNat (leNat (wireField b 0 8))
    exchangeTs := unpackDouble b 8
    ingestTs := unpackDouble b 16
    broadcastTs := unpackDouble b 24
    price := unpackDouble b 32
    size := unpackDouble b 40
    bid := unpackDouble b 48
    ask := unpackDouble b 56
    bidSize := unpackDouble b 64
    askSize := unpackDouble b 72
    status := ShmSlot.byteAt b 80
    isCrossed := ShmSlot.byteAt b 81
    engineUs := UInt32.ofNat (leNat (wireField b 84 4))
    symbol := wireField b 88 16
    source := wireField b 104 16 }

/-- `fastpath_sbe_pack_tick`. A text is the memory that its pointer points to, up to the first NUL. -/
def fastpathSbePackTick (p : SbeTickPayload) : Bytes :=
  let text (s : Bytes) : Bytes := resize 16 ((s.takeWhile (· ≠ 0)).take 15)
  le 2 sbeTickPayloadSize ++ le 2 templateTick ++ le 2 1 ++ le 2 1 ++
    (le 8 p.seq.toNat ++ packDouble p.exchangeTs ++ packDouble p.ingestTs ++ packDouble p.broadcastTs ++
      packDouble p.price ++ packDouble p.size ++ packDouble p.bid ++ packDouble p.ask ++ packDouble p.bidSize ++ packDouble p.askSize ++
      [p.status, p.isCrossed] ++ zeros 2 ++ le 4 p.engineUs.toNat ++ text p.symbol ++ text p.source)

theorem length_fastpathSbePackTick (p : SbeTickPayload) : (fastpathSbePackTick p).length = 128 := by
  simp only [fastpathSbePackTick, packDouble, List.length_append, length_le, length_zeros, length_resize, List.length_cons,
    List.length_nil]

/-- The frame that `fastpath_sbe_pack_tick` packs. -/
def sbeFrame (p : SbeTickPayload) : SbeFrame := ⟨fastpathSbePackTick p, length_fastpathSbePackTick p⟩

/-! ## The native check -/

/-- `num_bad`, of a number that is there: one that is none counts as missing. -/
def sbeNumBad (bits : UInt64) (allowNegative : Bool) : Bool :=
  !isNan bits && (!isFinite bits || (!allowNegative && ltDouble bits 0))

/-- `isfinite` and not `isnan` of both prices, and the bid is above the ask. -/
def sbeCrossed (bid ask : UInt64) : Bool := !isNan bid && !isNan ask && isFinite bid && isFinite ask && ltDouble ask bid

/-- A number is out of bounds. -/
def sbeOutOfBounds (allowNegative : Bool) (p : SbeTickPayload) : Bool :=
  sbeNumBad p.price allowNegative || sbeNumBad p.bid allowNegative || sbeNumBad p.ask allowNegative || sbeNumBad p.size false ||
    sbeNumBad p.bidSize false || sbeNumBad p.askSize false

/-- The bounds of the numbers and the crossed quotes. -/
def sbeChecks (allowNegative : Bool) (p : SbeTickPayload) : FastResult :=
  let res : FastResult := if sbeOutOfBounds allowNegative p then ⟨.invalid, REASON_SCHEMA_VIOLATION⟩ else .none
  if sbeCrossed p.bid p.ask then ⟨.invalid, res.reasonMask ||| REASON_CROSSED_QUOTE⟩ else res

/-- `hbytes`, of a number of bytes that is a multiple of eight. -/
def hbytes (h : UInt64) (b : Bytes) : UInt64 :=
  (List.range (b.length / 8)).foldl (fun h i => hcomb h (unpackDouble b (8 * i))) h

/-- `sbe_dedup_key`. -/
def sbeDedupKey (seed : UInt64) (p : SbeTickPayload) : UInt64 :=
  mix64 (hcomb (hbytes (hbytes (hcomb seed 0x5be0) p.source) p.symbol) p.seq)

/-- What a number that was seen before adds to a result. -/
def sbeDuplicate (hit : Bool) (res : FastResult) : FastResult :=
  if hit then ⟨.invalid, res.reasonMask ||| REASON_DUPLICATE⟩ else res

section Native

variable {V : Type}

/-- The result of a frame. Only a number above zero is looked for, and kept. -/
def sbeEvaluate (e : FastEngine V) (p : SbeTickPayload) : FastResult × FastEngine V :=
  let checked := e.dedup.checkInsert (sbeDedupKey e.hashSeed p)
  let res := sbeDuplicate (0 < p.seq && checked.1) (sbeChecks e.config.allowNegative p)
  (⟨res.status, res.reasonMask &&& CORE_REASON_MASK⟩, if 0 < p.seq then { e with dedup := checked.2 } else e)

/-- The bits of the fields that are there. -/
def sbePresent (p : SbeTickPayload) : UInt8 :=
  let bit (bits : UInt64) (b : Nat) : UInt8 := if isNan bits then 0 else UInt8.ofNat b
  bit p.price SHM3_PRESENT_PRICE ||| bit p.size SHM3_PRESENT_SIZE ||| bit p.bid SHM3_PRESENT_BID ||| bit p.ask SHM3_PRESENT_ASK |||
    bit p.bidSize SHM3_PRESENT_BSZ ||| bit p.askSize SHM3_PRESENT_ASZ

/-- The number of a status. -/
def statusNumber : QualityStatus → UInt8
  | .valid => 0
  | .suspicious => 1
  | .invalid => 2

/-- The tick of a frame. Behind the symbol there is the source, in memory. -/
def sbeTick (p : SbeTickPayload) (status : QualityStatus) : NativeTick where
  symbol := p.symbol ++ p.source
  source := p.source
  price := p.price
  size := p.size
  bid := p.bid
  ask := p.ask
  bidSz := p.bidSize
  askSz := p.askSize
  status := statusNumber status + 1
  isCrossed := p.isCrossed
  present := sbePresent p
  exchangeTs := p.exchangeTs
  ingestTs := p.ingestTs
  broadcastTs := p.broadcastTs
  engineUs := p.engineUs

/-- A stream that is being processed: the engine, the segment, the results so far, each with its payload, and the valid ones. -/
structure SbeStream (V : Type) where
  engine : FastEngine V
  segment : ShmSegment
  results : List (SbeTickPayload × FastResult)
  validCount : Nat

/-- One round of the loop of `sbe_stream_impl`, with the ring that a segment has, if there is one. What the writer returns is not
looked at. -/
def SbeStream.step (ring : Option ShmGeometry) (s : SbeStream V) (frame : SbeFrame) : SbeStream V :=
  let p := SbeFrame.payload frame
  let (res, e) := sbeEvaluate s.engine p
  { engine := e
    segment :=
      match ring with
      | some g => if res.status ≠ .invalid then s.segment.writeTick g p.seq (sbeTick p res.status).slot.word else s.segment
      | none => s.segment
    results := s.results ++ [(p, res)]
    validCount := if res.status = .valid then s.validCount + 1 else s.validCount }

/-- `sbe_stream_impl`. -/
def sbeStreamImpl (ring : Option ShmGeometry) (e : FastEngine V) (segment : ShmSegment) (frames : List SbeFrame) : SbeStream V :=
  frames.foldl (SbeStream.step ring) ⟨e, segment, [], 0⟩

/-- `process_sbe_stream` with the native library and without a segment: the number of valid frames and the results. -/
def processSbeStream (e : FastEngine V) (frames : List SbeFrame) : (Nat × List FastResult) × FastEngine V :=
  let s := sbeStreamImpl none e .init frames
  ((s.validCount, s.results.map (·.2)), s.engine)

end Native

/-! ## The check in Python -/

/-- A price that is no number, below zero or infinite. -/
def pyPriceBad (bits : UInt64) : Bool := isNan bits || ltDouble bits 0 || (!isFinite bits && !isNan bits)

/-- A price is out of bounds. -/
def pyOutOfBounds (tick : SbeTickMessage) : Bool := pyPriceBad tick.price || pyPriceBad tick.bid || pyPriceBad tick.ask

/-- The quotes are crossed. -/
def pyCrossed (tick : SbeTickMessage) : Bool := isFinite tick.bid && isFinite tick.ask && ltDouble tick.ask tick.bid

/-- The result of a frame, with the numbers that were seen before in this call. -/
def pyEvaluate (seenSeqs : List (String × String × Nat)) (frame : SbeFrame) : FastResult × List (String × String × Nat) :=
  match unpackSbeTick frame.1 with
  | none => (⟨.invalid, REASON_SCHEMA_VIOLATION⟩, seenSeqs)
  | some tick =>
    let res : FastResult := if pyOutOfBounds tick then ⟨.invalid, REASON_SCHEMA_VIOLATION⟩ else .none
    let res : FastResult := if pyCrossed tick then ⟨.invalid, res.reasonMask ||| REASON_CROSSED_QUOTE⟩ else res
    let key := (tick.source, tick.symbol, tick.seq)
    if 0 < tick.seq then
      if key ∈ seenSeqs then (sbeDuplicate true res, seenSeqs) else (res, key :: seenSeqs)
    else (res, seenSeqs)

/-- A stream that is being processed: the numbers that were seen in this call, the results and the valid ones. -/
structure PySbeStream where
  seenSeqs : List (String × String × Nat)
  results : List FastResult
  validCount : Nat

/-- One round of the loop without a native library. -/
def PySbeStream.step (s : PySbeStream) (frame : SbeFrame) : PySbeStream :=
  let (res, seenSeqs) := pyEvaluate s.seenSeqs frame
  { seenSeqs := seenSeqs
    results := s.results ++ [res]
    validCount := if res.status = .valid then s.validCount + 1 else s.validCount }

/-- `process_sbe_stream` without a native library: the number of valid frames and the results. -/
def pyProcessSbeStream (frames : List SbeFrame) : Nat × List FastResult :=
  let s := frames.foldl PySbeStream.step ⟨[], [], 0⟩
  (s.validCount, s.results)

end Mdrap
