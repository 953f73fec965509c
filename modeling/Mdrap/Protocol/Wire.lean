import Mdrap.Lib.Ieee
import Mdrap.Lib.Scanner

/-!
# The binary wire protocol

A frame is a header of four bytes, the text `MD`, the type of the message and the length of its payload, and the payload. Ticks come
in two versions, and there are depth messages. Integers are little-endian, and a floating-point number stands for its bits. Packing
fails, as `struct.pack` does, on a number that its field does not hold.

`BinaryStreamParser` gets the bytes of a stream in chunks. It drops a byte where no header begins.
-/

namespace Mdrap

open Lib

/-- `MAGIC`, the text `MD`. -/
def wireMagic : Bytes := [0x4d, 0x44]

/-- `MSG_TYPE_TICK`. -/
def msgTypeTick : UInt8 := 1

/-- `MSG_TYPE_DEPTH`. -/
def msgTypeDepth : UInt8 := 2

/-- `MSG_TYPE_TICK_V2`. -/
def msgTypeTickV2 : UInt8 := 4

/-- `TICK_PAYLOAD_LEN`. -/
def tickPayloadLen : Nat := 88

/-- `DEPTH_PAYLOAD_LEN`. -/
def depthPayloadLen : Nat := 104

/-- `TICK_V2_PAYLOAD_LEN`. -/
def tickV2PayloadLen : Nat := 128

/-- `HEADER_STRUCT.size`. -/
def wireHeaderSize : Nat := 4

/-- `STATUS_MAP_REV`, with the default. -/
def statusCode (status : String) : Nat :=
  if status = "VALID" then 1 else if status = "SUSPICIOUS" then 2 else if status = "INVALID" then 3 else 1

/-- `STATUS_MAP_FWD`, with the default. -/
def statusText (code : Nat) : String :=
  if code = 1 then "VALID" else if code = 2 then "SUSPICIOUS" else if code = 3 then "INVALID" else "UNKNOWN"

/-! ## Packing -/

/-- A text in a field of `n` bytes: `encode("ascii", errors="replace")[:n].ljust(n, b"\x00")`. -/
def packText (n : Nat) (s : String) : Bytes :=
  let bytes := (s.toList.map (fun c => if c.toNat < 128 then UInt8.ofNat c.toNat else 0x3f)).take n
  bytes ++ zeros (n - bytes.length)

/-- An unsigned integer in a field of eight bytes. -/
def packUInt64 (n : Int) : Option Bytes := if 0 ≤ n ∧ n < 2 ^ 64 then some (le 8 n.toNat) else none

/-- A number in a field of eight bytes. -/
def packDouble (bits : UInt64) : Bytes := le 8 bits.toNat

/-- A number in a field of four bytes. -/
def packSingle (bits : UInt64) : Option Bytes := (toSingle bits).map (fun b => le 4 b.toNat)

/-- `float(x or 0.0)`: zero where there is no number or it is a zero of either sign. -/
def orZero (x : Option UInt64) : UInt64 :=
  match x with
  | none => 0
  | some bits => if isZero bits then 0 else bits

/-- The arguments of `pack_tick_frame`. -/
structure TickArgs where
  seq : Int
  symbol : String
  source : String
  price : Option UInt64
  size : Option UInt64
  bid : Option UInt64
  ask : Option UInt64
  status : String
  isCrossed : Bool
  exchangeTs : UInt64
  ingestTs : UInt64
  broadcastTs : UInt64
  engineUs : UInt64

/-- The arguments of `pack_depth_frame`. -/
structure DepthArgs where
  seq : Int
  symbol : String
  bestBid : Option UInt64
  bestAsk : Option UInt64
  bidSize : Option UInt64
  askSize : Option UInt64
  microPrice : Option UInt64
  ofi : Option UInt64
  isCrossed : Bool
  exchangeTs : UInt64
  ingestTs : UInt64
  broadcastTs : UInt64
  engineUs : UInt64

/-- A header. -/
def packWireHeader (msgType : UInt8) (payloadLen : Nat) : Bytes := wireMagic ++ [msgType, UInt8.ofNat payloadLen]

/-- `pack_tick_frame`. -/
def packTickFrame (a : TickArgs) : Option Bytes := do
  let seq ← packUInt64 a.seq
  let engineUs ← packSingle (orZero (some a.engineUs))
  return packWireHeader msgTypeTick tickPayloadLen ++
    (seq ++ le 1 (statusCode a.status) ++ le 1 (if a.isCrossed then 1 else 0) ++ zeros 2 ++ engineUs ++
      packDouble (orZero (some a.exchangeTs)) ++ packDouble (orZero (some a.ingestTs)) ++
      packDouble (orZero (some a.broadcastTs)) ++ packDouble (orZero a.price) ++ packDouble (orZero a.size) ++
      packDouble (orZero a.bid) ++ packDouble (orZero a.ask) ++ packText 8 a.symbol ++ packText 8 a.source)

/-- `pack_tick_frame_v2`. -/
def packTickFrameV2 (a : TickArgs) (reasonMask : Int) : Option Bytes := do
  let seq ← packUInt64 a.seq
  let engineUs ← packSingle (orZero (some a.engineUs))
  let mask ← packUInt64 reasonMask
  return packWireHeader msgTypeTickV2 tickV2PayloadLen ++
    (seq ++ le 1 (statusCode a.status) ++ le 1 (if a.isCrossed then 1 else 0) ++ zeros 2 ++ engineUs ++
      packDouble (orZero (some a.exchangeTs)) ++ packDouble (orZero (some a.ingestTs)) ++
      packDouble (orZero (some a.broadcastTs)) ++ packDouble (a.price.getD 0) ++ packDouble (a.size.getD 0) ++
      packDouble (a.bid.getD 0) ++ packDouble (a.ask.getD 0) ++ mask ++ packText 32 a.symbol ++ packText 16 a.source)

/-- `pack_depth_frame`. -/
def packDepthFrame (a : DepthArgs) : Option Bytes := do
  let seq ← packUInt64 a.seq
  let engineUs ← packSingle (orZero (some a.engineUs))
  return packWireHeader msgTypeDepth depthPayloadLen ++
    (seq ++ le 1 (if a.isCrossed then 1 else 0) ++ zeros 3 ++ engineUs ++
      packDouble (orZero (some a.exchangeTs)) ++ packDouble (orZero (some a.ingestTs)) ++
      packDouble (orZero (some a.broadcastTs)) ++ packDouble (orZero a.microPrice) ++ packDouble (orZero a.ofi) ++
      packDouble (orZero a.bestBid) ++ packDouble (orZero a.bestAsk) ++ packDouble (orZero a.bidSize) ++
      packDouble (orZero a.askSize) ++ packText 8 a.symbol ++ packText 8 "DEPTH")

/-! ## Unpacking -/

/-- The dictionary of a tick. -/
structure TickEvent where
  version : Option Nat
  seq : Nat
  sym : String
  source : String
  status : String
  isCrossed : Bool
  price : Option UInt64
  size : Option UInt64
  bid : Option UInt64
  ask : Option UInt64
  reasonMask : Option Nat
  exchangeTs : UInt64
  ingestTs : UInt64
  broadcastTs : UInt64
  engineUs : UInt64
  deriving DecidableEq

/-- The dictionary of a depth message. -/
structure DepthEvent where
  seq : Nat
  sym : String
  microPrice : UInt64
  ofi : UInt64
  bid : UInt64
  ask : UInt64
  bidSize : UInt64
  askSize : UInt64
  bids : List (UInt64 × UInt64 × String)
  asks : List (UInt64 × UInt64 × String)
  isCrossed : Bool
  status : String
  exchangeTs : UInt64
  ingestTs : UInt64
  broadcastTs : UInt64
  engineUs : UInt64
  deriving DecidableEq

/-- What the parser gives for a frame. -/
inductive WireEvent where
  | tick (e : TickEvent)
  | depth (e : DepthEvent)
  deriving DecidableEq

/-- The bytes of a field. -/
def wireField (payload : Bytes) (pos n : Nat) : Bytes := (payload.drop pos).take n

/-- A number in a field of eight bytes. -/
def unpackDouble (payload : Bytes) (pos : Nat) : UInt64 := UInt64.ofNat (leNat (wireField payload pos 8))

/-- A number in a field of four bytes. -/
def unpackSingle (payload : Bytes) (pos : Nat) : UInt64 := ofSingle (UInt32.ofNat (leNat (wireField payload pos 4)))

/-- A text in a field: `rstrip(b"\x00").decode("ascii", errors="replace")`. -/
def unpackText (payload : Bytes) (pos n : Nat) : String :=
  let bytes := ((wireField payload pos n).reverse.dropWhile (· = 0)).reverse
  String.ofList (bytes.map (fun b => if b.toNat < 128 then Char.ofNat b.toNat else '\uFFFD'))

/-- A price: none where it is zero or not finite. -/
def priceValue (bits : UInt64) : Option UInt64 := if ¬isZero bits ∧ isFinite bits then some bits else none

/-- A size: none where it is not greater than zero or not finite. -/
def sizeValue (bits : UInt64) : Option UInt64 := if isPositive bits ∧ isFinite bits then some bits else none

/-- `unpack_tick_payload`. -/
def unpackTickPayload (payload : Bytes) : TickEvent where
  version := none
  seq := leNat (wireField payload 0 8)
  sym := unpackText payload 72 8
  source := unpackText payload 80 8
  status := statusText (leNat (wireField payload 8 1))
  isCrossed := leNat (wireField payload 9 1) ≠ 0
  price := priceValue (unpackDouble payload 40)
  size := sizeValue (unpackDouble payload 48)
  bid := priceValue (unpackDouble payload 56)
  ask := priceValue (unpackDouble payload 64)
  reasonMask := none
  exchangeTs := unpackDouble payload 16
  ingestTs := unpackDouble payload 24
  broadcastTs := unpackDouble payload 32
  engineUs := unpackSingle payload 12

/-- `unpack_tick_payload_v2`. -/
def unpackTickPayloadV2 (payload : Bytes) : TickEvent where
  version := some 2
  seq := leNat (wireField payload 0 8)
  sym := unpackText payload 80 32
  source := unpackText payload 112 16
  status := statusText (leNat (wireField payload 8 1))
  isCrossed := leNat (wireField payload 9 1) ≠ 0
  price := priceValue (unpackDouble payload 40)
  size := sizeValue (unpackDouble payload 48)
  bid := priceValue (unpackDouble payload 56)
  ask := priceValue (unpackDouble payload 64)
  reasonMask := some (leNat (wireField payload 72 8))
  exchangeTs := unpackDouble payload 16
  ingestTs := unpackDouble payload 24
  broadcastTs := unpackDouble payload 32
  engineUs := unpackSingle payload 12

/-- `unpack_depth_payload`. -/
def unpackDepthPayload (payload : Bytes) : DepthEvent where
  seq := leNat (wireField payload 0 8)
  sym := unpackText payload 88 8
  microPrice := unpackDouble payload 40
  ofi := unpackDouble payload 48
  bid := unpackDouble payload 56
  ask := unpackDouble payload 64
  bidSize := unpackDouble payload 72
  askSize := unpackDouble payload 80
  bids := [(unpackDouble payload 56, unpackDouble payload 72, "AGG")]
  asks := [(unpackDouble payload 64, unpackDouble payload 80, "AGG")]
  isCrossed := leNat (wireField payload 8 1) ≠ 0
  status := "VALID"
  exchangeTs := unpackDouble payload 16
  ingestTs := unpackDouble payload 24
  broadcastTs := unpackDouble payload 32
  engineUs := unpackSingle payload 12

/-- The dictionary for a payload, by the type of its message. -/
def unpackPayload (msgType : UInt8) (payload : Bytes) : WireEvent :=
  if msgType = msgTypeTick then .tick (unpackTickPayload payload)
  else if msgType = msgTypeTickV2 then .tick (unpackTickPayloadV2 payload)
  else .depth (unpackDepthPayload payload)

/-! ## The parser -/

/-- A turn of the loop of `feed`: less than a header waits for more, as does less than a frame; where no header begins a byte is
dropped. -/
def nextFrame : Bytes → ScanStep WireEvent
  | m :: d :: msgType :: payloadLen :: rest =>
    if [m, d] ≠ wireMagic then .skip
    else if msgType ∉ [msgTypeTick, msgTypeDepth, msgTypeTickV2] then .skip
    else if msgType = msgTypeTick ∧ payloadLen.toNat ≠ tickPayloadLen then .skip
    else if msgType = msgTypeDepth ∧ payloadLen.toNat ≠ depthPayloadLen then .skip
    else if msgType = msgTypeTickV2 ∧ payloadLen.toNat ≠ tickV2PayloadLen then .skip
    else if rest.length < payloadLen.toNat then .wait
    else .take (wireHeaderSize + payloadLen.toNat) (unpackPayload msgType (rest.take payloadLen.toNat))
  | _ => .wait

/-- Four bytes that are a header. -/
def IsWireHeader (m d msgType payloadLen : UInt8) : Prop :=
  [m, d] = wireMagic ∧ ((msgType = msgTypeTick ∧ payloadLen.toNat = tickPayloadLen) ∨
    (msgType = msgTypeDepth ∧ payloadLen.toNat = depthPayloadLen) ∨
    (msgType = msgTypeTickV2 ∧ payloadLen.toNat = tickV2PayloadLen))

instance (m d msgType payloadLen : UInt8) : Decidable (IsWireHeader m d msgType payloadLen) :=
  inferInstanceAs (Decidable (_ ∧ _))

theorem nextFrame_eq (m d msgType payloadLen : UInt8) (rest : Bytes) : nextFrame (m :: d :: msgType :: payloadLen :: rest) =
    if IsWireHeader m d msgType payloadLen then
      if rest.length < payloadLen.toNat then .wait
      else .take (wireHeaderSize + payloadLen.toNat) (unpackPayload msgType (rest.take payloadLen.toNat))
    else .skip := by
  have hdepth : msgTypeDepth ≠ msgTypeTick := by decide
  have hv2 : msgTypeTickV2 ≠ msgTypeTick := by decide
  have hv2' : msgTypeTickV2 ≠ msgTypeDepth := by decide
  rw [nextFrame]
  by_cases hmagic : [m, d] = wireMagic
  · rw [if_neg (not_not.mpr hmagic)]
    by_cases hheader : IsWireHeader m d msgType payloadLen
    · rw [if_pos hheader]
      obtain ⟨-, ⟨rfl, hlen⟩ | ⟨rfl, hlen⟩ | ⟨rfl, hlen⟩⟩ := hheader
      · simp [hlen, hdepth.symm, hv2.symm]
      · simp [hlen, hdepth, hv2'.symm]
      · simp [hlen, hv2, hv2']
    · rw [if_neg hheader]
      simp only [IsWireHeader, hmagic, true_and] at hheader
      grind
  · have hheader : ¬IsWireHeader m d msgType payloadLen := fun h => hmagic h.1
    rw [if_pos hmagic, if_neg hheader]

theorem nextFrame_skip {b : Bytes} (h : nextFrame b = .skip) : b ≠ [] := by
  rintro rfl
  cases h

/-- A frame is taken with its whole payload. -/
theorem nextFrame_take {b : Bytes} {n : Nat} {e : WireEvent} (h : nextFrame b = .take n e) : 0 < n ∧ n ≤ b.length := by
  rcases b with _ | ⟨m, _ | ⟨d, _ | ⟨msgType, _ | ⟨payloadLen, rest⟩⟩⟩⟩
  all_goals try cases h
  rw [nextFrame_eq] at h
  split at h
  · split at h
    · cases h
    · cases h
      simp only [wireHeaderSize, List.length_cons]
      omega
  · cases h

theorem nextFrame_append {b c : Bytes} (h : nextFrame b ≠ .wait) : nextFrame (b ++ c) = nextFrame b := by
  rcases b with _ | ⟨m, _ | ⟨d, _ | ⟨msgType, _ | ⟨payloadLen, rest⟩⟩⟩⟩
  all_goals try exact absurd rfl h
  simp only [List.cons_append, nextFrame_eq] at h ⊢
  split
  · rename_i hheader
    rw [if_pos hheader] at h
    have hwhole : ¬rest.length < payloadLen.toNat := by
      intro hlen
      rw [if_pos hlen] at h
      exact h rfl
    have hwhole' : ¬(rest ++ c).length < payloadLen.toNat := by
      rw [List.length_append]
      omega
    rw [if_neg hwhole, if_neg hwhole', List.take_append_of_le_length (by omega)]
  · rfl

/-- `BinaryStreamParser`. -/
def binaryStreamParser : Scanner UInt8 WireEvent where
  next := nextFrame
  skip_ne := nextFrame_skip
  take_le := nextFrame_take
  stable := nextFrame_append

/-- `feed`: the dictionaries of the frames that are whole now, and the buffer that is left. -/
def feed (buf chunk : Bytes) : List WireEvent × Bytes := binaryStreamParser.scan (buf ++ chunk)

/-- The calls of `feed` with the chunks of a stream, from an empty buffer: all dictionaries, and the buffer that is left. -/
def feedChunks : Bytes → List Bytes → List WireEvent × Bytes
  | buf, [] => ([], buf)
  | buf, chunk :: chunks =>
    let (events, buf) := feed buf chunk
    let (more, buf) := feedChunks buf chunks
    (events ++ more, buf)

end Mdrap
