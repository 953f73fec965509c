import Mdrap.Shm.Slot

/-!
# Ticks and depth messages in a shared segment

`SHMWriter` writes a tick through the compiled routines, where there are any and its number is the head of the ring, and packs the slot
itself otherwise; it packs the slot of a depth message in any case. `SHMReader` reads a slot through the compiled routines or unpacks it
itself. The compiled routines are those of the extension module, or those of a library that is called through `ctypes`.

A number stands for its bits. An exception that is not caught ends a call. The watermark, the heartbeat and the statistics of a reader
are left out, and so are the keys of a tick that the extension puts into a depth message.
-/

namespace Mdrap

open Lib

/-- Where the compiled routines are. -/
inductive NativeShm where
  | extension
  | ctypes
  | absent
  deriving DecidableEq

/-- `EVENT_TYPE_TICK`. -/
def EVENT_TYPE_TICK : UInt8 := 1

/-- `EVENT_TYPE_DEPTH`. -/
def EVENT_TYPE_DEPTH : UInt8 := 2

/-- `STATUS_MAP_REV`, with a default. -/
def shmStatusCode (status : String) (default : UInt8) : UInt8 :=
  if status = "UNKNOWN" then 0 else if status = "VALID" then 1 else if status = "SUSPICIOUS" then 2
  else if status = "INVALID" then 3 else default

/-- The arguments of `SHMWriter.write_tick`. -/
structure ShmTickArgs where
  seq : UInt64
  symbol : String
  source : String
  price : Option UInt64
  size : Option UInt64
  bid : Option UInt64
  ask : Option UInt64
  bidSize : Option UInt64
  askSize : Option UInt64
  status : String
  isCrossed : Bool
  exchangeTs : UInt64
  ingestTs : UInt64
  broadcastTs : UInt64
  engineUs : UInt64

/-- The arguments of `SHMWriter.write_depth`. -/
structure ShmDepthArgs where
  seq : UInt64
  symbol : String
  bestBid : Option UInt64
  bestAsk : Option UInt64
  bidSize : Option UInt64
  askSize : Option UInt64
  microPrice : Option UInt64
  ofi : Option UInt64
  isCrossed : Bool
  exchangeTs : UInt64
  ingestTs : UInt64
  broadcastTs : UInt64
  engineUs : UInt64
  status : String

/-! ## Writing -/

/-- The bits of the fields that are there. -/
def presentMask (price size bid ask bidSize askSize : Option UInt64) : UInt8 :=
  let bit (x : Option UInt64) (b : Nat) : UInt8 := if x.isSome then UInt8.ofNat b else 0
  bit price SHM3_PRESENT_PRICE ||| bit size SHM3_PRESENT_SIZE ||| bit bid SHM3_PRESENT_BID ||| bit ask SHM3_PRESENT_ASK |||
    bit bidSize SHM3_PRESENT_BSZ ||| bit askSize SHM3_PRESENT_ASZ

/-- `encode("ascii", errors="replace")`. -/
def encodeAscii (s : String) : Bytes := s.toList.map (fun c => if c.toNat < 128 then UInt8.ofNat c.toNat else 0x3f)

/-- The UTF-8 encoding of a text. -/
def utf8Bytes (s : String) : Bytes := s.toList.flatMap String.utf8EncodeChar

/-- A number of 64 bits as one of 32 in C: infinite where it is too large. -/
def cSingle (bits : UInt64) : UInt32 := (toSingle bits).getD (if bits.toNat < 2 ^ 63 then 0x7F800000 else 0xFF800000)

/-- What `native_shm_write_tick` passes on. A text ends with a NUL in memory; only `ctypes` cuts it before. -/
def nativeTick (native : NativeShm) (a : ShmTickArgs) : NativeTick where
  symbol := (if native = .extension then utf8Bytes a.symbol else (encodeAscii a.symbol).take 16) ++ [0]
  source := (if native = .extension then utf8Bytes a.source else (encodeAscii a.source).take 8) ++ [0]
  price := orZero a.price
  size := orZero a.size
  bid := orZero a.bid
  ask := orZero a.ask
  bidSz := orZero a.bidSize
  askSz := orZero a.askSize
  status := if a.status = "VALID" then 1 else if a.status = "SUSPICIOUS" then 2 else if a.status = "INVALID" then 3 else 0
  isCrossed := if a.isCrossed then 1 else 0
  present := presentMask a.price a.size a.bid a.ask a.bidSize a.askSize
  exchangeTs := orZero (some a.exchangeTs)
  ingestTs := orZero (some a.ingestTs)
  broadcastTs := orZero (some a.broadcastTs)
  engineUs := cSingle (orZero (some a.engineUs))

/-- `_fast_encode_sym_src`: the bytes of both texts, and which of them were cut. -/
def fastEncodeSymSrc (symbol source : String) : Bytes × Bytes × UInt8 :=
  (packText 16 symbol, packText 8 source,
    (if (encodeAscii symbol).length > 16 then 1 else 0) ||| (if (encodeAscii source).length > 8 then 2 else 0))

/-- The slot of a tick, as Python packs it, with the time of the engine in 32 bits. -/
def tickSlotWith (a : ShmTickArgs) (engineUs : UInt32) : ShmSlot :=
  let texts := fastEncodeSymSrc a.symbol a.source
  { eventType := EVENT_TYPE_TICK
    status := shmStatusCode a.status 0
    isCrossed := if a.isCrossed then 1 else 0
    present := presentMask a.price a.size a.bid a.ask a.bidSize a.askSize
    trunc := texts.2.2
    exchangeTs := orZero (some a.exchangeTs)
    ingestTs := orZero (some a.ingestTs)
    broadcastTs := orZero (some a.broadcastTs)
    engineUs := engineUs
    price := orZero a.price
    size := orZero a.size
    bid := orZero a.bid
    ask := orZero a.ask
    bidSz := orZero a.bidSize
    askSz := orZero a.askSize
    symbol := texts.1
    source := texts.2.1 }

/-- The slot of a tick, as Python packs it; none where a number does not fit its field. -/
def tickSlot (a : ShmTickArgs) : Option ShmSlot := (toSingle (orZero (some a.engineUs))).map (tickSlotWith a)

/-- The slot of a depth message, with the time of the engine in 32 bits. -/
def depthSlotWith (a : ShmDepthArgs) (engineUs : UInt32) : ShmSlot :=
  let texts := fastEncodeSymSrc a.symbol "DEPTH"
  { eventType := EVENT_TYPE_DEPTH
    status := shmStatusCode a.status 1
    isCrossed := if a.isCrossed then 1 else 0
    present := presentMask a.microPrice a.ofi a.bestBid a.bestAsk a.bidSize a.askSize
    trunc := texts.2.2
    exchangeTs := orZero (some a.exchangeTs)
    ingestTs := orZero (some a.ingestTs)
    broadcastTs := orZero (some a.broadcastTs)
    engineUs := engineUs
    price := orZero a.microPrice
    size := orZero a.ofi
    bid := orZero a.bestBid
    ask := orZero a.bestAsk
    bidSz := orZero a.bidSize
    askSz := orZero a.askSize
    symbol := texts.1
    source := texts.2.1 }

/-- The slot of a depth message; none where a number does not fit its field. -/
def depthSlot (a : ShmDepthArgs) : Option ShmSlot := (toSingle (orZero (some a.engineUs))).map (depthSlotWith a)

namespace ShmSegment

/-- A slot is written by Python. The next number has to fit the head. -/
def putSlot (g : ShmGeometry) (m : ShmSegment) (seq : UInt64) (slot : ShmSlot) : Option ShmSegment :=
  if seq = uncommitted then none else some (m.putTick g seq slot.word)

/-- `SHMWriter.write_tick`; none where it raises. -/
def pyWriteTick (g : ShmGeometry) (native : NativeShm) (m : ShmSegment) (a : ShmTickArgs) : Option ShmSegment :=
  if native ≠ .absent ∧ a.seq = m.head then some (m.writeTick g a.seq (nativeTick native a).slot.word)
  else (tickSlot a).bind (m.putSlot g a.seq)

/-- `SHMWriter.write_depth`; none where it raises. -/
def pyWriteDepth (g : ShmGeometry) (m : ShmSegment) (a : ShmDepthArgs) : Option ShmSegment :=
  (depthSlot a).bind (m.putSlot g a.seq)

end ShmSegment

/-! ## Reading -/

/-- The dictionary of a tick. -/
structure ShmTickItem where
  seq : UInt64
  sym : Option String
  price : Option UInt64
  size : Option UInt64
  bid : Option UInt64
  ask : Option UInt64
  bidSize : Option UInt64
  askSize : Option UInt64
  source : Option String
  status : String
  isCrossed : Bool
  exchangeTs : UInt64
  ingestTs : UInt64
  broadcastTs : UInt64
  engineUs : UInt64
  deriving DecidableEq

/-- The dictionary of a depth message. -/
structure ShmDepthItem where
  seq : UInt64
  sym : Option String
  microPrice : Option UInt64
  ofi : Option UInt64
  bid : Option UInt64
  ask : Option UInt64
  bidSize : Option UInt64
  askSize : Option UInt64
  bids : List (Option UInt64 × Option UInt64 × String)
  asks : List (Option UInt64 × Option UInt64 × String)
  isCrossed : Bool
  status : String
  exchangeTs : UInt64
  ingestTs : UInt64
  broadcastTs : UInt64
  engineUs : UInt64
  deriving DecidableEq

/-- What a slot is read as. -/
inductive ShmItem where
  | tick (item : ShmTickItem)
  | depth (item : ShmDepthItem)
  deriving DecidableEq

/-- A text of a slot: up to its first NUL where it is read as a string of C, and without the NULs at its end in Python. The extension
reads UTF-8, and leaves the key out where it is none. -/
def shmText (native : NativeShm) (b : Bytes) : Option String :=
  match native with
  | .extension => String.fromUTF8? (b.takeWhile (· ≠ 0)).toByteArray
  | .ctypes => some (unpackText (b.takeWhile (· ≠ 0)) 0 b.length)
  | .absent => some (unpackText b 0 b.length)

/-- A number of a slot, if it is there. -/
def ShmSlot.field (s : ShmSlot) (bit : Nat) (value : UInt64) : Option UInt64 :=
  if s.present &&& UInt8.ofNat bit ≠ 0 then some value else none

/-- The level of a side: where there is no price, only the extension gives one. -/
def shmLevels (native : NativeShm) (price size : Option UInt64) (rawPrice rawSize : UInt64) :
    List (Option UInt64 × Option UInt64 × String) :=
  if native = .extension then [(some rawPrice, some rawSize, "AGG")] else if price.isSome then [(price, size, "AGG")] else []

/-- The dictionary of a slot. The extension gives the first two numbers of a depth message whether they are there or not. -/
def ShmSlot.item (native : NativeShm) (seq : UInt64) (s : ShmSlot) : ShmItem :=
  let price := s.field SHM3_PRESENT_PRICE s.price
  let size := s.field SHM3_PRESENT_SIZE s.size
  let bid := s.field SHM3_PRESENT_BID s.bid
  let ask := s.field SHM3_PRESENT_ASK s.ask
  let bidSize := s.field SHM3_PRESENT_BSZ s.bidSz
  let askSize := s.field SHM3_PRESENT_ASZ s.askSz
  if s.eventType = EVENT_TYPE_DEPTH then
    .depth {
      seq := seq
      sym := shmText native s.symbol
      microPrice := if native = .extension then some s.price else price
      ofi := if native = .extension then some s.size else size
      bid := bid
      ask := ask
      bidSize := bidSize
      askSize := askSize
      bids := shmLevels native bid bidSize s.bid s.bidSz
      asks := shmLevels native ask askSize s.ask s.askSz
      isCrossed := s.isCrossed ≠ 0
      status := statusText s.status.toNat
      exchangeTs := s.exchangeTs
      ingestTs := s.ingestTs
      broadcastTs := s.broadcastTs
      engineUs := ofSingle s.engineUs }
  else
    .tick {
      seq := seq
      sym := shmText native s.symbol
      price := price
      size := size
      bid := bid
      ask := ask
      bidSize := bidSize
      askSize := askSize
      source := shmText native s.source
      status := statusText s.status.toNat
      isCrossed := s.isCrossed ≠ 0
      exchangeTs := s.exchangeTs
      ingestTs := s.ingestTs
      broadcastTs := s.broadcastTs
      engineUs := ofSingle s.engineUs }

/-- `SHMReader.read_slot`. Where the compiled routines find no tick, Python finds none either. -/
def ShmSegment.pyReadSlot (g : ShmGeometry) (native : NativeShm) (m : ShmSegment) (seq : UInt64) : Option ShmItem :=
  (m.readSlot g seq).map (fun ws => (ShmSlot.ofBytes (wordsBytes ws)).item native seq)

end Mdrap
