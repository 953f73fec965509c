import Mdrap.Protocol.Wire
import Mdrap.Shm.Seqlock

/-!
# What a slot holds

The layout of a slot behind its commit word, and the calls that write and read a whole slot. Where no other thread is at work, the
stores and the loads of a call are one step.
-/

namespace Mdrap

open Lib

def SHM3_PRESENT_PRICE : Nat := 0x01
def SHM3_PRESENT_SIZE : Nat := 0x02
def SHM3_PRESENT_BID : Nat := 0x04
def SHM3_PRESENT_ASK : Nat := 0x08
def SHM3_PRESENT_BSZ : Nat := 0x10
def SHM3_PRESENT_ASZ : Nat := 0x20

/-- `ShmSlotV3`, behind its commit word. The text fields have 16 and 8 bytes. -/
structure ShmSlot where
  eventType : UInt8
  status : UInt8
  isCrossed : UInt8
  present : UInt8
  trunc : UInt8
  exchangeTs : UInt64
  ingestTs : UInt64
  broadcastTs : UInt64
  engineUs : UInt32
  price : UInt64
  size : UInt64
  bid : UInt64
  ask : UInt64
  bidSz : UInt64
  askSz : UInt64
  symbol : Bytes
  source : Bytes
  deriving DecidableEq

namespace ShmSlot

/-- The bytes of a slot. -/
def bytes (s : ShmSlot) : Bytes :=
  [s.eventType, s.status, s.isCrossed, s.present, s.trunc] ++ zeros 3 ++
    packDouble s.exchangeTs ++ packDouble s.ingestTs ++ packDouble s.broadcastTs ++ le 4 s.engineUs.toNat ++ zeros 4 ++
    packDouble s.price ++ packDouble s.size ++ packDouble s.bid ++ packDouble s.ask ++ packDouble s.bidSz ++ packDouble s.askSz ++
    resize 16 s.symbol ++ resize 8 s.source ++ zeros 8

/-- A byte of a slot. -/
def byteAt (b : Bytes) (pos : Nat) : UInt8 := UInt8.ofNat (leNat (wireField b pos 1))

/-- The slot whose bytes these are. -/
def ofBytes (b : Bytes) : ShmSlot where
  eventType := byteAt b 0
  status := byteAt b 1
  isCrossed := byteAt b 2
  present := byteAt b 3
  trunc := byteAt b 4
  exchangeTs := unpackDouble b 8
  ingestTs := unpackDouble b 16
  broadcastTs := unpackDouble b 24
  engineUs := UInt32.ofNat (leNat (wireField b 32 4))
  price := unpackDouble b 40
  size := unpackDouble b 48
  bid := unpackDouble b 56
  ask := unpackDouble b 64
  bidSz := unpackDouble b 72
  askSz := unpackDouble b 80
  symbol := wireField b 88 16
  source := wireField b 104 8

/-- A word of a slot. -/
def word (s : ShmSlot) (w : Nat) : UInt64 := unpackDouble s.bytes (8 * w)

end ShmSlot

/-- The bytes of the words of a slot. -/
def wordsBytes (ws : List UInt64) : Bytes := ws.flatMap packDouble

namespace ShmSegment

/-- The stores of a tick: its slot is marked, its words are written, it is committed, and the head goes on. -/
def putTick (g : ShmGeometry) (m : ShmSegment) (seq : UInt64) (src : Nat → UInt64) : ShmSegment :=
  let m := m.setCommit (g.slotOf seq) uncommitted
  let m := (List.range payloadWords).foldl (fun m w => m.setWord (g.slotOf seq) w (src w)) m
  (m.setCommit (g.slotOf seq) seq).setHead (seq + 1)

/-- `fastpath_shm_write_tick_v3`, with the words of the slot. -/
def writeTick (g : ShmGeometry) (m : ShmSegment) (seq : UInt64) (src : Nat → UInt64) : ShmSegment :=
  if seq ≠ m.head then m else m.putTick g seq src

/-- `fastpath_shm_read_slot_v3`: the words of a slot, where it returns 1. -/
def readSlot (g : ShmGeometry) (m : ShmSegment) (target : UInt64) : Option (List UInt64) :=
  if target < m.head ∧ UInt64.ofNat g.slotCount < m.head - target then none
  else if m.commit (g.slotOf target) ≠ target then none
  else some ((List.range payloadWords).map (m.words (g.slotOf target)))

end ShmSegment

/-- What `fastpath_shm_write_tick_v3` is told of a tick. A text is the memory that its pointer points to. -/
structure NativeTick where
  symbol : Bytes
  source : Bytes
  price : UInt64
  size : UInt64
  bid : UInt64
  ask : UInt64
  bidSz : UInt64
  askSz : UInt64
  status : UInt8
  isCrossed : UInt8
  present : UInt8
  exchangeTs : UInt64
  ingestTs : UInt64
  broadcastTs : UInt64
  engineUs : UInt32

/-- The text at a pointer, as far as `md_strnlen` counts. -/
def cText (memory : Bytes) : Bytes := (memory.take 64).takeWhile (· ≠ 0)

/-- The slot that `fastpath_shm_write_tick_v3` fills. -/
def NativeTick.slot (t : NativeTick) : ShmSlot where
  eventType := 1
  status := if t.status ≤ 3 then t.status else 0
  isCrossed := t.isCrossed
  present := t.present
  trunc := (if (cText t.symbol).length > 16 then 1 else 0) ||| (if (cText t.source).length > 8 then 2 else 0)
  exchangeTs := t.exchangeTs
  ingestTs := t.ingestTs
  broadcastTs := t.broadcastTs
  engineUs := t.engineUs
  price := t.price
  size := t.size
  bid := t.bid
  ask := t.ask
  bidSz := t.bidSz
  askSz := t.askSz
  symbol := resize 16 (cText t.symbol)
  source := resize 8 (cText t.source)

end Mdrap
