import Mdrap.Lib.Machine
import Mdrap.Engine.Types

/-!
# The native engine

`fastpath.c` checks events in C: one slot for each source and instrument, with the sequence seen so far, a watermark of the exchange's
time and a rolling baseline of prices; and one table for the events without a sequence number. An allocation is taken to succeed, so
that a slot has its ring of prices as soon as it needs one. Locks and prefetching change nothing here and are left out.
-/

namespace Mdrap

open Lib

variable {V : Type}

def MAX_SOURCES : Int := 32
def MAX_INSTRUMENTS : Int := 8192
def MAX_WINDOW : Nat := 128
def DEDUP_GEN_SLOTS : Nat := 131072
def DEDUP_GEN_MAX : Nat := DEDUP_GEN_SLOTS / 2
def DEDUP_MAX_PROBE : Nat := 64
def MIN_SAMPLES_FOR_VARIANCE : Nat := 3
def STALE_SEEN_CAPACITY : Nat := 32

/-! ## Events and results -/

/-- `FastEvent`. A type is 0 for a trade and 1 for a quote; the mask says which fields are there. A time is in seconds, or in
nanoseconds where the mask says so. -/
structure FastEvent (V : Type) where
  sourceId : Int
  instrumentId : Int
  eventType : Int
  presentMask : Nat
  exchangeTs : V
  exchangeTsNs : Int
  receiveTs : V
  receiveTsNs : Int
  sequenceNum : Int
  price : V
  quantity : V
  bidPrice : V
  askPrice : V
  bidSize : V
  askSize : V

def FE_MASK_VALID : Nat := 0x80000000
def FE_HAS_PRICE : Nat := 0x01
def FE_HAS_QTY : Nat := 0x02
def FE_HAS_BID : Nat := 0x04
def FE_HAS_ASK : Nat := 0x08
def FE_HAS_BID_SZ : Nat := 0x10
def FE_HAS_ASK_SZ : Nat := 0x20
def FE_TS_NANOSECONDS : Nat := 0x40

/-- `rules.def`: the bit of each rule. -/
def reasonBits : List (Nat × Reason) :=
  [(1 <<< 0, .schemaViolation), (1 <<< 1, .duplicate), (1 <<< 2, .sequenceGap), (1 <<< 3, .outOfOrder), (1 <<< 4, .stale),
    (1 <<< 5, .priceAnomaly), (1 <<< 6, .crossedQuote), (1 <<< 7, .crossFeedDisagreement), (1 <<< 8, .malformed),
    (1 <<< 9, .circuitFilterBreach), (1 <<< 10, .volatilityInterruption), (1 <<< 11, .specialQuoteIndication),
    (1 <<< 12, .implausibleTs), (1 <<< 13, .rateLimited), (1 <<< 14, .securityReject)]

def REASON_SCHEMA_VIOLATION : Nat := 1 <<< 0
def REASON_DUPLICATE : Nat := 1 <<< 1
def REASON_SEQUENCE_GAP : Nat := 1 <<< 2
def REASON_OUT_OF_ORDER : Nat := 1 <<< 3
def REASON_STALE : Nat := 1 <<< 4
def REASON_PRICE_ANOMALY : Nat := 1 <<< 5
def REASON_CROSSED_QUOTE : Nat := 1 <<< 6
def REASON_TS_IMPLAUSIBLE : Nat := 1 <<< 12
def CORE_REASON_MASK : Nat := 0xFFFFFFFF

/-- `FastResult`. -/
structure FastResult where
  status : QualityStatus
  reasonMask : Nat
  deriving DecidableEq

namespace FastResult

/-- A result without marks. -/
def none : FastResult := ⟨.valid, 0⟩

/-- `mark`. -/
def mark (res : FastResult) (status : QualityStatus) (reason : Nat) : FastResult where
  status := if res.status.severityLevel < status.severityLevel then status else res.status
  reasonMask := res.reasonMask ||| (reason &&& CORE_REASON_MASK)

/-- `mark`, where a condition holds. -/
def markIf (res : FastResult) (c : Bool) (status : QualityStatus) (reason : Nat) : FastResult :=
  if c then res.mark status reason else res

/-- The reasons of a mask. -/
def reasons (res : FastResult) : List Reason :=
  reasonBits.filterMap (fun (bit, reason) => if res.reasonMask &&& bit ≠ 0 then some reason else Option.none)

end FastResult

/-! ## Slots -/

/-- `FastSlot`. The flags are `init`, `hasSeq` and `hasTs`. -/
structure FastSlot (V : Type) where
  lastSeq : Int
  candPlus1 : Nat
  seen : Nat
  lastTs : V
  mean : V
  m2 : V
  anomLast : V
  ring : List V
  epoch : Nat
  init : Bool
  hasSeq : Bool
  hasTs : Bool
  n : Nat
  head : Nat
  anomCount : Nat
  foldCount : Nat
  regressCount : Nat
  staleHead : Nat
  staleSeen : List Int

/-- An empty list of stale numbers. -/
def noStale : List Int := List.replicate STALE_SEEN_CAPACITY (-1)

/-- The configuration of a `FastEngine`. The window is at most `MAX_WINDOW`. -/
structure FastConfig (V : Type) where
  stalenessThreshold : V
  priceAnomalyStddev : V
  priceWindow : Nat
  priceMinSamples : Nat
  priceReseedAfter : Nat
  priceSigmaFloorRel : V
  priceReseedBandRel : V
  maxFutureSkew : V
  seqJumpLimit : Int
  unseqDupStatus : QualityStatus
  allowNegative : Bool

namespace FastConfig

/-- `fastpath_engine_create`, as far as the configuration goes. -/
def create (F : Floats V) (staleness stddev : V) (window : Int) : FastConfig V :=
  let window := if window > MAX_WINDOW then MAX_WINDOW else if window > 0 then window.toNat else 50
  let window := if window < 2 then 2 else window
  { stalenessThreshold := if F.lt (F.int 0) staleness then staleness else F.dec 5 (-2)
    priceAnomalyStddev := if F.lt (F.int 0) stddev then stddev else F.int 6
    priceWindow := window
    priceMinSamples := if window < 20 then window else 20
    priceReseedAfter := 8
    priceSigmaFloorRel := F.dec 2 (-4)
    priceReseedBandRel := F.dec 1 (-2)
    maxFutureSkew := F.int 1
    seqJumpLimit := 2 ^ 24
    unseqDupStatus := .suspicious
    allowNegative := false }

/-- `fastpath_engine_configure`: a value that makes no sense changes nothing. -/
def configure (F : Floats V) (minSamples reseedAfter : Int) (sigmaFloorRel reseedBandRel maxFutureSkew : V) (seqJumpLimit : Int)
    (unseqDupStatus : QualityStatus) (allowNegative : Bool) (c : FastConfig V) : FastConfig V where
  __ := c
  priceMinSamples :=
    if 0 ≤ minSamples then if minSamples > c.priceWindow then c.priceWindow else minSamples.toNat else c.priceMinSamples
  priceReseedAfter := if 0 ≤ reseedAfter then reseedAfter.toNat else c.priceReseedAfter
  priceSigmaFloorRel := if F.le (F.int 0) sigmaFloorRel then sigmaFloorRel else c.priceSigmaFloorRel
  priceReseedBandRel := if F.le (F.int 0) reseedBandRel then reseedBandRel else c.priceReseedBandRel
  maxFutureSkew := if F.le (F.int 0) maxFutureSkew then maxFutureSkew else c.maxFutureSkew
  seqJumpLimit := if 0 < seqJumpLimit then seqJumpLimit else c.seqJumpLimit
  unseqDupStatus := if unseqDupStatus = .suspicious ∨ unseqDupStatus = .invalid then unseqDupStatus else c.unseqDupStatus
  allowNegative := allowNegative

end FastConfig

namespace FastSlot

/-- Memory filled with zeros, and the ring as it was. -/
def zeroed (F : Floats V) (ring : List V) : FastSlot V :=
  ⟨0, 0, 0, F.int 0, F.int 0, F.int 0, F.int 0, ring, 0, false, false, false, 0, 0, 0, 0, 0, 0, List.replicate STALE_SEEN_CAPACITY 0⟩

/-- `slot_touch`: a slot that is new, or of an earlier session of its source, starts afresh. -/
def touch (F : Floats V) (epoch : Nat) (sl : FastSlot V) : FastSlot V :=
  if !sl.init ∨ sl.epoch ≠ epoch then { zeroed F sl.ring with epoch := epoch, init := true, staleSeen := noStale } else sl

/-! ### The sequence -/

/-- A number ahead of the last one. -/
def seqAhead (limit : Int) (sl : FastSlot V) (seq : Int) (res : FastResult) : FastResult × FastSlot V :=
  let jump := int64 (seq - sl.lastSeq)
  if jump > limit then
    let res := res.mark .suspicious REASON_SEQUENCE_GAP
    let cand := int64 (uint 64 (sl.candPlus1 - 1))
    if sl.candPlus1 ≠ 0 ∧ seq > cand ∧ int64 (seq - cand) ≤ limit then
      (res, { sl with lastSeq := seq, seen := 1, candPlus1 := 0, regressCount := 0 })
    else (res, { sl with candPlus1 := uint 64 (uint 64 seq + 1) })
  else
    (res.markIf (jump > 1) .suspicious REASON_SEQUENCE_GAP,
      { sl with
        seen := if jump < 64 then uint 64 (sl.seen <<< jump.toNat : Nat) ||| 1 else 1
        lastSeq := seq
        candPlus1 := 0
        regressCount := 0 })

/-- A number goes to the place of the oldest one in the list of stale numbers. -/
def pushStale (sl : FastSlot V) (seq : Int) : FastSlot V :=
  { sl with staleSeen := sl.staleSeen.set (sl.staleHead % STALE_SEEN_CAPACITY) seq, staleHead := uint 32 (sl.staleHead + 1) }

/-- The last number again, or one before it. -/
def seqBehind (limit : Int) (sl : FastSlot V) (seq : Int) (res : FastResult) : FastResult × FastSlot V :=
  let d := uint 64 (int64 (sl.lastSeq - seq))
  if d < 64 then
    if sl.seen.testBit d then
      ((res.mark .invalid REASON_DUPLICATE).markIf (d > 0) .invalid REASON_OUT_OF_ORDER, sl)
    else (res.mark .suspicious REASON_OUT_OF_ORDER, { sl with seen := sl.seen ||| uint 64 (1 <<< d : Nat) })
  else if seq ∈ sl.staleSeen then ((res.mark .invalid REASON_DUPLICATE).mark .invalid REASON_OUT_OF_ORDER, sl)
  else
    let res := res.mark .suspicious REASON_OUT_OF_ORDER
    if d > uint 64 limit then
      let regress := uint 32 (sl.regressCount + 1)
      if regress ≥ 2 then
        (res, { sl with lastSeq := seq, seen := 1, candPlus1 := 0, regressCount := 0, staleHead := 0, staleSeen := noStale })
      else (res, { sl with regressCount := regress }.pushStale seq)
    else (res, { sl with regressCount := 0 }.pushStale seq)

/-- `seq_check`. -/
def seqCheck (limit : Int) (sl : FastSlot V) (seq : Int) (res : FastResult) : FastResult × FastSlot V :=
  if !sl.hasSeq then
    (res, { sl with lastSeq := seq, seen := 1, hasSeq := true, regressCount := 0, staleHead := 0, staleSeen := noStale })
  else if seq > sl.lastSeq then sl.seqAhead limit seq res
  else sl.seqBehind limit seq res

/-! ### The baseline -/

/-- `inv_n`. -/
def invN (F : Floats V) (n : Nat) : V := F.div (F.int 1) (F.int n)

/-- `recompute_stats`. -/
def recomputeStats (F : Floats V) (sl : FastSlot V) : FastSlot V :=
  if sl.n = 0 then { sl with mean := F.int 0, m2 := F.int 0 }
  else
    let mean := F.div (F.sum (sl.ring.take sl.n)) (F.int sl.n)
    { sl with mean := mean, m2 := F.sum ((sl.ring.take sl.n).map (fun v => F.mul (F.sub v mean) (F.sub v mean))) }

/-- A price in the window: over the oldest one where the window is full, else behind the last one. -/
def insertPrice (F : Floats V) (window : Nat) (x : V) (sl : FastSlot V) : FastSlot V :=
  if sl.n ≥ window then
    let old := sl.ring.getD sl.head (F.int 0)
    let d := F.sub x old
    let nm := F.add sl.mean (F.mul d (invN F window))
    let m2 := F.add sl.m2 (F.mul d (F.add (F.sub x nm) (F.sub old sl.mean)))
    { sl with
      m2 := if F.lt m2 (F.int 0) then F.int 0 else m2
      mean := nm
      ring := sl.ring.set sl.head x
      head := if sl.head + 1 ≥ window then 0 else sl.head + 1 }
  else
    let delta := F.sub x sl.mean
    let mean := F.add sl.mean (F.mul delta (invN F (sl.n + 1)))
    { sl with
      ring := sl.ring.set sl.n x
      n := sl.n + 1
      mean := mean
      m2 := F.add sl.m2 (F.mul delta (F.sub x mean))
      head := if sl.n + 1 ≥ window then 0 else sl.n + 1 }

/-- `fold_price`. -/
def foldPrice (F : Floats V) (window : Nat) (x : V) (sl : FastSlot V) : FastSlot V :=
  let sl := sl.insertPrice F window x
  if uint 32 (sl.foldCount + 1) ≥ uint 32 (window * 64) then { sl with foldCount := 0 }.recomputeStats F
  else { sl with foldCount := uint 32 (sl.foldCount + 1) }

/-! ### Stages -/

/-- The watermark of the exchange's time. -/
def stageTime (F : Floats V) (c : FastConfig V) (ex rc : V) (sl : FastSlot V) (res : FastResult) : FastResult × FastSlot V :=
  let plausibleTs := F.le ex (F.add ex c.maxFutureSkew) && F.le ex (F.add rc c.maxFutureSkew)
  let res := res.markIf (!plausibleTs) .suspicious REASON_TS_IMPLAUSIBLE
  let stale := F.lt c.stalenessThreshold (F.sub rc ex)
  if !sl.hasTs then
    (res.markIf stale .suspicious REASON_STALE, if plausibleTs then { sl with lastTs := ex, hasTs := true } else sl)
  else if F.lt ex sl.lastTs then ((res.mark .suspicious REASON_OUT_OF_ORDER).markIf stale .suspicious REASON_STALE, sl)
  else (res.markIf stale .suspicious REASON_STALE, if plausibleTs then { sl with lastTs := ex } else sl)

/-- The square of the standard deviation, but not below the floor. -/
def sd2 (F : Floats V) (c : FastConfig V) (sl : FastSlot V) : V :=
  let var := F.mul sl.m2 (invN F sl.n)
  let var := if F.lt var (F.int 0) then F.int 0 else var
  let fl := F.mul c.priceSigmaFloorRel (F.abs sl.mean)
  if F.lt (F.mul fl fl) var then var else F.mul fl fl

/-- A price far off the baseline. -/
def anomaly (F : Floats V) (c : FastConfig V) (sl : FastSlot V) (px : V) : Bool :=
  let dev := F.sub px sl.mean
  if sl.n ≥ MIN_SAMPLES_FOR_VARIANCE then
    if sl.n ≥ c.priceMinSamples then
      F.lt (F.mul (F.mul c.priceAnomalyStddev c.priceAnomalyStddev) (sl.sd2 F c)) (F.mul dev dev)
    else F.lt (F.int 0) (F.abs sl.mean) && F.lt (F.mul (F.dec 10 (-2)) (F.abs sl.mean)) (F.abs dev)
  else false

/-- How far from the last outlier the next one may be to belong to it. -/
def band (F : Floats V) (c : FastConfig V) (sl : FastSlot V) (px : V) : V :=
  let sd2 := if sl.n ≥ MIN_SAMPLES_FOR_VARIANCE then sl.sd2 F c else F.int 0
  let band := F.mul c.priceAnomalyStddev (F.sqrt sd2)
  let rel := F.mul c.priceReseedBandRel (F.abs px)
  if F.lt band rel then rel else band

/-- One more outlier, and a new baseline after so many of them. -/
def outlier (F : Floats V) (c : FastConfig V) (px : V) (sl : FastSlot V) : FastSlot V :=
  let count := if sl.anomCount > 0 ∧ F.le (F.abs (F.sub px sl.anomLast)) (sl.band F c px) then sl.anomCount + 1 else 1
  if c.priceReseedAfter > 0 ∧ count ≥ c.priceReseedAfter then
    { sl with anomLast := px, n := 0, head := 0, mean := F.int 0, m2 := F.int 0, foldCount := 0, anomCount := 0 }.foldPrice
      F c.priceWindow px
  else { sl with anomCount := count, anomLast := px }

/-- The price of an event that is not invalid. -/
def stagePrice (F : Floats V) (c : FastConfig V) (px : V) (sl : FastSlot V) (res : FastResult) : FastResult × FastSlot V :=
  if sl.anomaly F c px then (res.mark .suspicious REASON_PRICE_ANOMALY, sl.outlier F c px)
  else (res, { sl with anomCount := 0 }.foldPrice F c.priceWindow px)

end FastSlot

/-! ## Events without a number -/

/-- `mix64`. -/
def mix64 (x : UInt64) : UInt64 :=
  let x := (x ^^^ (x >>> 30)) * 0xbf58476d1ce4e5b9
  let x := (x ^^^ (x >>> 27)) * 0x94d049bb133111eb
  x ^^^ (x >>> 31)

/-- `hcomb`. -/
def hcomb (h v : UInt64) : UInt64 :=
  let h := (h ^^^ v) * 0x9E3779B97F4A7C15
  h ^^^ (h >>> 29)

/-- `dbits`. -/
def dbits (F : Floats V) (d : V) : UInt64 :=
  if !F.eq d d then 0x7ff8000000000000 else if F.bits d <<< 1 = 0 then 0 else F.bits d

/-- Two 32-bit integers in one of 64 bits. -/
def pair64 (hi lo : Int) : UInt64 := .ofNat (uint 32 hi <<< 32 ||| uint 32 lo)

/-- `unseq_dedup_key`. -/
def unseqDedupKey (F : Floats V) (seed : UInt64) (ev : FastEvent V) (epoch : Nat) : UInt64 :=
  let h := hcomb seed (pair64 ev.sourceId ev.instrumentId)
  let h := hcomb h (pair64 epoch ev.eventType)
  let h := hcomb h (if ev.presentMask &&& FE_TS_NANOSECONDS ≠ 0 then .ofNat (uint 64 ev.exchangeTsNs) else dbits F ev.exchangeTs)
  let fields := if ev.eventType = 1 then [ev.bidPrice, ev.askPrice, ev.bidSize, ev.askSize] else [ev.price, ev.quantity]
  mix64 (fields.foldl (fun h v => hcomb h (dbits F v)) h)

/-- The two tables of keys, of which one is in use, and how many keys went into it. -/
structure DedupTables where
  keys : Bool → Nat → UInt64
  active : Bool
  count : Nat
  rotations : Nat
  evictions : Nat

namespace DedupTables

/-- Memory filled with zeros. -/
def zeroed : DedupTables := ⟨fun _ _ => 0, false, 0, 0, 0⟩

/-- Where a key is, or the first free place for it, among so many. -/
def probe (table : Nat → UInt64) (key : UInt64) : Option (Bool × Nat) :=
  (List.range DEDUP_MAX_PROBE).findSome? (fun i =>
    let at_ := (key.toNat % DEDUP_GEN_SLOTS + i) % DEDUP_GEN_SLOTS
    if table at_ = key then some (true, at_) else if table at_ = 0 then some (false, at_) else none)

/-- A key in the table in use. Where that is half full, the other one is wiped and takes its place. -/
def insert (key : UInt64) (at_ : Nat) (evictions : Nat) (d : DedupTables) : DedupTables :=
  let keys := Function.update d.keys d.active (Function.update (d.keys d.active) at_ key)
  if d.count + 1 ≥ DEDUP_GEN_MAX then
    ⟨Function.update keys (!d.active) (fun _ => 0), !d.active, 0, d.rotations + 1, d.evictions + evictions⟩
  else ⟨keys, d.active, d.count + 1, d.rotations, d.evictions + evictions⟩

/-- `dedup_check_insert`. -/
def checkInsert (key : UInt64) (d : DedupTables) : Bool × DedupTables :=
  let key := if key = 0 then 1 else key
  let hit := ((probe (d.keys (!d.active)) key).map (·.1)).getD false
  match probe (d.keys d.active) key with
  | some (true, _) => (true, d)
  | some (false, at_) => (hit, d.insert key at_ 0)
  | none => (hit, d.insert key (key.toNat % DEDUP_GEN_SLOTS) 1)

end DedupTables

/-! ## The engine -/

/-- `FastEngine`, without its replay buffer. -/
structure FastEngine (V : Type) where
  config : FastConfig V
  hashSeed : UInt64
  sourceEpoch : Nat → Nat
  slots : Nat → FastSlot V
  dedup : DedupTables

namespace FastEngine

/-- `fastpath_engine_create` and `fastpath_engine_configure`. What a ring holds at first is left open. -/
def create (F : Floats V) (config : FastConfig V) (hashSeed : UInt64) (rings : Nat → List V) : FastEngine V :=
  ⟨config, hashSeed, fun _ => 0, fun i => .zeroed F (rings i), .zeroed⟩

/-- `get_slot`. -/
def getSlot (source instrument : Int) : Nat := source.toNat <<< 13 ||| instrument.toNat

end FastEngine

namespace FastEvent

variable (F : Floats V) (ev : FastEvent V)

/-- `fld_present`. -/
def present (bit : Nat) (v : V) : Bool :=
  if ev.presentMask &&& FE_MASK_VALID ≠ 0 then ev.presentMask &&& bit ≠ 0 else F.eq v v

def hasPrice : Bool := ev.present F FE_HAS_PRICE ev.price
def hasQty : Bool := ev.present F FE_HAS_QTY ev.quantity
def hasBid : Bool := ev.present F FE_HAS_BID ev.bidPrice
def hasAsk : Bool := ev.present F FE_HAS_ASK ev.askPrice
def hasBsz : Bool := ev.present F FE_HAS_BID_SZ ev.bidSize
def hasAsz : Bool := ev.present F FE_HAS_ASK_SZ ev.askSize

/-- `num_bad`. -/
def numBad (v : V) (allowNegative : Bool) : Bool := !F.isFinite v || (!allowNegative && F.lt v (F.int 0))

/-- Times are in nanoseconds. -/
def isNs : Bool := ev.presentMask &&& FE_TS_NANOSECONDS ≠ 0

/-- The exchange's time in seconds, and whether it is one. -/
def exchangeSec : V := if ev.isNs then F.mul (F.int ev.exchangeTsNs) (F.dec 1 (-9)) else ev.exchangeTs
def receiveSec : V := if ev.isNs then F.mul (F.int ev.receiveTsNs) (F.dec 1 (-9)) else ev.receiveTs
def exFin : Bool := ev.isNs || F.isFinite ev.exchangeTs
def rcFin : Bool := ev.isNs || F.isFinite ev.receiveTs

/-- A field is missing or makes no sense. -/
def bad (allowNegative : Bool) : Bool :=
  (if ev.eventType = 0 then !ev.hasPrice F else !ev.hasBid F && !ev.hasAsk F) ||
  (ev.hasPrice F && numBad F ev.price allowNegative) || (ev.hasBid F && numBad F ev.bidPrice allowNegative) ||
  (ev.hasAsk F && numBad F ev.askPrice allowNegative) || (ev.hasQty F && numBad F ev.quantity false) ||
  (ev.hasBsz F && numBad F ev.bidSize false) || (ev.hasAsz F && numBad F ev.askSize false) ||
  (if ev.isNs then ev.exchangeTsNs ≤ 0 ∨ ev.receiveTsNs ≤ 0 else !F.isFinite ev.exchangeTs || !F.isFinite ev.receiveTs)

end FastEvent

namespace FastEngine

variable (F : Floats V)

/-- The stages of `evaluate_nolock` after the sequence. -/
def finishSlot (c : FastConfig V) (ev : FastEvent V) (sl : FastSlot V) (res : FastResult) : FastResult × FastSlot V :=
  let (res, sl) := if ev.exFin F && ev.rcFin F then sl.stageTime F c (ev.exchangeSec F) (ev.receiveSec F) res else (res, sl)
  let res := res.markIf (!ev.bad F c.allowNegative && ev.hasBid F && ev.hasAsk F && F.lt ev.askPrice ev.bidPrice) .invalid
    REASON_CROSSED_QUOTE
  if res.status ≠ .invalid ∧ ev.hasPrice F then sl.stagePrice F c ev.price res else (res, sl)

/-- `evaluate_nolock`. -/
def evaluateNolock (e : FastEngine V) (ev : FastEvent V) : FastResult × FastEngine V :=
  if ev.sourceId < 0 ∨ ev.sourceId ≥ MAX_SOURCES ∨ ev.instrumentId < 0 ∨ ev.instrumentId ≥ MAX_INSTRUMENTS then
    (FastResult.none.mark .invalid REASON_SCHEMA_VIOLATION, e)
  else if ev.eventType ≠ 0 ∧ ev.eventType ≠ 1 then (FastResult.none.mark .invalid REASON_SCHEMA_VIOLATION, e)
  else
    let at_ := getSlot ev.sourceId ev.instrumentId
    let sl := (e.slots at_).touch F (e.sourceEpoch ev.sourceId.toNat)
    let res := FastResult.none.markIf (ev.bad F e.config.allowNegative) .invalid REASON_SCHEMA_VIOLATION
    if ev.sequenceNum ≥ 0 then
      let (res, sl) := sl.seqCheck e.config.seqJumpLimit ev.sequenceNum res
      let (res, sl) := finishSlot F e.config ev sl res
      (res, { e with slots := Function.update e.slots at_ sl })
    else if ev.exFin F then
      let (hit, dedup) := e.dedup.checkInsert (unseqDedupKey F e.hashSeed ev sl.epoch)
      let (res, sl) := finishSlot F e.config ev sl (res.markIf hit e.config.unseqDupStatus REASON_DUPLICATE)
      (res, { e with slots := Function.update e.slots at_ sl, dedup := dedup })
    else
      let (res, sl) := finishSlot F e.config ev sl res
      (res, { e with slots := Function.update e.slots at_ sl })

/-- `fastpath_engine_evaluate_batch`. -/
def evaluateBatch (e : FastEngine V) : List (FastEvent V) → List FastResult × FastEngine V
  | [] => ([], e)
  | ev :: evs =>
    let (res, e) := e.evaluateNolock F ev
    let (rest, e) := evaluateBatch e evs
    (res :: rest, e)

end FastEngine

end Mdrap

/-!
## The corridor of prices, in integers

A price is an anomaly when it is further from the mean of a window than so many standard deviations, or so many times a floor. Times
the number of prices and the denominator of the floor, squared, everything is an integer. Python computes with integers of any size; C
has 128 bits, and wraps around beyond them.
-/

namespace Mdrap

open Lib

/-- `fastpath_exact_int_corridor_check`, where integers of 128 bits are there. -/
def fastpathExactIntCorridorCheck (candidateScaled sumX : Int64) (countN sumX2Hi sumX2Lo : UInt64) (minSamples kStddev : Int32)
    (sigmaFloorNum sigmaFloorDen : Int64) : Int :=
  if countN.toNat < uint 64 minSamples.toInt ∨ sigmaFloorDen.toInt ≤ 0 ∨ kStddev.toInt ≤ 0 then 0
  else
    let n : Int := countN.toNat
    let x := candidateScaled.toInt
    let S1 := sumX.toInt
    let S2 := int128 (sumX2Hi.toNat <<< 64 ||| sumX2Lo.toNat : Nat)
    let dev := int128 (int128 (n * x) - S1)
    let dev2 := int128 (dev * dev)
    let V := int128 (int128 (n * S2) - int128 (S1 * S1))
    let V := if V < 0 then 0 else V
    let fNum := sigmaFloorNum.toInt
    let fDen := sigmaFloorDen.toInt
    let floorTerm := int128 (int128 (int128 (S1 * S1) * fNum) * fNum)
    let vScaled := int128 (int128 (V * fDen) * fDen)
    let maxTerm := if vScaled > floorTerm then vScaled else floorTerm
    let k := kStddev.toInt
    let lhs := int128 (int128 (dev2 * fDen) * fDen)
    let rhs := int128 (int128 (k * k) * maxTerm)
    if lhs > rhs then 1 else 0

/-- The reference of `exact_int_corridor_check`, in Python. -/
def exactIntCorridorCheck (candidateScaled sumX countN sumX2 minSamples kStddev sigmaFloorNum sigmaFloorDen : Int) : Bool :=
  if countN < minSamples ∨ sigmaFloorDen ≤ 0 ∨ kStddev ≤ 0 then false
  else
    let n := countN
    let x := candidateScaled
    let s1 := sumX
    let s2 := sumX2
    let dev := n * x - s1
    let dev2 := dev * dev
    let v := n * s2 - s1 * s1
    let v := if v < 0 then 0 else v
    let floorTerm := s1 * s1 * sigmaFloorNum * sigmaFloorNum
    let vScaled := v * sigmaFloorDen * sigmaFloorDen
    let maxTerm := if vScaled > floorTerm then vScaled else floorTerm
    let lhs := dev2 * sigmaFloorDen * sigmaFloorDen
    let rhs := kStddev * kStddev * maxTerm
    lhs > rhs

/-- A price and a window, as both checks take them: the number of prices, their sum and the sum of their squares, and the limits. -/
structure CorridorQuery where
  candidateScaled : Int64
  sumX : Int64
  countN : Nat
  sumX2 : Nat
  minSamples : Int32
  kStddev : Int32
  sigmaFloorNum : Int64
  sigmaFloorDen : Int64
  countN_pos : 1 ≤ countN
  countN_lt : countN < 2 ^ 63
  sumX2_lt : sumX2 < 2 ^ 127
  kStddev_pos : 0 < kStddev
  sigmaFloorDen_pos : 0 < sigmaFloorDen

namespace CorridorQuery

/-- The verdict of C, which gets the sum of squares in two words. -/
def native (q : CorridorQuery) : Int :=
  fastpathExactIntCorridorCheck q.candidateScaled q.sumX (.ofNat q.countN) (.ofNat (q.sumX2 >>> 64)) (.ofNat (q.sumX2 % 2 ^ 64))
    q.minSamples q.kStddev q.sigmaFloorNum q.sigmaFloorDen

/-- The verdict of Python. -/
def reference (q : CorridorQuery) : Bool :=
  exactIntCorridorCheck q.candidateScaled.toInt q.sumX.toInt q.countN q.sumX2 q.minSamples.toInt q.kStddev.toInt q.sigmaFloorNum.toInt
    q.sigmaFloorDen.toInt

end CorridorQuery

end Mdrap
