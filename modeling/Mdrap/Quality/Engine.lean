import Mathlib.Algebra.Order.Field.Rat
import Mdrap.Lib.Machine
import Mdrap.Lib.Proc
import Mdrap.Lib.Runs
import Mdrap.Lib.Sort
import Mdrap.Quality.Slot

/-!
# The quality engine

`QualityEngine` checks events one by one. It keeps a slot for each source and instrument, with the sequence seen so far, a watermark
of the exchange's time, a rolling baseline of prices and the events it holds back until the numbers before them have come. What a
call raises leaves the engine as it was changed by then.

A stage says which marks it puts on the event, in order; each mark is counted. The rules of a user only read an event.
-/

namespace Mdrap

open Lib

variable {V : Type}

/-! ## Events and configuration -/

/-- `CanonicalEvent`, as the quality engine reads it. An event type is one of those it knows or any other; `object` says which event
object this is. -/
structure MarketEvent (V : Type) where
  object : Nat
  source : String
  instrumentId : String
  eventType : Option EventType
  exchangeTimestamp : V
  receiveTimestamp : V
  sequenceNumber : Option Int
  price : Option V
  quantity : Option V
  bidPrice : Option V
  askPrice : Option V
  bidSize : Option V
  askSize : Option V
  sessionId : Option String
  venue : String
  qualityStatus : QualityStatus
  reasons : List String

/-- A mark: the status it calls for, and the reason. -/
abbrev Mark := QualityStatus × Reason

namespace MarketEvent

/-- `_mark`. -/
def mark (ev : MarketEvent V) (m : Mark) : MarketEvent V where
  __ := ev
  qualityStatus := if ev.qualityStatus.severityLevel < m.1.severityLevel then m.1 else ev.qualityStatus
  reasons := if m.2.value ∈ ev.reasons then ev.reasons else ev.reasons ++ [m.2.value]

/-- Marks, one after the other. -/
def markAll (ev : MarketEvent V) (ms : List Mark) : MarketEvent V := ms.foldl mark ev

/-- A trade or a quote. -/
def hasMarket (ev : MarketEvent V) : Bool := ev.eventType = some .trade ∨ ev.eventType = some .quote

end MarketEvent

/-- The parts of `QualityConfig` the checks of an event read. -/
structure QualityLimits (V : Type) where
  stalenessThreshold : V
  priceAnomalyStddev : V
  priceWindow : Int
  priceMinSamples : Int
  priceReseedAfter : Int
  priceSigmaFloorRel : V
  priceReseedBandRel : V
  maxFutureSkew : V
  seqJumpLimit : Int
  allowNegative : Bool
  unseqDupStatus : QualityStatus
  reorderWindow : V
  reorderMaxSlots : Int
  sessionPolicy : SessionPolicy

/-- The defaults of `QualityConfig`. -/
def QualityLimits.default (F : Floats V) : QualityLimits V where
  stalenessThreshold := F.dec 5 (-2)
  priceAnomalyStddev := F.int 6
  priceWindow := 50
  priceMinSamples := 20
  priceReseedAfter := 8
  priceSigmaFloorRel := F.dec 2 (-4)
  priceReseedBandRel := F.dec 1 (-2)
  maxFutureSkew := F.int 1
  seqJumpLimit := 2 ^ 24
  allowNegative := false
  unseqDupStatus := .suspicious
  reorderWindow := F.int 0
  reorderMaxSlots := 32
  sessionPolicy := .strict

/-- A rule of the user: a predicate that may raise, and what it marks. -/
structure UserRule (V : Type) where
  name : String
  severity : QualityStatus
  func : MarketEvent V → Option Bool

/-- What an engine is set up with: the limits for an instrument, the size of the table for events without a number, how many slots
there may be, and the rules of the user. -/
structure QualitySetup (V : Type) where
  limits : String → QualityLimits V
  dedupCacheSize : Int
  maxTrackedInstruments : Nat
  userRules : List (UserRule V)

/-- The same limits for every instrument, no rules, and the defaults for the rest. -/
def QualitySetup.of (limits : QualityLimits V) : QualitySetup V := ⟨fun _ => limits, 200000, 100000, []⟩

/-- Exact numbers. -/
def exactNumbers : Floats (Option ℚ) := .exact id (fun _ => 0)

/-! ## Prices -/

/-- The rolling baseline of a slot. -/
structure Prices (V : Type) where
  ring : List V
  n : Nat
  head : Nat
  mean : V
  m2 : V
  anomCount : Nat
  anomLast : V
  foldCount : Nat

namespace Prices

def WARMUP_PRICE_DEV_RATIO : Int × Int := (10, -2)
def NSE_CIRCUIT_FILTER_RATIO : Int × Int := (10, -2)
def XETR_VOLATILITY_INTERRUPTION_RATIO : Int × Int := (5, -2)
def TSE_SPECIAL_QUOTE_RATIO : Int × Int := (8, -2)
def RECENTER_FOLD_WINDOW_MULTIPLIER : Int := 64
def MIN_SAMPLES_FOR_VARIANCE : Nat := 3

def indexError : PyError := ⟨"IndexError", "list index out of range"⟩

def overflowError : PyError := ⟨"OverflowError", "(34, 'Numerical result out of range')"⟩

/-- A ring of zeros, of which nothing is used. -/
def new (F : Floats V) (window : Int) : Prices V :=
  ⟨List.replicate window.toNat (F.int 0), 0, 0, F.int 0, F.int 0, 0, F.int 0, 0⟩

/-- The squares of the deviations from the mean, and their sum. -/
def sumSquares (F : Floats V) (mean : V) (vs : List V) : Option V :=
  vs.foldl (fun acc v => do return F.add (← acc) (← F.square (F.sub v mean))) (some (F.int 0))

/-- A price in the window: over the oldest one where the window is full, else behind the last one. -/
def insert (F : Floats V) (window : Int) (x : V) (p : Prices V) : Except PyError (Prices V) :=
  if p.n ≥ window then
    match p.ring[p.head]? with
    | none => .error indexError
    | some old =>
      let d := F.sub x old
      let nm := F.add p.mean (F.div d (F.int window))
      let m2 := F.add p.m2 (F.mul d (F.add (F.sub x nm) (F.sub old p.mean)))
      let head := p.head + 1
      .ok { p with
        m2 := if F.lt m2 (F.int 0) then F.int 0 else m2
        mean := nm
        ring := p.ring.set p.head x
        head := if head ≥ window then 0 else head }
  else
    let n := p.n + 1
    let delta := F.sub x p.mean
    let mean := F.add p.mean (F.div delta (F.int n))
    .ok { p with
      ring := p.ring.set p.n x
      n := n
      mean := mean
      m2 := F.add p.m2 (F.mul delta (F.sub x mean))
      head := if n ≥ window then 0 else n }

/-- The mean and the deviations again, from the window itself. -/
def recenter (F : Floats V) (p : Prices V) : Except PyError Unit × Prices V :=
  let used := p.ring.take p.n
  let mean := F.div (F.sum used) (F.int p.n)
  match sumSquares F mean used with
  | none => (.error overflowError, { p with foldCount := 0, mean := mean })
  | some m2 => (.ok (), { p with foldCount := 0, mean := mean, m2 := m2 })

/-- `fold_price`. -/
def foldPrice (F : Floats V) (window : Int) (x : V) (p : Prices V) : Except PyError Unit × Prices V :=
  match p.insert F window x with
  | .error e => (.error e, p)
  | .ok p =>
    if p.foldCount + 1 ≥ window * RECENTER_FOLD_WINDOW_MULTIPLIER then { p with foldCount := p.foldCount + 1 }.recenter F
    else (.ok (), { p with foldCount := p.foldCount + 1 })

/-- The square of the standard deviation, but not below the floor. -/
def sd2 (F : Floats V) (cfg : QualityLimits V) (p : Prices V) : V :=
  let var := if p.n > 0 then F.div p.m2 (F.int p.n) else F.int 0
  let var := if F.lt var (F.int 0) then F.int 0 else var
  let fl := F.mul cfg.priceSigmaFloorRel (F.abs p.mean)
  if F.lt (F.mul fl fl) var then var else F.mul fl fl

/-- A price far off the baseline. -/
def anomaly (F : Floats V) (cfg : QualityLimits V) (p : Prices V) (px : V) : Bool :=
  let dev := F.sub px p.mean
  if p.n ≥ MIN_SAMPLES_FOR_VARIANCE then
    if p.n ≥ cfg.priceMinSamples then
      F.lt (F.mul (F.mul cfg.priceAnomalyStddev cfg.priceAnomalyStddev) (p.sd2 F cfg)) (F.mul dev dev)
    else F.lt (F.int 0) (F.abs p.mean) ∧ F.lt (F.mul (F.dec WARMUP_PRICE_DEV_RATIO.1 WARMUP_PRICE_DEV_RATIO.2) (F.abs p.mean)) (F.abs dev)
  else false

/-- The rule of the venue that a price far off breaks. -/
def venueMarks (F : Floats V) (p : Prices V) (venue : String) (px : V) : List Mark :=
  let beyond (ratio : Int × Int) : Bool :=
    F.lt (F.int 0) p.mean ∧ F.le (F.dec ratio.1 ratio.2) (F.div (F.abs (F.sub px p.mean)) p.mean)
  if venue = "XNSE" ∧ beyond NSE_CIRCUIT_FILTER_RATIO then [(.suspicious, .circuitFilterBreach)]
  else if venue = "XETR" ∧ beyond XETR_VOLATILITY_INTERRUPTION_RATIO then [(.suspicious, .volatilityInterruption)]
  else if (venue = "XTKS" ∨ venue = "TSE") ∧ beyond TSE_SPECIAL_QUOTE_RATIO then [(.suspicious, .specialQuoteIndication)]
  else []

/-- How far from the last outlier the next one may be to belong to it. -/
def clusterTol (F : Floats V) (cfg : QualityLimits V) (p : Prices V) (px : V) : V :=
  let sd2 := if p.n ≥ MIN_SAMPLES_FOR_VARIANCE then p.sd2 F cfg else F.int 0
  let band := F.mul cfg.priceAnomalyStddev (F.sqrt sd2)
  let rel := F.mul cfg.priceReseedBandRel (F.abs px)
  let band := if F.lt band rel then rel else band
  F.max band (F.mul (F.dec 5 (-2)) (F.abs px))

/-- One more outlier, and a new baseline after so many of them. -/
def outlier (F : Floats V) (cfg : QualityLimits V) (px : V) (p : Prices V) : Except PyError Unit × Prices V :=
  let count := if p.anomCount > 0 ∧ F.le (F.abs (F.sub px p.anomLast)) (p.clusterTol F cfg px) then p.anomCount + 1 else 1
  if cfg.priceReseedAfter > 0 ∧ count ≥ cfg.priceReseedAfter then
    { p with n := 0, head := 0, mean := F.int 0, m2 := F.int 0, anomCount := 0, foldCount := 0, anomLast := px }.foldPrice
      F cfg.priceWindow px
  else (.ok (), { p with anomCount := count, anomLast := px })

/-- The fifth stage: the marks, and the baseline after the price. -/
def stage (F : Floats V) (cfg : QualityLimits V) (venue : String) (px : V) (p : Prices V) :
    List Mark × Except PyError Unit × Prices V :=
  if p.anomaly F cfg px then ((.suspicious, .priceAnomaly) :: p.venueMarks F venue px, p.outlier F cfg px)
  else ([], { p with anomCount := 0 }.foldPrice F cfg.priceWindow px)

end Prices

/-! ## Slots -/

/-- An event that is held back, with when it came and what the first stage found. -/
structure Held (V : Type) where
  arrived : V
  event : MarketEvent V
  bad : Bool
  hasBid : Bool
  hasAsk : Bool
  hasPrice : Bool

/-- `_SlotState`. -/
structure QualitySlot (V : Type) where
  lastSeq : Int
  hasSeq : Bool
  seen : Nat
  candPlus1 : Int
  regressCount : Nat
  staleSeen : List Int
  sessionId : Option String
  lastTs : V
  hasTs : Bool
  prices : Prices V
  pending : Dict Int (Held V)
  ready : List (MarketEvent V)

/-- What becomes of an event in the second stage: it is held back, goes on with some marks, or is done with. -/
inductive Placement where
  | held
  | goesOn (marks : List Mark)
  | done (marks : List Mark)

namespace QualitySlot

def new (F : Floats V) (window : Int) : QualitySlot V :=
  ⟨-1, false, 0, 0, 0, [], none, F.int 0, false, .new F window, .empty, []⟩

/-! ### The sequence -/

/-- A new epoch begins. -/
def epochReset (F : Floats V) (cfg : QualityLimits V) (sl : QualitySlot V) (ev : MarketEvent V) (seq : Int) : Bool :=
  if Reason.epochReset.value ∈ ev.reasons then true
  else
    match cfg.sessionPolicy with
    | .strict => false
    | .sessionMarker => ev.sessionId.isSome ∧ sl.sessionId.isSome ∧ ev.sessionId ≠ sl.sessionId
    | .autoDetect =>
      sl.hasSeq ∧ sl.hasTs ∧ (sl.lastSeq - seq ≥ 50 ∨ (sl.lastSeq > 10 ∧ seq ≤ 10)) ∧
        F.le (F.int 60) (F.sub ev.exchangeTimestamp sl.lastTs)

/-- The slot of a new epoch. -/
def clear (sl : QualitySlot V) : QualitySlot V :=
  { sl with lastSeq := -1, hasSeq := false, seen := 0, candPlus1 := 0, pending := .empty, regressCount := 0 }

/-- The slot, at the epoch and the session of an event. -/
def enter (sl : QualitySlot V) (reset : Bool) (ev : MarketEvent V) : QualitySlot V :=
  let sl := if reset then sl.clear else sl
  if ev.sessionId.isSome then { sl with sessionId := ev.sessionId } else sl

/-- There is room to wait for the numbers before this one. -/
def holds (F : Floats V) (cfg : QualityLimits V) (sl : QualitySlot V) (seq : Int) : Bool :=
  F.lt (F.int 0) cfg.reorderWindow ∧ 1 < seq - sl.lastSeq ∧ seq - sl.lastSeq ≤ cfg.reorderMaxSlots ∧
    sl.pending.size < cfg.reorderMaxSlots

/-- A number ahead of the last one. -/
def ahead (F : Floats V) (cfg : QualityLimits V) (sl : QualitySlot V) (seq : Int) (held : Held V) : Placement × QualitySlot V :=
  let jump := seq - sl.lastSeq
  if sl.holds F cfg seq then (.held, { sl with pending := sl.pending.set seq held })
  else if jump > cfg.seqJumpLimit then
    let cand := sl.candPlus1 - 1
    if sl.candPlus1 ≠ 0 ∧ seq > cand ∧ seq - cand ≤ cfg.seqJumpLimit then
      (.goesOn [(.suspicious, .sequenceGap)], { sl with lastSeq := seq, seen := 1, candPlus1 := 0 })
    else (.goesOn [(.suspicious, .sequenceGap)], { sl with candPlus1 := seq + 1 })
  else
    (.goesOn (if jump > 1 then [(.suspicious, .sequenceGap)] else []),
      { sl with seen := shiftSeen sl.seen jump, lastSeq := seq, candPlus1 := 0 })

/-- The list of numbers from before the window, with one more. -/
def pushStale (sl : QualitySlot V) (seq : Int) : QualitySlot V :=
  let stale := sl.staleSeen ++ [seq]
  { sl with staleSeen := if DEFAULT_STALE_SEEN_CAPACITY < stale.length then stale.tail else stale }

/-- The last number again, or one before it. -/
def behind (cfg : QualityLimits V) (sl : QualitySlot V) (seq : Int) : Placement × QualitySlot V :=
  let d := sl.lastSeq - seq
  if d < SEQUENCE_BITMAP_BITS then
    if sl.seen.testBit d.toNat then
      (.goesOn ((.invalid, .duplicate) :: if d > 0 then [(.invalid, .outOfOrder)] else []), sl)
    else (.goesOn [(.suspicious, .outOfOrder)], { sl with seen := sl.seen ||| 1 <<< d.toNat })
  else if seq ∈ sl.staleSeen then (.done [(.invalid, .duplicate), (.invalid, .outOfOrder)], sl)
  else if d > cfg.seqJumpLimit then
    if 2 ≤ sl.regressCount + 1 then
      (.done [(.suspicious, .outOfOrder)],
        { sl with lastSeq := seq, seen := 1, regressCount := 0, candPlus1 := 0, staleSeen := [] })
    else (.goesOn [(.suspicious, .outOfOrder)], { sl with regressCount := sl.regressCount + 1 }.pushStale seq)
  else (.goesOn [(.suspicious, .outOfOrder)], { sl with regressCount := 0 }.pushStale seq)

/-- The second stage, for a number that is not negative, in the slot of its epoch. -/
def place (F : Floats V) (cfg : QualityLimits V) (sl : QualitySlot V) (seq : Int) (held : Held V) : Placement × QualitySlot V :=
  if !sl.hasSeq then (.goesOn [], { sl with lastSeq := seq, seen := 1, hasSeq := true })
  else if seq > sl.lastSeq then sl.ahead F cfg seq held
  else sl.behind cfg seq

/-! ### Time -/

/-- The third stage: the watermark of the exchange's time. -/
def stageTime (F : Floats V) (cfg : QualityLimits V) (ev : MarketEvent V) (sl : QualitySlot V) : List Mark × QualitySlot V :=
  if F.isFinite ev.exchangeTimestamp ∧ F.isFinite ev.receiveTimestamp then
    let plausibleTs := F.le ev.exchangeTimestamp (F.add ev.receiveTimestamp cfg.maxFutureSkew)
    let late := sl.hasTs ∧ F.lt ev.exchangeTimestamp sl.lastTs
    let stale := ev.hasMarket ∧ F.lt cfg.stalenessThreshold (F.sub ev.receiveTimestamp ev.exchangeTimestamp)
    ((if plausibleTs then [] else [(.suspicious, .implausibleTs)]) ++ (if late then [(.suspicious, .outOfOrder)] else []) ++
        (if stale then [(.suspicious, .stale)] else []),
      if plausibleTs ∧ ¬late then { sl with lastTs := ev.exchangeTimestamp, hasTs := true } else sl)
  else ([], sl)

/-! ### Events that are held back -/

/-- The slot after the next number has come. -/
def advance (sl : QualitySlot V) : QualitySlot V :=
  { sl with
    pending := sl.pending.erase (sl.lastSeq + 1)
    lastSeq := sl.lastSeq + 1
    seen := (sl.seen <<< 1 ||| 1) &&& SEQUENCE_BITMAP_MASK }

/-- The slot after a number for which it waits no longer. -/
def skipTo (sl : QualitySlot V) (seq : Int) : QualitySlot V :=
  let jump := seq - sl.lastSeq
  let sl := { sl with pending := sl.pending.erase seq }
  if jump > 0 then { sl with seen := shiftSeen sl.seen jump, lastSeq := seq, candPlus1 := 0 } else sl

/-- The numbers of the events that have waited long enough. -/
def expired (F : Floats V) (cfg : QualityLimits V) (now : V) (force : Bool) (sl : QualitySlot V) : List Int :=
  ((sortBy (·.1) sl.pending.items).filter (fun kv => force || F.le cfg.reorderWindow (F.sub now kv.2.arrived))).map (·.1)

end QualitySlot

/-! ## The first stage -/

/-- A number that cannot be a price or a size. -/
def numBad (F : Floats V) (v : V) (allowNegative : Bool) : Bool := !F.isFinite v || (!allowNegative && F.lt v (F.int 0))

/-- The first stage: a field is missing or makes no sense. -/
def structurallyBad (F : Floats V) (cfg : QualityLimits V) (ev : MarketEvent V) : Bool :=
  (match ev.eventType with
    | some .trade => ev.price.isNone
    | some .quote => ev.bidPrice.isNone && ev.askPrice.isNone
    | _ => false) ||
  ev.price.any (numBad F · cfg.allowNegative) || ev.bidPrice.any (numBad F · cfg.allowNegative) ||
  ev.askPrice.any (numBad F · cfg.allowNegative) || ev.quantity.any (numBad F · false) || ev.bidSize.any (numBad F · false) ||
  ev.askSize.any (numBad F · false) || !F.isFinite ev.exchangeTimestamp || !F.isFinite ev.receiveTimestamp

/-! ## Events without a number -/

/-- The key of an event without a number. -/
structure UnseqKey (V : Type) where
  source : String
  instrumentId : String
  eventType : Option EventType
  exchangeTimestamp : V
  price : Option V
  quantity : Option V
  bidPrice : Option V
  askPrice : Option V
  bidSize : Option V
  askSize : Option V

/-- The key of an event without a number. -/
def MarketEvent.unseqKey (ev : MarketEvent V) : UnseqKey V :=
  ⟨ev.source, ev.instrumentId, ev.eventType, ev.exchangeTimestamp, ev.price, ev.quantity, ev.bidPrice, ev.askPrice, ev.bidSize,
    ev.askSize⟩

/-- Two fields are equal. -/
def eqField (F : Floats V) : Option V → Option V → Bool
  | none, none => true
  | some a, some b => F.eq a b
  | _, _ => false

def UnseqKey.eq (F : Floats V) (k l : UnseqKey V) : Bool :=
  k.source = l.source && k.instrumentId = l.instrumentId && k.eventType = l.eventType &&
    F.eq k.exchangeTimestamp l.exchangeTimestamp && eqField F k.price l.price && eqField F k.quantity l.quantity &&
    eqField F k.bidPrice l.bidPrice && eqField F k.askPrice l.askPrice && eqField F k.bidSize l.bidSize &&
    eqField F k.askSize l.askSize

/-- `_UnseqDedup`: two generations of keys. -/
structure UnseqDedup (V : Type) where
  active : List (UnseqKey V)
  older : List (UnseqKey V)
  count : Nat

namespace UnseqDedup

def new : UnseqDedup V := ⟨[], [], 0⟩

/-- `check_and_insert`. -/
def checkAndInsert (F : Floats V) (cacheSize : Int) (key : UnseqKey V) (t : UnseqDedup V) : Bool × UnseqDedup V :=
  let inActive := t.active.any (key.eq F)
  let hit := t.older.any (key.eq F) || inActive
  if inActive then (hit, t)
  else if ((t.count + 1 : Nat) : Int) ≥ max 100 (cacheSize / 2) then (hit, ⟨[], key :: t.active, 0⟩)
  else (hit, ⟨key :: t.active, t.older, t.count + 1⟩)

end UnseqDedup

/-! ## The engine -/

/-- What the engine counts. -/
structure Tally where
  counts : QualityStatus → Nat
  reasonCounts : Reason → Nat
  reorderRepaired : Nat
  reorderExpired : Nat

namespace Tally

def new : Tally := ⟨fun _ => 0, fun _ => 0, 0, 0⟩

/-- `_bump`, for each of the marks. -/
def bump (t : Tally) (ms : List Mark) : Tally :=
  { t with reasonCounts := fun r => t.reasonCounts r + ms.countP (fun m => m.2 = r) }

/-- One more event of a status. -/
def count (t : Tally) (status : QualityStatus) : Tally :=
  { t with counts := fun s => if s = status then t.counts s + 1 else t.counts s }

end Tally

/-- A slot at work, and the counts. -/
structure SlotWork (V : Type) where
  slot : QualitySlot V
  tally : Tally

/-- `QualityEngine`. -/
structure QualityEngine (V : Type) where
  slots : Dict (String × String) (QualitySlot V)
  unseqDedup : UnseqDedup V
  tally : Tally

/-- A procedure on a slot. -/
abbrev SlotM (V : Type) := Proc (SlotWork V) PyError

/-- A procedure on the engine. -/
abbrev QualityM (V : Type) := Proc (QualityEngine V) PyError

/-- `evaluate_user_rules`. -/
def evaluateUserRules (rules : List (UserRule V)) (ev : MarketEvent V) : MarketEvent V :=
  rules.foldl (fun ev rule =>
    match rule.func ev with
    | none => { ev with reasons := if "USER_RULE_ERROR" ∈ ev.reasons then ev.reasons else ev.reasons ++ ["USER_RULE_ERROR"] }
    | some false => ev
    | some true =>
      { ev with
        qualityStatus :=
          if rule.severity = .invalid then .invalid
          else if rule.severity = .suspicious ∧ ev.qualityStatus ≠ .invalid then .suspicious
          else ev.qualityStatus
        reasons := if rule.name ∈ ev.reasons then ev.reasons else ev.reasons ++ [rule.name] }) ev

namespace SlotWork

variable (F : Floats V) (cfg : QualityLimits V) (rules : List (UserRule V))

/-- Count the marks that are put on an event. -/
def tallied (ms : List Mark) : SlotM V Unit := Proc.modify (fun w => { w with tally := w.tally.bump ms })

/-- The fourth stage. -/
def crossedMarks (h : Held V) : List Mark :=
  match h.event.bidPrice, h.event.askPrice with
  | some bid, some ask => if !h.bad ∧ h.hasBid ∧ h.hasAsk ∧ F.lt ask bid then [(.invalid, .crossedQuote)] else []
  | _, _ => []

/-- The fifth stage, of an event that is not invalid so far and has a price. -/
def stagePrice (hasPrice : Bool) (ev : MarketEvent V) : SlotM V (MarketEvent V) :=
  match ev.price with
  | some px =>
    if ev.qualityStatus ≠ .invalid ∧ hasPrice ∧ F.isFinite px then fun w =>
      let (ms, result, prices) := w.slot.prices.stage F cfg ev.venue px
      (result.map (fun _ => ev.markAll ms), ⟨{ w.slot with prices := prices }, w.tally.bump ms⟩)
    else pure ev
  | none => pure ev

/-- `_finish_evaluation`. -/
def finishEvaluation (h : Held V) : SlotM V (MarketEvent V) := do
  let timed ← Proc.read (fun w => (w.slot.stageTime F cfg h.event).1)
  Proc.modify (fun w => { w with slot := (w.slot.stageTime F cfg h.event).2 })
  let ms := timed ++ crossedMarks F h
  tallied ms
  let ev ← stagePrice F cfg h.hasPrice (h.event.markAll ms)
  let ev := evaluateUserRules rules ev
  Proc.modify (fun w => { w with tally := w.tally.count ev.qualityStatus })
  return ev

/-- Release the events whose numbers follow on one another, and keep each in the slot as told. There are no more of them than are
held. -/
def release (keep : MarketEvent V → QualitySlot V → QualitySlot V) : Nat → SlotM V (List (MarketEvent V))
  | 0 => pure []
  | n + 1 => do
    match ← Proc.read (fun w => w.slot.pending.get? (w.slot.lastSeq + 1)) with
    | none => return []
    | some h =>
      Proc.modify (fun w => { w with slot := w.slot.advance, tally.reorderRepaired := w.tally.reorderRepaired + 1 })
      let ev ← finishEvaluation F cfg rules h
      Proc.modify (fun w => { w with slot := keep ev w.slot })
      let evs ← release keep n
      return ev :: evs

/-- The rest of `evaluate`, for an event that goes on with some marks: the other stages, and what it unlocks. -/
def complete (h : Held V) (ms : List Mark) : SlotM V (MarketEvent V) := do
  tallied ms
  let ev ← finishEvaluation F cfg rules { h with event := h.event.markAll ms }
  if F.lt (F.int 0) cfg.reorderWindow then
    let held ← Proc.read (fun w => w.slot.pending.size)
    let _ ← release F cfg rules (fun ev sl => { sl with ready := sl.ready ++ [ev] }) held
  return ev

/-- The marks of a new epoch. -/
def epochMarks (reset : Bool) : List Mark := if reset then [(.valid, .epochReset)] else []

/-- `evaluate` from the second stage on, for a number that is not negative. -/
def evaluateSequenced (h : Held V) (seq : Int) : SlotM V (Option (MarketEvent V)) := do
  let reset ← Proc.read (fun w => w.slot.epochReset F cfg h.event seq)
  let h := { h with event := h.event.markAll (epochMarks reset) }
  tallied (epochMarks reset)
  let placed ← Proc.read (fun w => ((w.slot.enter reset h.event).place F cfg seq h).1)
  Proc.modify (fun w => { w with slot := ((w.slot.enter reset h.event).place F cfg seq h).2 })
  match placed with
  | .held => return none
  | .done ms => do
    tallied ms
    return some (h.event.markAll ms)
  | .goesOn ms => do
    let ev ← complete F cfg rules h ms
    return some ev

/-! ### Draining -/

/-- Release the events with these numbers, and what each of them unlocks. -/
def drainSeqs : List Int → SlotM V (List (MarketEvent V))
  | [] => pure []
  | seq :: seqs => do
    match ← Proc.read (fun w => w.slot.pending.get? seq) with
    | none => drainSeqs seqs
    | some h =>
      tallied [(.suspicious, .sequenceGap)]
      Proc.modify (fun w => { w with slot := w.slot.skipTo seq, tally.reorderExpired := w.tally.reorderExpired + 1 })
      let ev ← finishEvaluation F cfg rules { h with event := h.event.mark (.suspicious, .sequenceGap) }
      let held ← Proc.read (fun w => w.slot.pending.size)
      let next ← release F cfg rules (fun _ sl => sl) held
      let evs ← drainSeqs seqs
      return ev :: next ++ evs

/-- `drain_expired`, for one slot. -/
def drainSlot (now : V) (force : Bool) : SlotM V (List (MarketEvent V)) := do
  let ready ← Proc.read (fun w => w.slot.ready)
  Proc.modify (fun w => { w with slot.ready := [] })
  let seqs ← Proc.read (fun w => w.slot.expired F cfg now force)
  let evs ← drainSeqs F cfg rules seqs
  return ready ++ evs

end SlotWork

namespace QualityEngine

open SlotWork

/-- Work on the slot of a key. -/
def onSlot {α : Type} (key : String × String) (m : SlotM V α) : QualityM V α := fun e =>
  match e.slots.get? key with
  | none => (.error ⟨"KeyError", ""⟩, e)
  | some sl =>
    let (result, w) := m ⟨sl, e.tally⟩
    (result, { e with slots := e.slots.set key w.slot, tally := w.tally })

variable (F : Floats V) (s : QualitySetup V)

/-- `_get_slot`: a new slot where there is none, and the oldest one goes where there are too many. -/
def getSlot (key : String × String) (window : Int) : QualityM V Unit := fun e =>
  match e.slots.get? key with
  | some _ => (.ok (), e)
  | none =>
    if e.slots.size ≥ s.maxTrackedInstruments then
      match e.slots.items with
      | [] => (.error ⟨"StopIteration", ""⟩, e)
      | _ :: rest => (.ok (), { e with slots := (Dict.mk rest).set key (.new F window) })
    else (.ok (), { e with slots := e.slots.set key (.new F window) })

/-- `evaluate` from the second stage on, for an event without a number. -/
def evaluateUnsequenced (cfg : QualityLimits V) (h : Held V) : QualityM V (Option (MarketEvent V)) := do
  let ev := h.event
  if F.isFinite ev.exchangeTimestamp then
    let hit ← Proc.read (fun e => (e.unseqDedup.checkAndInsert F s.dedupCacheSize ev.unseqKey).1)
    Proc.modify (fun e => { e with unseqDedup := (e.unseqDedup.checkAndInsert F s.dedupCacheSize ev.unseqKey).2 })
    let ev ← onSlot (ev.source, ev.instrumentId)
      (complete F cfg s.userRules h (if hit then [(cfg.unseqDupStatus, .duplicate)] else []))
    return some ev
  else
    let ev ← onSlot (ev.source, ev.instrumentId) (complete F cfg s.userRules h [])
    return some ev

/-- What the first stage hands on. -/
def checked (cfg : QualityLimits V) (now : V) (ev : MarketEvent V) : Held V :=
  let bad := structurallyBad F cfg ev
  ⟨now, if bad then ev.mark (.invalid, .schemaViolation) else ev, bad, ev.bidPrice.isSome, ev.askPrice.isSome, ev.price.isSome⟩

/-- `evaluate`, at a time of the monotonic clock. -/
def evaluate (now : V) (ev : MarketEvent V) : QualityM V (Option (MarketEvent V)) := do
  let cfg := s.limits ev.instrumentId
  getSlot F s (ev.source, ev.instrumentId) cfg.priceWindow
  if ev.eventType = none then
    let ev := ev.mark (.invalid, .schemaViolation)
    Proc.modify (fun e => { e with tally := (e.tally.bump [(.invalid, .schemaViolation)]).count ev.qualityStatus })
    return some ev
  else
    let h := checked F cfg now ev
    Proc.modify (fun e => { e with tally := e.tally.bump (if h.bad then [(.invalid, .schemaViolation)] else []) })
    match ev.sequenceNumber with
    | some seq =>
      if 0 ≤ seq then onSlot (ev.source, ev.instrumentId) (evaluateSequenced F cfg s.userRules h seq)
      else evaluateUnsequenced F s cfg h
    | none => evaluateUnsequenced F s cfg h

/-- Drain the slots of these keys, one after the other. -/
def drainSlots (now : V) (force : Bool) : List (String × String) → QualityM V (List (MarketEvent V))
  | [] => pure []
  | key :: keys => do
    let evs ← onSlot key (drainSlot F (s.limits key.2) s.userRules now force)
    let rest ← drainSlots now force keys
    return evs ++ rest

/-- `drain_expired`. -/
def drainExpired (now : V) (force : Bool) : QualityM V (List (MarketEvent V)) := do
  let keys ← Proc.read (fun e => e.slots.items.map (·.1))
  drainSlots F s now force keys

/-- A new engine. -/
def new : QualityEngine V := ⟨.empty, .new, .new⟩

end QualityEngine

/-- A call, at a time of the monotonic clock. -/
inductive QualityCall (V : Type) where
  | evaluate (now : V) (ev : MarketEvent V)
  | drainExpired (now : V) (force : Bool)

namespace QualityCall

/-- The event that is passed. -/
def passed : QualityCall V → List (MarketEvent V)
  | .evaluate _ ev => [ev]
  | .drainExpired _ _ => []

/-- What a call hands back, or what it raises. -/
def run (F : Floats V) (s : QualitySetup V) : QualityCall V → QualityM V (List (MarketEvent V))
  | .evaluate now ev => do return (← QualityEngine.evaluate F s now ev).toList
  | .drainExpired now force => QualityEngine.drainExpired F s now force

/-- The events that are handed back. -/
def handedBack : Except PyError (List (MarketEvent V)) → List (MarketEvent V)
  | .ok evs => evs
  | .error _ => []

variable (F : Floats V) (s : QualitySetup V)

/-- A call as a step. -/
def step (e : QualityEngine V) (c : QualityCall V) : Except PyError (List (MarketEvent V)) × QualityEngine V := c.run F s e

/-- What the calls of a run hand back. -/
def handed (e : QualityEngine V) (cs : List (QualityCall V)) : List (MarketEvent V) := (outcomes (step F s) e cs).flatMap handedBack

end QualityCall

end Mdrap
