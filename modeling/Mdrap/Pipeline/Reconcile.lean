import Mathlib.Data.String.Basic
import Mdrap.Gateway.Normalize
import Mdrap.Lib.Machine
import Mdrap.Lib.Sort

/-!
# Reconciliation

Each feed has a reliability, which every event of the feed moves. Where two feeds have a recent price for one instrument, the
reconciler compares them and picks the feed that is the most reliable. A feed's last price is kept, with the exchange's time of it.
-/

namespace Mdrap

open Lib

/-- `CanonicalEvent`, as far as the pipeline reads or writes it; an event type is none where it is unknown. -/
structure PipelineEvent where
  eventId : String
  instrumentId : String
  eventType : Option EventType
  exchangeTimestamp : UInt64
  receiveTimestamp : UInt64
  processingTimestamp : UInt64
  source : String
  sequenceNumber : Option Int
  price : Option UInt64
  quantity : Option UInt64
  bidPrice : Option UInt64
  bidSize : Option UInt64
  askPrice : Option UInt64
  askSize : Option UInt64
  qualityStatus : QualityStatus
  reasons : List String
  rawId : String
  sourceId : Int
  instrumentIdInt : Int
  sessionId : Option String
  venue : PyValue
  currency : PyValue
  clockSource : String
  sourceKind : String

/-- The event that `normalize` makes: valid so far, and not processed. -/
def GatewayEvent.toPipeline (ev : GatewayEvent) : PipelineEvent where
  eventId := ev.eventId
  instrumentId := ev.instrumentId
  eventType := some ev.eventType
  exchangeTimestamp := ev.exchangeTimestamp
  receiveTimestamp := ev.receiveTimestamp
  processingTimestamp := 0
  source := ev.source
  sequenceNumber := ev.sequenceNumber
  price := ev.price
  quantity := ev.quantity
  bidPrice := ev.bidPrice
  bidSize := ev.bidSize
  askPrice := ev.askPrice
  askSize := ev.askSize
  qualityStatus := .valid
  reasons := []
  rawId := ev.rawId
  sourceId := ev.sourceId
  instrumentIdInt := ev.instrumentIdInt
  sessionId := ev.sessionId
  venue := ev.venue
  currency := ev.currency
  clockSource := ev.clockSource
  sourceKind := ev.sourceKind

variable {V : Type}

/-- What is asked of numbers and texts: the number of some bits, `round(x, 4)`, and the texts of a list and of a dictionary. -/
structure ReconcileEnv (V : Type) where
  floats : Floats V
  num : UInt64 → V
  round4 : V → V
  listText : List String → String
  pricesText : List (String × V) → String

/-! ## Reliability -/

/-- `SourceStats`. -/
structure SourceStats (V : Type) where
  total : Nat
  invalid : Nat
  suspicious : Nat
  duplicate : Nat
  gap : Nat
  ewmaLatency : V
  ewmaErrorRate : V
  ewmaGapRate : V
  ewmaDupRate : V

/-- `ReliabilityTracker`. -/
structure ReliabilityTracker (V : Type) where
  alpha : V
  stats : Dict String (SourceStats V)
  cachedScores : Dict String V

namespace SourceStats

variable (env : ReconcileEnv V)

/-- `max(0.0, 1.0 - min(1.0, rate))`. -/
def share (rate : V) : V :=
  let F := env.floats
  F.max (F.int 0) (F.sub (F.int 1) (if F.lt rate (F.int 1) then rate else F.int 1))

/-- `score`. -/
def score (s : SourceStats V) : V :=
  let F := env.floats
  if s.total = 0 then F.int 1
  else
    let latencyPenalty := F.div (F.int 1) (F.add (F.int 1) (F.mul s.ewmaLatency (F.int 100)))
    env.round4 (F.add
      (F.add (F.add (F.mul (F.dec 40 (-2)) (share env s.ewmaErrorRate)) (F.mul (F.dec 25 (-2)) (share env s.ewmaGapRate)))
        (F.mul (F.dec 20 (-2)) (share env s.ewmaDupRate)))
      (F.mul (F.dec 15 (-2)) latencyPenalty))

/-- The first value, or the old one moved towards the new one. -/
def smooth (alpha : V) (first : Bool) (old new : V) : V :=
  let F := env.floats
  if first then new else F.add (F.mul (F.sub (F.int 1) alpha) old) (F.mul alpha new)

end SourceStats

namespace ReliabilityTracker

variable (env : ReconcileEnv V)

/-- `observe`. -/
def observe (event : PipelineEvent) (t : ReliabilityTracker V) : ReliabilityTracker V :=
  let F := env.floats
  let zero := F.int 0
  let s := (t.stats.get? event.source).getD ⟨0, 0, 0, 0, 0, zero, zero, zero, zero⟩
  let isInvalid := event.qualityStatus = .invalid
  let isSuspicious := event.qualityStatus = .suspicious
  let isDup := Reason.duplicate.value ∈ event.reasons
  let isGap := Reason.sequenceGap.value ∈ event.reasons
  let latency := F.max zero (F.sub (env.num event.receiveTimestamp) (env.num event.exchangeTimestamp))
  let first := s.total = 0
  let rate (b : Bool) : V := if b then F.int 1 else zero
  let s := {
    total := s.total + 1
    invalid := if isInvalid then s.invalid + 1 else s.invalid
    suspicious := if isSuspicious then s.suspicious + 1 else s.suspicious
    duplicate := if isInvalid ∧ isDup then s.duplicate + 1 else s.duplicate
    gap := if isSuspicious ∧ isGap then s.gap + 1 else s.gap
    ewmaLatency := SourceStats.smooth env t.alpha first s.ewmaLatency latency
    ewmaErrorRate := SourceStats.smooth env t.alpha first s.ewmaErrorRate (rate (isInvalid ∨ isSuspicious))
    ewmaGapRate := SourceStats.smooth env t.alpha first s.ewmaGapRate (rate isGap)
    ewmaDupRate := SourceStats.smooth env t.alpha first s.ewmaDupRate (rate isDup) }
  { t with stats := t.stats.set event.source s, cachedScores := t.cachedScores.set event.source (s.score env) }

end ReliabilityTracker

/-! ## The reconciler -/

/-- `CanonicalDecision`, as far as the pipeline reads it. -/
structure CanonicalDecision where
  chosenSource : String
  disagreement : Bool
  reason : String
  qualityReasons : List String

/-- The last event of a feed, as far as it is read again: its price and its time. -/
structure Candidate (V : Type) where
  price : Option V
  exchangeTimestamp : V

/-- `Reconciler`. -/
structure Reconciler (V : Type) where
  maxInstruments : Nat
  latest : Dict String (Dict String (Candidate V))
  blockedSources : List String

/-- What the loop of `select` has so far. -/
structure Selection (V : Type) where
  recent : List (String × V)
  chosen : Option String
  bestScore : V
  totalPrice : V

namespace HighestReliabilityStrategy

variable (env : ReconcileEnv V)

/-- One turn of the loop. -/
def consider (scores : Dict String V) (blocked : List String) (marketNow : V) (sel : Selection V) (src : String)
    (c : Candidate V) : Selection V :=
  let F := env.floats
  if F.lt (F.dec 25 (-2)) (F.abs (F.sub marketNow c.exchangeTimestamp)) ∨ src ∈ blocked then sel
  else
    match c.price with
    | none => sel
    | some p =>
      let sc := (scores.get? src).getD (F.int 0)
      let chosenSource := sel.chosen.getD ""
      let better := F.lt sel.bestScore sc ∨ (F.eq sc sel.bestScore ∧ (chosenSource = "" ∨ src < chosenSource))
      { recent := sel.recent ++ [(src, p)]
        chosen := if better then some src else sel.chosen
        bestScore := if better then sc else sel.bestScore
        totalPrice := F.add sel.totalPrice p }

/-- The loop, over the sources in order. -/
def consideredAll (candidates : Dict String (Candidate V)) (scores : Dict String V) (blocked : List String) (marketNow : V) :
    Selection V :=
  (sortBy (fun kv => kv.1) candidates.items).foldl (fun sel kv => consider env scores blocked marketNow sel kv.1 kv.2)
    ⟨[], none, env.floats.int (-1), env.floats.int 0⟩

/-- Whether a price is too far from the mean of them. -/
def disagrees (sel : Selection V) : Bool :=
  let F := env.floats
  let mean := F.div sel.totalPrice (F.int sel.recent.length)
  F.lt (F.int 0) mean ∧
    sel.recent.any (fun sp => F.lt (F.dec 5 (-3)) (F.div (F.abs (F.sub sp.2 mean)) mean))

/-- The reason of a decision. -/
def reasonOf (sel : Selection V) : String :=
  if disagrees env sel then
    "disagreement across " ++ env.listText (sel.recent.map (·.1)) ++ " (prices=" ++ env.pricesText sel.recent ++
      "); selected highest-reliability source"
  else "sources agree within threshold; selected highest-reliability source"

/-- `select`. -/
def select (candidates : Dict String (Candidate V)) (scores : Dict String V) (blocked : List String) (marketNow : V) :
    Option CanonicalDecision :=
  let sel := consideredAll env candidates scores blocked marketNow
  match sel.chosen with
  | none => none
  | some chosenSource =>
    if sel.recent.length < 2 then none
    else
      some {
        chosenSource := chosenSource
        disagreement := disagrees env sel
        reason := reasonOf env sel
        qualityReasons := if disagrees env sel then [Reason.crossFeedDisagreement.value] else [] }

end HighestReliabilityStrategy

namespace Reconciler

variable (env : ReconcileEnv V)

/-- The feeds of an instrument: a new table where there is none, and the oldest instrument goes where there are too many. -/
def feedsOf (instrumentId : String) (r : Reconciler V) : Dict String (Candidate V) × Dict String (Dict String (Candidate V)) :=
  match r.latest.get? instrumentId with
  | some feeds => (feeds, r.latest.erase instrumentId)
  | none => (.empty, if r.maxInstruments ≤ r.latest.size then ⟨r.latest.items.tail⟩ else r.latest)

/-- `reconcile`. -/
def reconcile (scores : Dict String V) (event : PipelineEvent) (r : Reconciler V) : Option CanonicalDecision × Reconciler V :=
  match event.price with
  | none => (none, r)
  | some price =>
    if event.qualityStatus = .invalid then (none, r)
    else
      let marketNow := env.num event.exchangeTimestamp
      let (feeds, others) := r.feedsOf event.instrumentId
      let feeds := feeds.set event.source ⟨some (env.num price), marketNow⟩
      let r := { r with latest := others.set event.instrumentId feeds }
      if feeds.size < 2 then (none, r)
      else (HighestReliabilityStrategy.select env feeds scores r.blockedSources marketNow, r)

end Reconciler

end Mdrap
