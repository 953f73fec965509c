import Mathlib.Algebra.Order.Field.Basic
import Mathlib.Algebra.Order.Group.Unbundled.Abs
import Mathlib.Data.Prod.Lex
import Mathlib.Data.String.Basic
import Mdrap.Lib.Dict
import Mdrap.Lib.Sort
import Mdrap.Quality.Slot

/-!
# Strategies

A reconciler keeps an event of each feed of an instrument, and leaves it to a strategy to compare them: the feed that is the most
reliable is chosen, or the one whose price is in the middle. A strategy is given its window and its threshold, and says what it decided
and why; its numbers are exact here. What numbers and texts look like in a message is a parameter, and so is how a delay is rounded.
-/

namespace Mdrap.CrossFeed

open Lib

/-- `CanonicalEvent`, as far as a reconciler reads it. -/
structure Event (K : Type) where
  eventId : String
  instrumentId : String
  source : String
  exchangeTimestamp : K
  price : Option K
  qualityStatus : QualityStatus
  deriving DecidableEq

/-- `CanonicalDecision`. -/
structure Decision (K : Type) where
  instrumentId : String
  chosenSource : String
  chosenEventId : String
  disagreement : Bool
  reason : String
  competingSources : List String
  qualityReasons : List String
  leadSource : String
  leadLatencyDeltaMs : K
  deriving DecidableEq

/-- What a strategy is given. -/
structure SelectArgs (K : Type) where
  instrumentId : String
  candidates : Dict String (Event K × K)
  scores : Dict String K
  agreementWindow : K
  disagreementThreshold : K
  blocked : List String
  marketNow : Option K

/-- How lists and dictionaries are written, and `round(x, 3)`. -/
structure Texts (K : Type) where
  listText : List String → String
  pricesText : List (String × K) → String
  round3 : K → K

/-- A candidate that is compared, with its price. -/
structure Item (K : Type) where
  source : String
  event : Event K
  price : K
  timestamp : K
  deriving DecidableEq

variable {K : Type} [Field K] [LinearOrder K]

namespace SelectArgs

variable (a : SelectArgs K)

/-- A time is outside of the window. -/
def isOld (ts : K) : Prop := match a.marketNow with
  | none => False
  | some now => a.agreementWindow < |now - ts|

instance (ts : K) : Decidable (a.isOld ts) := by
  unfold isOld
  cases a.marketNow <;> infer_instance

/-- A candidate that is recent, is not blocked and has a price. -/
def item? (kv : String × Event K × K) : Option (Item K) :=
  if a.isOld kv.2.2 ∨ kv.1 ∈ a.blocked then none else kv.2.1.price.map (fun p => ⟨kv.1, kv.2.1, p, kv.2.2⟩)

/-- The candidates that are compared, in the order of their sources. -/
def items : List (Item K) := (sortBy (fun kv => kv.1) a.candidates.items).filterMap a.item?

/-- The score of a source. -/
def scoreOf (src : String) : K := (a.scores.get? src).getD 0

/-- A price is too far from a reference price, which has to be positive. -/
def disagrees (prices : List K) (reference : K) : Bool :=
  0 < reference ∧ ∃ p ∈ prices, a.disagreementThreshold < |p - reference| / reference

/-- The first of the sources with the earliest event, and how far it leads. -/
def lead (items : List (Item K)) : String × K :=
  match items with
  | [] => ("", 0)
  | first :: rest =>
    let earliest := rest.foldl (fun best it => if it.timestamp < best.timestamp then it else best) first
    (earliest.source, match a.marketNow with
      | none => 0
      | some now => max 0 ((now - earliest.timestamp) * 1000))

/-- The decision for a source, of the items in their order. -/
def decision (texts : Texts K) (items : List (Item K)) (source eventId : String) (disagreement : Bool) (selected : String) :
    Decision K where
  instrumentId := a.instrumentId
  chosenSource := source
  chosenEventId := eventId
  disagreement := disagreement
  reason :=
    if disagreement then
      "disagreement across " ++ texts.listText (items.map (·.source)) ++ " (prices=" ++
        texts.pricesText (items.map (fun it => (it.source, it.price))) ++ "); selected " ++ selected
    else "sources agree within threshold; selected " ++ selected
  competingSources := items.map (·.source)
  qualityReasons := if disagreement then [Reason.crossFeedDisagreement.value] else []
  leadSource := (a.lead items).1
  leadLatencyDeltaMs := texts.round3 (a.lead items).2

end SelectArgs

namespace HighestReliabilityStrategy

/-- What the loop of `select` has so far, next to the items. -/
structure Best (K : Type) where
  chosenSource : String
  chosenEvent : Option (Event K)
  bestScore : K
  totalPrice : K

/-- One turn of the loop. -/
def consider (a : SelectArgs K) (best : Best K) (it : Item K) : Best K :=
  let sc := a.scoreOf it.source
  let better := best.bestScore < sc ∨ (sc = best.bestScore ∧ (best.chosenSource = "" ∨ it.source < best.chosenSource))
  { chosenSource := if better then it.source else best.chosenSource
    chosenEvent := if better then some it.event else best.chosenEvent
    bestScore := if better then sc else best.bestScore
    totalPrice := best.totalPrice + it.price }

/-- The loop. -/
def considered (a : SelectArgs K) (items : List (Item K)) : Best K := items.foldl (consider a) ⟨"", none, -1, 0⟩

/-- `HighestReliabilityStrategy.select`. -/
def select (texts : Texts K) (a : SelectArgs K) : Option (Decision K) :=
  let items := a.items
  let best := considered a items
  match best.chosenEvent with
  | none => none
  | some event =>
    if items.length < 2 then none
    else
      some (a.decision texts items best.chosenSource event.eventId
        (a.disagrees (items.map (·.price)) (best.totalPrice / items.length)) "highest-reliability source")

end HighestReliabilityStrategy

namespace MedianPriceStrategy

/-- The items in the order of their prices, and of their sources where these are equal. -/
def sorted (items : List (Item K)) : List (Item K) := sortBy (fun it => toLex (it.price, it.source)) items

/-- The median price of sorted items, and the item that is chosen. -/
def middle (a : SelectArgs K) (items : List (Item K)) : Option (K × Item K) :=
  let mid := items.length / 2
  match items[mid - 1]?, items[mid]? with
  | some left, some right =>
    if items.length % 2 = 1 then some (right.price, right)
    else
      let median := (left.price + right.price) / 2
      let distLeft := |left.price - median|
      let distRight := |right.price - median|
      some (median,
        if distLeft < distRight then left
        else if distRight < distLeft then right
        else if a.scoreOf right.source ≤ a.scoreOf left.source then left else right)
  | _, _ => none

/-- `MedianPriceStrategy.select`. -/
def select (texts : Texts K) (a : SelectArgs K) : Option (Decision K) :=
  let items := sorted a.items
  if items.length < 2 then none
  else
    (middle a items).map (fun (median, chosen) =>
      a.decision texts items chosen.source chosen.event.eventId (a.disagrees (items.map (·.price)) median)
        ("median-price source " ++ chosen.source))

end MedianPriceStrategy

/-! ## The reconciler -/

/-- `Reconciler`, with its configuration and its strategy. -/
structure Reconciler (K : Type) where
  agreementWindow : K
  disagreementThreshold : K
  maxInstruments : Nat
  strategy : SelectArgs K → Option (Decision K)
  latest : Dict String (Dict String (Event K × K))
  blockedSources : List String

namespace Reconciler

/-- The feeds of an instrument, and those of the others: the instrument that was used the longest ago goes where there are too many. -/
def feedsOf {K : Type} (instrumentId : String) (r : Reconciler K) :
    Dict String (Event K × K) × Dict String (Dict String (Event K × K)) :=
  match r.latest.get? instrumentId with
  | some feeds => (feeds, r.latest.erase instrumentId)
  | none => (.empty, if r.maxInstruments ≤ r.latest.size then ⟨r.latest.items.tail⟩ else r.latest)

/-- `Reconciler.reconcile`, with the scores of the feeds. -/
def reconcile {K : Type} (scores : Dict String K) (event : Event K) (r : Reconciler K) : Option (Decision K) × Reconciler K :=
  if event.qualityStatus = .invalid ∨ event.price = none then (none, r)
  else
    let feeds := (r.feedsOf event.instrumentId).1.set event.source (event, event.exchangeTimestamp)
    let r' := { r with latest := (r.feedsOf event.instrumentId).2.set event.instrumentId feeds }
    if feeds.size < 2 then (none, r')
    else
      (r.strategy {
        instrumentId := event.instrumentId
        candidates := feeds
        scores := scores
        agreementWindow := r.agreementWindow
        disagreementThreshold := r.disagreementThreshold
        blocked := r.blockedSources
        marketNow := some event.exchangeTimestamp }, r')

/-- `block_source`. -/
def blockSource {K : Type} (source : String) (r : Reconciler K) : Reconciler K :=
  { r with blockedSources := if source ∈ r.blockedSources then r.blockedSources else r.blockedSources ++ [source] }

/-- `unblock_source`. -/
def unblockSource {K : Type} (source : String) (r : Reconciler K) : Reconciler K :=
  { r with blockedSources := r.blockedSources.filter (· ≠ source) }

/-- A new reconciler. -/
def new {K : Type} (agreementWindow disagreementThreshold : K) (maxInstruments : Nat)
    (strategy : SelectArgs K → Option (Decision K)) : Reconciler K :=
  ⟨agreementWindow, disagreementThreshold, maxInstruments, strategy, .empty, []⟩

end Reconciler

/-- What can happen to a reconciler. -/
inductive ReconcilerEvent (K : Type) where
  | reconcile (scores : Dict String K) (event : Event K)
  | blockSource (source : String)
  | unblockSource (source : String)

/-- One event of a reconciler. -/
def Reconciler.step {K : Type} (r : Reconciler K) : ReconcilerEvent K → Reconciler K
  | .reconcile scores event => (r.reconcile scores event).2
  | .blockSource source => r.blockSource source
  | .unblockSource source => r.unblockSource source

end Mdrap.CrossFeed
