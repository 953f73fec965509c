import Mdrap.Lib.Dict
import Mdrap.Lib.Proc
import Mdrap.Engine.Types

/-!
# The state of the engine, and its undo journal

The state is a record of dictionaries, most of them with one entry for each stream or for each epoch of a stream. A step changes
it in place and writes into a journal how to undo each change. An exception undoes the changes of its step from the journal; what
is not in the journal stays as it is.

Sequence gaps are kept by a manager of its own, outside the state and outside the journal.
-/

namespace Mdrap

open Lib

variable {V : Type}

/-! ## The state -/

/-- What an event without a sequence number is known by: an id the feed gave it, or its content. -/
inductive Fingerprint (V : Type) where
  | id (source instrument : String) (eventType : EventType) (id : String)
  | content (source instrument : String) (eventType : EventType) (exchTs : V) (values : List (Option V))

/-- Two fingerprints are equal as Python compares them. -/
def Fingerprint.same (P : Py V) : Fingerprint V → Fingerprint V → Bool
  | .id s i e x, .id s' i' e' x' => s = s' ∧ i = i' ∧ e = e' ∧ x = x'
  | .content s i e ts vs, .content s' i' e' ts' vs' =>
    s = s' ∧ i = i' ∧ e = e' ∧ P.eq ts ts' ∧ vs.length = vs'.length ∧ (vs.zip vs').all (fun p =>
      match p with
      | (none, none) => true
      | (some a, some b) => P.eq a b
      | _ => false)
  | _, _ => false

/-- How many decisions of each status there were. -/
structure Counts where
  valid : Nat
  suspicious : Nat
  invalid : Nat
  deriving DecidableEq

namespace Counts

def get (c : Counts) : QualityStatus → Nat
  | .valid => c.valid
  | .suspicious => c.suspicious
  | .invalid => c.invalid

def set (c : Counts) (s : QualityStatus) (n : Nat) : Counts :=
  match s with
  | .valid => { c with valid := n }
  | .suspicious => { c with suspicious := n }
  | .invalid => { c with invalid := n }

end Counts

/-- The quote of a source. -/
structure Quote (V : Type) where
  bid : Option V
  ask : Option V

/-- `EngineState`. -/
structure EngineState (V : Type) where
  eventCount : Nat
  lastAppliedOffset : Int
  observedCount : Nat
  sequenceState : Dict String Int
  sequenceSeen : Dict String Nat
  sequenceCand : Dict String Int
  sequenceRegress : Dict String Nat
  sequenceStaleSeen : Dict String (List Int)
  dedupWindow : List (Fingerprint V)
  dedupSet : List (Fingerprint V)
  priceWindows : Dict String (List V)
  bboState : Dict String (Dict String (Quote V))
  reconciliationState : Dict String (Dict String (V × V))
  counts : Counts
  stalenessThresholdS : V
  epochState : Dict String Nat
  epochTs : Dict String V
  sessionState : Dict String String
  priceStats : Dict String (V × V × Nat)
  priceAnom : Dict String (Nat × V)

/-- `create_initial_state`. -/
def EngineState.initial (stalenessThresholdS : V) : EngineState V where
  eventCount := 0
  lastAppliedOffset := -1
  observedCount := 0
  sequenceState := .empty
  sequenceSeen := .empty
  sequenceCand := .empty
  sequenceRegress := .empty
  sequenceStaleSeen := .empty
  dedupWindow := []
  dedupSet := []
  priceWindows := .empty
  bboState := .empty
  reconciliationState := .empty
  counts := ⟨0, 0, 0⟩
  stalenessThresholdS := stalenessThresholdS
  epochState := .empty
  epochTs := .empty
  sessionState := .empty
  priceStats := .empty
  priceAnom := .empty

/-! ## Gaps -/

/-- Where a missing event belongs. -/
structure GapCoord where
  source : String
  instrument : String
  epoch : Nat
  seq : Int
  deriving DecidableEq

/-- An open gap: the number that showed it, and when that was. -/
structure GapRecord where
  receivedSeq : Int
  openedTs : Json

/-- `GapManager`. -/
structure GapManager where
  maxOpenGaps : Nat
  openGaps : Dict GapCoord GapRecord
  filledCount : Nat
  unrecoverableCount : Nat

namespace GapManager

/-- A manager that has seen nothing. -/
def new (maxOpenGaps : Nat) : GapManager := ⟨maxOpenGaps, .empty, 0, 0⟩

/-- Open a gap, unless it is open. Beyond the capacity the oldest one is given up. -/
def openGap (g : GapManager) (c : GapCoord) (r : GapRecord) : GapManager :=
  if g.openGaps.contains c then g
  else
    let gaps := g.openGaps.set c r
    if g.maxOpenGaps < gaps.size then { g with openGaps := ⟨gaps.items.tail⟩, unrecoverableCount := g.unrecoverableCount + 1 }
    else { g with openGaps := gaps }

/-- `record_gap`: at most a thousand numbers are tracked. -/
def recordGap (g : GapManager) (source instrument : String) (expectedStart receivedSeq : Int) (epoch : Nat) (now : Json) :
    GapManager :=
  (List.range (min (receivedSeq - expectedStart) 1000).toNat).foldl
    (fun g i => g.openGap ⟨source, instrument, epoch, expectedStart + i⟩ ⟨receivedSeq, now⟩) g

/-- `try_fill`. -/
def tryFill (g : GapManager) (source instrument : String) (seq : Int) (epoch : Nat) : Bool × GapManager :=
  let c : GapCoord := ⟨source, instrument, epoch, seq⟩
  if g.openGaps.contains c then (true, { g with openGaps := g.openGaps.erase c, filledCount := g.filledCount + 1 }) else (false, g)

end GapManager

/-! ## The journal -/

/-- An entry of the undo journal: what a part of the state was before. -/
inductive UndoAction (V : Type) where
  | eventCount (old : Nat)
  | observedCount (old : Nat)
  | lastAppliedOffset (old : Int)
  | count (status : QualityStatus) (old : Nat)
  | sequenceState (key : String) (old : Option Int)
  | sequenceSeen (key : String) (old : Option Nat)
  | sequenceCand (key : String) (old : Option Int)
  | sequenceRegress (key : String) (old : Option Nat)
  | priceWindow (key : String) (old : Option (List V))
  | priceAnom (key : String) (old : Option (Nat × V))
  | priceStats (key : String) (old : Option (V × V × Nat))
  | epochState (key : String) (old : Option Nat)
  | epochTs (key : String) (old : Option V)
  | sessionState (key : String) (old : Option String)
  | bbo (instrument source : String) (hadInst : Bool) (old : Option (Quote V))
  | recon (instrument source : String) (hadInst : Bool) (old : Option (V × V))
  | dedup (added : Fingerprint V) (evicted : Option (Fingerprint V))

/-- Put an entry of a nested dictionary back: without the outer key before, the outer key is removed. -/
def undoNested {α : Type} (d : Dict String (Dict String α)) (outer inner : String) (hadOuter : Bool) (old : Option α) :
    Dict String (Dict String α) :=
  if hadOuter then
    match d.get? outer with
    | some e => d.set outer (e.restore inner old)
    | none => d
  else d.erase outer

/-- Undo one entry. -/
def UndoAction.undo (P : Py V) (a : UndoAction V) (s : EngineState V) : EngineState V :=
  match a with
  | .eventCount old => { s with eventCount := old }
  | .observedCount old => { s with observedCount := old }
  | .lastAppliedOffset old => { s with lastAppliedOffset := old }
  | .count status old => { s with counts := s.counts.set status old }
  | .sequenceState key old => { s with sequenceState := s.sequenceState.restore key old }
  | .sequenceSeen key old => { s with sequenceSeen := s.sequenceSeen.restore key old }
  | .sequenceCand key old => { s with sequenceCand := s.sequenceCand.restore key old }
  | .sequenceRegress key old => { s with sequenceRegress := s.sequenceRegress.restore key old }
  | .priceWindow key old => { s with priceWindows := s.priceWindows.restore key old }
  | .priceAnom key old => { s with priceAnom := s.priceAnom.restore key old }
  | .priceStats key old => { s with priceStats := s.priceStats.restore key old }
  | .epochState key old => { s with epochState := s.epochState.restore key old }
  | .epochTs key old => { s with epochTs := s.epochTs.restore key old }
  | .sessionState key old => { s with sessionState := s.sessionState.restore key old }
  | .bbo instrument source hadInst old => { s with bboState := undoNested s.bboState instrument source hadInst old }
  | .recon instrument source hadInst old =>
    { s with reconciliationState := undoNested s.reconciliationState instrument source hadInst old }
  | .dedup added evicted =>
    let window := s.dedupWindow.dropLast
    let set := s.dedupSet.filter (fun x => !x.same P added)
    match evicted with
    | none => { s with dedupWindow := window, dedupSet := set }
    | some e => { s with dedupWindow := e :: window, dedupSet := set ++ [e] }

/-- What a step works on: the state, the journal with its newest entry first, and the gap manager, if there is one. -/
structure Work (V : Type) where
  state : EngineState V
  journal : List (UndoAction V)
  gaps : Option GapManager

/-- `rollback_to`: undo the newest entries until as many are left as there were at the mark. -/
def Work.rollbackTo (P : Py V) (w : Work V) (mark : Nat) : Work V where
  __ := w
  state := (w.journal.take (w.journal.length - mark)).foldl (fun s a => a.undo P s) w.state
  journal := w.journal.drop (w.journal.length - mark)

end Mdrap
