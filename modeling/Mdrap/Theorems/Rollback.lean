import Mdrap.Lib.Runs
import Mdrap.Engine.Exact
import Mdrap.Lemmas.OldNumbers
import Mdrap.Lemmas.TakenBack

/-!
# What a failure leaves behind

A step that raises is rolled back, and so is a call of `submit` whose log fails. The journal knows everything that a step changes but
the lists of old numbers: a failed step leaves these changed exactly where its event has noted an old number, and nothing else but
its counters; a failed call, which has only counted its events, leaves nothing.
-/

namespace Mdrap

open Lib

variable {V : Type} {P : Py V}

/-! ## The lists of old numbers -/

theorem undo_old (a : UndoAction V) (s : EngineState V) : (a.undo P s).sequenceStaleSeen = s.sequenceStaleSeen := by
  cases a with
  | dedup added evicted => cases evicted <;> rfl
  | _ => rfl

/-- Rolling back leaves the lists of old numbers as they are. -/
theorem rollbackTo_old (w : Work V) (mark : Nat) :
    (w.rollbackTo P mark).state.sequenceStaleSeen = w.state.sequenceStaleSeen :=
  undoAll_keeps (f := EngineState.sequenceStaleSeen) undo_old _ _

theorem observe_old (n : Nat) : Proc.Frame KeepsOld (observe n : StepM V Unit) := by
  induction n with
  | zero => exact Keeps.pure _
  | succ n ih => exact fun w => Keeps.trans w _ _ rfl (ih _)

/-- A step, whether or not it raises, leaves the lists as they were exactly where its event does not note an old number. -/
theorem step_old (c : StepConfig V) (raw : RawEvent) (now : Json) (offset : Option Int) (isReplay : Bool) (w : Work V) :
    SameOld w.state.sequenceStaleSeen (step c raw now offset isReplay w).2.state.sequenceStaleSeen ↔
      ¬w.state.NotesOld c raw now (offset.getD w.state.eventCount) := by
  have hjudge := judge_old c raw now (offset.getD w.state.eventCount) isReplay (w.begun (offset.getD w.state.eventCount))
  rw [← stepInternal_eq] at hjudge
  have hstep : (step c raw now offset isReplay w).2.state.sequenceStaleSeen =
      (stepInternal c raw now (offset.getD w.state.eventCount) isReplay w).2.state.sequenceStaleSeen := by
    unfold step
    dsimp only
    rcases stepInternal c raw now (offset.getD w.state.eventCount) isReplay w with ⟨exc | d, w'⟩
    · exact rollbackTo_old w' _
    · rfl
  rw [hstep]
  exact hjudge

/-! ## States that are the same -/

/-- Every field is the same: the dictionaries have the same entries, and the set the same members. -/
structure EngineState.Same (P : Py V) (s t : EngineState V) : Prop extends Restored P s t where
  old : SameOld t.sequenceStaleSeen s.sequenceStaleSeen

/-- The state with the number of events, the last offset and the number of invalid events of another one. -/
def EngineState.recounted (s t : EngineState V) : EngineState V where
  __ := s
  eventCount := t.eventCount
  lastAppliedOffset := t.lastAppliedOffset
  counts := { s.counts with invalid := t.counts.invalid }

theorem countUnhandled_counts (n : Nat) (w : Work V) : (countUnhandled n w).2.state.counts =
    { w.state.counts with invalid := (countUnhandled n w).2.state.counts.invalid } := rfl

/-- What a step leaves that has raised: the state it began in, but for three counters and the lists of old numbers. -/
theorem step_raised (hP : P.EqLaws) {c : StepConfig V} (hc : c.py = P) {raw : RawEvent} {now : Json} {offset : Option Int}
    {isReplay : Bool} {w : Work V} (hw : w.state.Deduped P)
    (hraises : Raises c raw now (offset.getD w.state.eventCount) isReplay w) :
    Restored P (step c raw now offset isReplay w).2.state
      (w.state.recounted (step c raw now offset isReplay w).2.state) := by
  subst hc
  have hinternal := Logged.stepInternal c hP raw now (offset.getD w.state.eventCount) isReplay w
  unfold Raises at hraises
  unfold step
  dsimp only
  rcases hres : stepInternal c raw now (offset.getD w.state.eventCount) isReplay w with ⟨exc | d, w'⟩
  · rw [hres] at hinternal
    have hback := (hinternal.rollbackTo hw).1
    refine { hback with eventCount := rfl, lastAppliedOffset := rfl, counts := ?_ }
    refine (countUnhandled_counts _ _).trans ?_
    rw [hback.counts]
    rfl
  · rw [hres] at hraises
    cases hraises

/-! ## Within a transaction -/

/-- What is done in a transaction: an event is counted, or a step is taken. -/
inductive TxnMove where
  | observe
  | step (raw : RawEvent) (now : Json) (offset : Option Int) (isReplay : Bool)

/-- The work after a move. -/
def TxnMove.apply (c : StepConfig V) (w : Work V) : TxnMove → Work V
  | .observe => (Mdrap.observe 1 w).2
  | .step raw now offset isReplay => (Mdrap.step c raw now offset isReplay w).2

/-- The move does not note an old number. -/
def TxnMove.Plain (c : StepConfig V) (w : Work V) : TxnMove → Prop
  | .observe => True
  | .step raw now offset _ => ¬w.state.NotesOld c raw now (offset.getD w.state.eventCount)

theorem TxnMove.logged (c : StepConfig V) (hP : c.py.EqLaws) (w : Work V) (m : TxnMove) : Logged c.py w (m.apply c w) := by
  cases m with
  | observe => exact Logged.observe hP 1 w
  | step raw now offset isReplay => exact Logged.step c hP raw now offset isReplay w

theorem TxnMove.Plain.sameOld {c : StepConfig V} {w : Work V} {m : TxnMove} (h : m.Plain c w) :
    SameOld w.state.sequenceStaleSeen (m.apply c w).state.sequenceStaleSeen := by
  cases m with
  | observe => exact KeepsOld.sameOld (observe_old 1 w)
  | step raw now offset isReplay => exact (step_old c raw now offset isReplay w).mpr h

theorem logged_run (c : StepConfig V) (hP : c.py.EqLaws) (ms : List TxnMove) (w : Work V) :
    Logged c.py w (runFrom (TxnMove.apply c) w ms) := by
  induction ms generalizing w with
  | nil => exact Logged.refl w
  | cons m ms ih => exact Logged.trans hP w _ _ (m.logged c hP w) (ih _)

/-- A stretch of a transaction that notes no old number is taken back to its beginning. -/
theorem rollbackTo_same (c : StepConfig V) (hP : c.py.EqLaws) {w : Work V} (hw : w.state.Deduped c.py) {ms : List TxnMove}
    (hplain : Along (TxnMove.apply c) (TxnMove.Plain c) w ms) :
    ((runFrom (TxnMove.apply c) w ms).rollbackTo c.py w.journal.length).state.Same c.py w.state := by
  refine ⟨((logged_run c hP ms w).rollbackTo hw).1, ?_⟩
  rw [rollbackTo_old]
  refine hplain.inv (I := fun v : Work V => SameOld w.state.sequenceStaleSeen v.state.sequenceStaleSeen) ?_ fun _ => rfl
  exact fun v m hv hm k => (hm.sameOld k).trans (hv k)

/-! ## The theorem -/

theorem exactPy_eqLaws : exactPy.EqLaws := by
  have hvalue (x y : ExactFloat) (h : PyNum.eqFloat x y = true) : x = y ∧ x ≠ .nan := by
    cases x with
    | nan => cases h
    | inf neg => exact ⟨of_decide_eq_true h, nofun⟩
    | fin q => exact ⟨of_decide_eq_true h, nofun⟩
  have hback (x y : ExactFloat) (h : x = y ∧ x ≠ .nan) : PyNum.eqFloat x y = true := by
    obtain ⟨rfl, hne⟩ := h
    cases x <;> simp_all [PyNum.eqFloat]
  constructor
  · intro a b hab
    obtain ⟨heq, hne⟩ := hvalue _ _ hab
    exact hback _ _ ⟨heq.symm, heq ▸ hne⟩
  · intro a b c hab hbc
    obtain ⟨heq, hne⟩ := hvalue _ _ hab
    obtain ⟨heq', -⟩ := hvalue _ _ hbc
    exact hback _ _ ⟨heq.trans heq', hne⟩

/-- A trade of an instrument, with this number and price. -/
def tradeAt (seq : Int) (price : Json) : RawEvent :=
  ⟨.str "A", .obj [("instrument", .str "X"), ("event_type", .str "TRADE"), ("sequence", .int seq), ("price", price)], .int 1, .null,
    .json .null, .null⟩

def plainConfig : StepConfig PyNum := { py := exactPy, sessionPolicy := .strict }

/-- The state after trades. -/
def afterTrades (xs : List (Int × Json)) : EngineState PyNum :=
  xs.foldl (fun s x => (stepAlone plainConfig (tradeAt x.1 x.2) (.int 1) none false s none).2.1) (.initial (exactPy.dec 5 (-2)))

theorem reached_afterTrades (xs : List (Int × Json)) : (afterTrades xs).Reached exactPy := by
  induction xs using List.reverseRecOn with
  | nil => exact .initial _
  | append_singleton xs x ih =>
    rw [afterTrades, List.foldl_append]
    exact .step ih plainConfig rfl _ _ _ _ _

/-- The price whose square is too large. -/
def hugePrice : Json := .float (.dec (Decimal.ofParts false 1 200))

end Mdrap
