import Mdrap.Lemmas.Keys

/-!
# Two steps side by side

The same event is taken in two works whose states are related. A relation that each statement keeps is kept by the whole step, and
also by one that raises: what the two journals have gained by then, undone entry by entry on both sides, keeps the relation too.
-/

namespace Mdrap

open Lib

variable {V : Type}

/-- Undoing one entry here and the other there keeps the relation. -/
def Undone (P : Py V) (A : EngineState V → EngineState V → Prop) (a a' : UndoAction V) : Prop :=
  ∀ s s', A s s' → A (a.undo P s) (a'.undo P s')

/-- Two works with related states and related gap managers, whose journals have grown by entries that belong together. -/
structure Paired (P : Py V) (A : EngineState V → EngineState V → Prop) (G : Option GapManager → Option GapManager → Prop)
    (b b' : List (UndoAction V)) (w w' : Work V) : Prop where
  state : A w.state w'.state
  gaps : G w.gaps w'.gaps
  journal : ∃ js js', w.journal = js ++ b ∧ w'.journal = js' ++ b' ∧ List.Forall₂ (Undone P A) js js'

namespace Paired

variable {P : Py V} {A : EngineState V → EngineState V → Prop} {G : Option GapManager → Option GapManager → Prop}
  {b b' : List (UndoAction V)} {α : Type}

theorem start {w w' : Work V} (hstate : A w.state w'.state) (hgaps : G w.gaps w'.gaps) :
    Paired P A G w.journal w'.journal w w' :=
  ⟨hstate, hgaps, [], [], rfl, rfl, .nil⟩

/-- Both journals grow by an entry. -/
theorem extend {w w' : Work V} (h : Paired P A G b b' w w') {s s' : EngineState V} (hs : A s s') {a a' : UndoAction V}
    (ha : Undone P A a a') : Paired P A G b b' ⟨s, a :: w.journal, w.gaps⟩ ⟨s', a' :: w'.journal, w'.gaps⟩ := by
  obtain ⟨js, js', hj, hj', hundone⟩ := h.journal
  refine ⟨hs, h.gaps, a :: js, a' :: js', ?_, ?_, .cons ha hundone⟩
  · simp [hj]
  · simp [hj']

theorem look {f g : EngineState V → α} (h : ∀ s s', A s s' → f s = g s') :
    Proc.Sim (Paired P A G b b') (Mdrap.look f) (Mdrap.look g) :=
  .read fun _ _ hw => h _ _ hw.state

theorem update {f g : EngineState V → EngineState V} (h : ∀ s s', A s s' → A (f s) (g s')) :
    Proc.Sim (Paired P A G b b') (Mdrap.update f) (Mdrap.update g) :=
  .modify fun _ _ hw => ⟨h _ _ hw.state, hw.gaps, hw.journal⟩

theorem record {a a' : EngineState V → UndoAction V} (h : ∀ s s', A s s' → Undone P A (a s) (a' s')) :
    Proc.Sim (Paired P A G b b') (Mdrap.record a) (Mdrap.record a') := by
  refine .modify ?_
  intro w w' hw
  exact hw.extend hw.state (h _ _ hw.state)

theorem ite {p : Prop} [Decidable p] {m n m' n' : StepM V α} (hm : Proc.Sim (Paired P A G b b') m m')
    (hn : Proc.Sim (Paired P A G b b') n n') : Proc.Sim (Paired P A G b b') (if p then m else n) (if p then m' else n') := by
  split
  · exact hm
  · exact hn

theorem undo_forall {js js' : List (UndoAction V)} (h : List.Forall₂ (Undone P A) js js') {s s' : EngineState V} (hs : A s s') :
    A (js.foldl (fun s a => a.undo P s) s) (js'.foldl (fun s a => a.undo P s) s') := by
  induction h generalizing s s' with
  | nil => exact hs
  | cons ha _ ih => exact ih (ha _ _ hs)

/-- Both are taken back to where they started. -/
theorem rollback {w w' : Work V} (h : Paired P A G b b' w w') :
    Paired P A G b b' (w.rollbackTo P b.length) (w'.rollbackTo P b'.length) := by
  obtain ⟨hstate, hgaps, js, js', hj, hj', hundone⟩ := h
  refine ⟨?_, hgaps, [], [], ?_, ?_, .nil⟩
  · simpa [Work.rollbackTo, hj, hj'] using undo_forall hundone hstate
  · simp [Work.rollbackTo, hj]
  · simp [Work.rollbackTo, hj']

end Paired

/-- The relation is one of cells under these keys: related states have the same cells, and stay related when these are changed. -/
structure Respects (A : EngineState V → EngineState V → Prop) (K : String → Prop) : Prop where
  look : ∀ s s' k, A s s' → K k → s.cell k = s'.cell k
  write : ∀ s s' k f, A s s' → K k → Writes k f → A (f s) (f s')

/-- What works on the keys keeps such a relation. -/
theorem OnKeys.paired {P : Py V} {K : String → Prop} {α : Type} {m : StepM V α} (h : OnKeys P K m)
    {A : EngineState V → EngineState V → Prop} (hA : Respects A K) (G : Option GapManager → Option GapManager → Prop)
    (b b' : List (UndoAction V)) : Proc.Sim (Paired P A G b b') m m := by
  induction h with
  | pure a => exact .pure a
  | lift x => exact .lift x
  | bind _ _ ihm ihf => exact .bind ihm ihf
  | look hk f =>
    refine Paired.look ?_
    intro s s' hs
    rw [hA.look s s' _ hs hk]
  | update hk hf =>
    refine Paired.update ?_
    intro s s' hs
    exact hA.write s s' _ _ hs hk hf
  | record hk ha =>
    refine Paired.record ?_
    intro s s' hs t t' ht
    rw [← ha.congr s s' (hA.look s s' _ hs hk)]
    exact hA.write t t' _ _ ht hk (ha.undo s)

/-! ## A whole step -/

/-- A relation that a step keeps when it takes the same event on both sides: the parts of the state are the same where a decision
depends on them, and the stages that do not work on the keys keep it. -/
structure Stepwise (P : Py V) (A : EngineState V → EngineState V → Prop) : Prop where
  keys : Respects A (fun _ => True)
  eventCount : ∀ s s', A s s' → s.eventCount = s'.eventCount
  counts : ∀ s s', A s s' → s.counts = s'.counts
  threshold : ∀ s s', A s s' → s.stalenessThresholdS = s'.stalenessThresholdS
  setEventCount : ∀ s s' n, A s s' → A { s with eventCount := n } { s' with eventCount := n }
  setLastApplied : ∀ s s' n, A s s' → A { s with lastAppliedOffset := n } { s' with lastAppliedOffset := n }
  setCounts : ∀ s s' c, A s s' → A { s with counts := c } { s' with counts := c }
  lastApplied : ∀ s s', A s s' → Undone P A (.lastAppliedOffset s.lastAppliedOffset) (.lastAppliedOffset s'.lastAppliedOffset)
  observed : ∀ s s', A s s' → Undone P A (.observedCount s.observedCount) (.observedCount s'.observedCount)
  dedup : ∀ raw f status reasons b b',
    Proc.Sim (Paired P A Eq b b') (stageDedup P raw f status reasons) (stageDedup P raw f status reasons)
  feeds : ∀ raw f price status reasons b b',
    Proc.Sim (Paired P A Eq b b') (stageBboAndReconciliation P raw f price status reasons)
      (stageBboAndReconciliation P raw f price status reasons)

namespace Stepwise

variable {P : Py V} {A : EngineState V → EngineState V → Prop} {b b' : List (UndoAction V)}

theorem onKeys (h : Stepwise P A) {α : Type} {m : StepM V α} (hm : OnKeys P (fun _ => True) m) :
    Proc.Sim (Paired P A Eq b b') m m :=
  hm.paired h.keys Eq b b'

theorem recordEventCount (h : Stepwise P A) :
    Proc.Sim (Paired P A Eq b b') Mdrap.recordEventCount Mdrap.recordEventCount := by
  refine .bind (Paired.record ?_) ?_
  · intro s s' hs t t' ht
    rw [h.eventCount s s' hs]
    exact h.setEventCount t t' _ ht
  intro _
  refine .bind (Paired.record h.observed) ?_
  intro _
  exact Paired.record h.lastApplied

theorem recordCount (h : Stepwise P A) (status : QualityStatus) :
    Proc.Sim (Paired P A Eq b b') (Mdrap.recordCount status) (Mdrap.recordCount status) := by
  refine Paired.record ?_
  intro s s' hs t t' ht
  simp only [UndoAction.undo]
  rw [h.counts s s' hs, h.counts t t' ht]
  exact h.setCounts t t' _ ht

theorem bumpCount (h : Stepwise P A) (status : QualityStatus) :
    Proc.Sim (Paired P A Eq b b') (Mdrap.bumpCount status) (Mdrap.bumpCount status) := by
  refine .bind (h.recordCount status) ?_
  intro _
  refine Paired.update ?_
  intro s s' hs
  rw [h.counts s s' hs]
  exact h.setCounts s s' _ hs

theorem openGaps (source instrument : String) (last seq : Int) (epoch : Nat) (recvTs : Json) (isReplay : Bool) :
    Proc.Sim (Paired P A Eq b b') (Mdrap.openGaps source instrument last seq epoch recvTs isReplay)
      (Mdrap.openGaps source instrument last seq epoch recvTs isReplay) := by
  refine Paired.ite (.pure _) (.modify ?_)
  rintro w w' ⟨hstate, hgaps, hjournal⟩
  exact ⟨hstate, by rw [hgaps], hjournal⟩

theorem fillGap (source instrument : String) (seq : Int) (epoch : Nat) :
    Proc.Sim (Paired P A Eq b b') (Mdrap.fillGap source instrument seq epoch) (Mdrap.fillGap source instrument seq epoch) := by
  refine .bind (.read ?_) ?_
  · intro w w' hw
    rw [hw.gaps]
  intro filled
  refine .bind (.modify ?_) ?_
  · rintro w w' ⟨hstate, hgaps, hjournal⟩
    exact ⟨hstate, by rw [hgaps], hjournal⟩
  intro _
  exact .pure _

theorem stageSequence (h : Stepwise P A) (raw : RawEvent) (instrument : String) (seq : Int) (recvTs : Json) (e : Epoch)
    (isReplay : Bool) (status : QualityStatus) (reasons : List Reason) :
    Proc.Sim (Paired P A Eq b b') (Mdrap.stageSequence P raw instrument seq recvTs e isReplay status reasons)
      (Mdrap.stageSequence P raw instrument seq recvTs e isReplay status reasons) := by
  refine .bind (h.onKeys (.look trivial Cell.seqState)) ?_
  intro last
  refine .bind (h.onKeys (.look trivial (fun c => c.seqSeen.getD 0))) ?_
  intro seen
  refine .bind (h.onKeys (.look trivial (fun c => c.seqCand.getD 0))) ?_
  intro cand
  refine .bind (h.onKeys (.look trivial (fun c => c.seqRegress.getD 0))) ?_
  intro regress
  cases last with
  | none => exact .bind (h.onKeys (.seqFirst trivial trivial seq)) fun _ => .pure _
  | some last =>
    refine Paired.ite (Paired.ite ?_ (Paired.ite ?_ ?_)) (Paired.ite (Paired.ite (.pure _) ?_) ?_)
    · exact .bind (h.onKeys (.seqJump trivial trivial seq cand)) fun _ => .pure _
    · refine .bind (openGaps _ _ _ _ _ _ _) ?_
      intro _
      exact .bind (h.onKeys (.seqAdvance trivial trivial seq _)) fun _ => .pure _
    · exact .bind (h.onKeys (.seqAdvance trivial trivial seq _)) fun _ => .pure _
    · refine .bind (fillGap _ _ _ _) ?_
      intro filled
      refine .bind (h.onKeys (.seqLate trivial trivial seen _)) ?_
      intro _
      exact Paired.ite (.pure _) (.pure _)
    · exact h.onKeys (.seqBehind trivial trivial seq _ regress status reasons)

theorem stageSequenceAndDedup (h : Stepwise P A) (raw : RawEvent) (f : Fields V) (recvTs : Json) (e : Epoch) (isReplay : Bool)
    (status : QualityStatus) (reasons : List Reason) :
    Proc.Sim (Paired P A Eq b b') (Mdrap.stageSequenceAndDedup P raw f recvTs e isReplay status reasons)
      (Mdrap.stageSequenceAndDedup P raw f recvTs e isReplay status reasons) := by
  rw [Mdrap.stageSequenceAndDedup]
  split
  · exact h.stageSequence _ _ _ _ _ _ _ _
  · exact h.dedup _ _ _ _ b b'

theorem runStages {c : StepConfig V} (h : Stepwise c.py A) (raw : RawEvent) (f : Fields V) (recvTs : Json) (isReplay : Bool) :
    Proc.Sim (Paired c.py A Eq b b') (Mdrap.runStages c raw f recvTs isReplay) (Mdrap.runStages c raw f recvTs isReplay) := by
  refine .bind (h.onKeys (.stageSessionAndEpoch _ _ _ fun _ => trivial)) ?_
  intro e
  refine .bind (h.stageSequenceAndDedup _ _ _ _ _ _ _) ?_
  intro order
  refine .bind (Paired.look h.threshold) ?_
  intro threshold
  refine .bind (.lift _) ?_
  rintro ⟨status, reasons⟩
  refine .bind (h.onKeys (.stagePriceCorridor trivial _ _ _)) ?_
  rintro ⟨status, reasons⟩
  refine .bind (h.feeds _ _ _ _ _ b b') ?_
  intro feeds
  exact .pure _

theorem judge {c : StepConfig V} (h : Stepwise c.py A) (raw : RawEvent) (now : Json) (offset : Int) (isReplay : Bool) :
    Proc.Sim (Paired c.py A Eq b b') (Mdrap.judge c raw now offset isReplay) (Mdrap.judge c raw now offset isReplay) := by
  refine Paired.ite (.bind (.lift _) ?_) (.bind (h.bumpCount _) fun _ => .pure _)
  intro checked
  cases checked with
  | error d => exact .bind (h.bumpCount _) fun _ => .pure _
  | ok f =>
    refine .bind (h.runStages _ _ _ _) ?_
    intro found
    exact .bind (h.bumpCount _) fun _ => .lift _

theorem stepInternal {c : StepConfig V} (h : Stepwise c.py A) (raw : RawEvent) (now : Json) (offset : Int) (isReplay : Bool) :
    Proc.Sim (Paired c.py A Eq b b') (Mdrap.stepInternal c raw now offset isReplay)
      (Mdrap.stepInternal c raw now offset isReplay) := by
  refine .bind h.recordEventCount ?_
  intro _
  refine .bind (Paired.update ?_) ?_
  · intro s s' hs
    rw [h.eventCount s s' hs]
    exact h.setLastApplied _ _ offset (h.setEventCount _ _ _ hs)
  intro _
  exact h.judge raw now offset isReplay

theorem countUnhandled (h : Stepwise P A) (n : Nat) :
    Proc.Sim (Paired P A Eq b b') (Mdrap.countUnhandled n) (Mdrap.countUnhandled n) := by
  refine .bind h.recordEventCount ?_
  intro _
  refine .bind (h.recordCount _) ?_
  intro _
  refine Paired.update ?_
  intro s s' hs
  rw [h.counts s s' hs]
  exact h.setCounts _ _ _ (h.setEventCount _ _ n hs)

/-- From related states a step makes the same decision, and leaves related states. -/
theorem step {c : StepConfig V} (h : Stepwise c.py A) (raw : RawEvent) (now : Json) (offset : Int) (isReplay : Bool)
    {w w' : Work V} (hs : A w.state w'.state) (hgaps : w.gaps = w'.gaps) :
    (Mdrap.step c raw now (some offset) isReplay w).1 = (Mdrap.step c raw now (some offset) isReplay w').1 ∧
      A (Mdrap.step c raw now (some offset) isReplay w).2.state (Mdrap.step c raw now (some offset) isReplay w').2.state ∧
      (Mdrap.step c raw now (some offset) isReplay w).2.gaps = (Mdrap.step c raw now (some offset) isReplay w').2.gaps := by
  obtain ⟨hres, hpaired⟩ := h.stepInternal raw now offset isReplay w w' (.start hs hgaps)
  simp only [Mdrap.step, Option.getD_some]
  rcases hm : Mdrap.stepInternal c raw now offset isReplay w with ⟨_ | d, v⟩
  · rcases hm' : Mdrap.stepInternal c raw now offset isReplay w' with ⟨_ | d', v'⟩
    · rw [hm, hm'] at hres hpaired
      cases hres
      obtain ⟨-, hcounted⟩ := h.countUnhandled (w.state.eventCount + 1) _ _ hpaired.rollback
      rw [h.eventCount w.state w'.state hs] at hcounted ⊢
      exact ⟨rfl, hcounted.state, hcounted.gaps⟩
    · rw [hm, hm'] at hres
      cases hres
  · rcases hm' : Mdrap.stepInternal c raw now offset isReplay w' with ⟨_ | d', v'⟩
    · rw [hm, hm'] at hres
      cases hres
    · rw [hm, hm'] at hres hpaired
      cases hres
      exact ⟨rfl, hpaired.state, hpaired.gaps⟩

end Stepwise

end Mdrap
