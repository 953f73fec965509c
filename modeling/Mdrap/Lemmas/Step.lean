import Mdrap.Lib.UndoJournal
import Mdrap.Lemmas.Fields
import Mdrap.Lemmas.Paired

/-!
# What a step does, whatever its event

A step counts its event and moves the last offset on, unless it raises; its decision carries the offset; and it does not depend on
how many events were observed or on what the journal holds.
-/

namespace Mdrap

open Lib

variable {V : Type}

/-! ## Observed events -/

/-- The same state, with a number of further events observed. -/
def Observed (n : Nat) (s s' : EngineState V) : Prop := s' = { s with observedCount := s.observedCount + n }

theorem Writes.observed {k : String} {f : EngineState V → EngineState V} (hf : Writes k f) (s : EngineState V) (n : Nat) :
    f { s with observedCount := s.observedCount + n } = { f s with observedCount := (f s).observedCount + n } := by
  calc f { s with observedCount := s.observedCount + n }
      = (f s).withRest { s.rest with observedCount := s.observedCount + n } := hf.blind s { s.rest with observedCount := s.observedCount + n }
    _ = (f s).withRest { (f s).rest with observedCount := (f s).rest.observedCount + n } := by rw [hf.rest]; rfl
    _ = { f s with observedCount := (f s).observedCount + n } := rfl

theorem observed_keepQuotes (P : Py V) (n : Nat) (payload : Json) (instrument source : String) {b b' : List (UndoAction V)} :
    Proc.Sim (Paired P (Observed n) Eq b b') (keepQuotes P payload instrument source)
      (keepQuotes P payload instrument source) := by
  have hside (f : String) (put : Quote V → V → Quote V) : Proc.Sim (Paired P (Observed n) Eq b b')
      (keepQuotes.side P payload instrument source f put) (keepQuotes.side P payload instrument source f put) := by
    refine Paired.ite (.pure _) (.bind (.lift _) ?_)
    intro x
    refine Paired.update ?_
    rintro s _ rfl
    rfl
  refine Paired.ite (.pure _) (.bind (Paired.record ?_) ?_)
  · rintro s _ rfl t _ rfl
    rfl
  intro _
  refine .bind (Paired.update ?_) ?_
  · rintro s _ rfl
    rfl
  intro _
  exact .bind (hside _ _) fun _ => hside _ _

theorem stepwise_observed (P : Py V) (n : Nat) : Stepwise P (Observed n) where
  keys := ⟨by rintro s _ k rfl -; rfl, by
    rintro s _ k f rfl - hf
    exact hf.observed s n⟩
  eventCount := by rintro s _ rfl; rfl
  counts := by rintro s _ rfl; rfl
  threshold := by rintro s _ rfl; rfl
  setEventCount := by rintro s _ m rfl; rfl
  setLastApplied := by rintro s _ m rfl; rfl
  setCounts := by rintro s _ m rfl; rfl
  lastApplied := by rintro s _ rfl t _ rfl; rfl
  observed := by rintro s _ rfl t _ rfl; rfl
  dedup raw f status reasons b b' := by
    refine .bind (Paired.look ?_) ?_
    · rintro s _ rfl; rfl
    intro known
    refine Paired.ite (.pure _) (.bind (Paired.look ?_) ?_)
    · rintro s _ rfl; rfl
    intro evicted
    refine .bind (Paired.update ?_) ?_
    · rintro s _ rfl; rfl
    intro _
    refine .bind (Paired.record ?_) fun _ => .pure _
    rintro s _ rfl t _ rfl
    cases evicted <;> rfl
  feeds raw f price status reasons b b' := by
    refine .bind (observed_keepQuotes P n _ _ _) ?_
    intro _
    cases price with
    | none => exact .pure _
    | some price =>
      refine Paired.ite (.pure _) (.bind (Paired.record ?_) ?_)
      · rintro s _ rfl t _ rfl
        rfl
      intro _
      refine .bind (Paired.update ?_) ?_
      · rintro s _ rfl
        rfl
      intro _
      refine .bind (Paired.look ?_) ?_
      · rintro s _ rfl
        rfl
      intro recent
      refine .bind (.lift _) ?_
      intro away
      exact Paired.ite (.pure _) (.pure _)

/-! ## What a step does to its counters -/

/-- Only what is under these keys has changed, and the journal has grown by entries for it. -/
structure Confined (P : Py V) (K : String → Prop) (w w' : Work V) : Prop where
  cell : ∀ k, ¬K k → w'.state.cell k = w.state.cell k
  rest : w'.state.rest = w.state.rest
  gaps : w'.gaps = w.gaps
  journal : ∃ js, w'.journal = js ++ w.journal ∧ ∀ a ∈ js, ∃ k, K k ∧ Writes k (a.undo P)

theorem Confined.refl (P : Py V) (K : String → Prop) (w : Work V) : Confined P K w w :=
  ⟨fun _ _ => rfl, rfl, rfl, [], rfl, by simp⟩

theorem Confined.trans {P : Py V} {K : String → Prop} (w w' w'' : Work V) (h : Confined P K w w') (h' : Confined P K w' w'') :
    Confined P K w w'' := by
  obtain ⟨js, hj, hjs⟩ := h.journal
  obtain ⟨js', hj', hjs'⟩ := h'.journal
  refine ⟨fun k hk => (h'.cell k hk).trans (h.cell k hk), h'.rest.trans h.rest, h'.gaps.trans h.gaps, js' ++ js, ?_, ?_⟩
  · rw [hj', hj, List.append_assoc]
  · intro a ha
    rcases List.mem_append.mp ha with ha | ha
    · exact hjs' a ha
    · exact hjs a ha

/-- What works on the keys leaves everything else as it is. -/
theorem OnKeys.confined {P : Py V} {K : String → Prop} {α : Type} {m : StepM V α} (h : OnKeys P K m) :
    Proc.Frame (Confined P K) m := by
  induction h with
  | pure a => exact .pure (Confined.refl P K) a
  | lift x => exact .lift (Confined.refl P K) x
  | bind _ _ ihm ihf => exact .bind Confined.trans ihm ihf
  | look hk f => exact .read (Confined.refl P K) _
  | @update k hk f hf =>
    refine .modify ?_
    intro w
    refine ⟨?_, hf.rest w.state, rfl, [], rfl, by simp⟩
    intro j hj
    refine hf.frame w.state j ?_
    rintro rfl
    exact hj hk
  | @record k hk a ha =>
    refine .modify ?_
    intro w
    refine ⟨fun _ _ => rfl, rfl, rfl, [a w.state], rfl, ?_⟩
    intro b hb
    rw [List.mem_singleton.mp hb]
    exact ⟨k, hk, ha.undo w.state⟩

/-- What the state holds beside its keys is the same. -/
def SameRest (w w' : Work V) : Prop := w'.state.rest = w.state.rest

namespace SameRest

theorem refl (w : Work V) : SameRest w w := rfl

theorem trans (w w' w'' : Work V) (h : SameRest w w') (h' : SameRest w' w'') : SameRest w w'' := Eq.trans h' h

theorem onKeys {P : Py V} {α : Type} {m : StepM V α} (h : OnKeys P (fun _ => True) m) : Proc.Frame SameRest m :=
  fun w => (h.confined w).rest

theorem bind {α β : Type} {m : StepM V α} {f : α → StepM V β} (hm : Proc.Frame SameRest m)
    (hf : ∀ a, Proc.Frame SameRest (f a)) : Proc.Frame SameRest (m >>= f) := .bind trans hm hf

theorem ite {α : Type} {p : Prop} [Decidable p] {m n : StepM V α} (hm : Proc.Frame SameRest m)
    (hn : Proc.Frame SameRest n) : Proc.Frame SameRest (if p then m else n) := by
  split
  · exact hm
  · exact hn

theorem pure {α : Type} (a : α) : Proc.Frame SameRest (Pure.pure a : StepM V α) := .pure refl a

theorem look {α : Type} (f : EngineState V → α) : Proc.Frame SameRest (Mdrap.look f) := .read refl _

theorem stageSequence (P : Py V) (raw : RawEvent) (instrument : String) (seq : Int) (recvTs : Json) (e : Epoch) (isReplay : Bool)
    (status : QualityStatus) (reasons : List Reason) :
    Proc.Frame SameRest (Mdrap.stageSequence P raw instrument seq recvTs e isReplay status reasons) := by
  intro w
  obtain ⟨last, -, -, hbehind⟩ | ⟨-, hkeeps⟩ :=
    Keeps.stageSequence_cases P raw instrument seq recvTs e isReplay status reasons w
  · rw [hbehind]
    exact onKeys (P := P) (.seqBehind trivial trivial seq _ _ status reasons) w
  · exact hkeeps (g := fun v : Work V => v.state.rest) fun _ _ _ _ _ _ _ => rfl

end SameRest

/-- The counters of the events are the same. -/
def SameCounters (w w' : Work V) : Prop :=
  w'.state.eventCount = w.state.eventCount ∧ w'.state.lastAppliedOffset = w.state.lastAppliedOffset ∧
    w'.state.observedCount = w.state.observedCount

/-- The counters of the events and of the decisions are the same, and the journal has grown by entries that leave those of the
decisions alone. -/
structure SameTally (P : Py V) (w w' : Work V) : Prop where
  counters : SameCounters w w'
  counts : w'.state.counts = w.state.counts
  journal : ∃ js, w'.journal = js ++ w.journal ∧ ∀ a ∈ js, ∀ s, (a.undo P s).counts = s.counts

namespace SameTally

variable {P : Py V} {α β : Type}

theorem refl (w : Work V) : SameTally P w w := ⟨⟨rfl, rfl, rfl⟩, rfl, [], rfl, by simp⟩

theorem trans (w w' w'' : Work V) (h : SameTally P w w') (h' : SameTally P w' w'') : SameTally P w w'' := by
  obtain ⟨js, hj, hjs⟩ := h.journal
  obtain ⟨js', hj', hjs'⟩ := h'.journal
  refine ⟨⟨h'.counters.1.trans h.counters.1, h'.counters.2.1.trans h.counters.2.1, h'.counters.2.2.trans h.counters.2.2⟩,
    h'.counts.trans h.counts, js' ++ js, by rw [hj', hj, List.append_assoc], ?_⟩
  intro a ha
  exact (List.mem_append.mp ha).elim (hjs' a) (hjs a)

theorem onKeys {m : StepM V α} (h : OnKeys P (fun _ => True) m) : Proc.Frame (SameTally P) m := by
  intro w
  have hrest := (h.confined w).rest
  obtain ⟨js, hj, hjs⟩ := (h.confined w).journal
  refine ⟨⟨congrArg Rest.eventCount hrest, congrArg Rest.lastAppliedOffset hrest, congrArg Rest.observedCount hrest⟩,
    congrArg Rest.counts hrest, js, hj, ?_⟩
  intro a ha s
  obtain ⟨k, -, hwrites⟩ := hjs a ha
  exact congrArg Rest.counts (hwrites.rest s)

theorem bind {m : StepM V α} {f : α → StepM V β} (hm : Proc.Frame (SameTally P) m) (hf : ∀ a, Proc.Frame (SameTally P) (f a)) :
    Proc.Frame (SameTally P) (m >>= f) := .bind trans hm hf

theorem ite {p : Prop} [Decidable p] {m n : StepM V α} (hm : Proc.Frame (SameTally P) m) (hn : Proc.Frame (SameTally P) n) :
    Proc.Frame (SameTally P) (if p then m else n) := by
  split
  · exact hm
  · exact hn

theorem pure (a : α) : Proc.Frame (SameTally P) (Pure.pure a : StepM V α) := .pure refl a

theorem lift (x : Except PyError α) : Proc.Frame (SameTally P) (Proc.lift x : StepM V α) := .lift refl x

theorem look (f : EngineState V → α) : Proc.Frame (SameTally P) (Mdrap.look f) := .read refl _

theorem gaps (f : Work V → Option GapManager) :
    Proc.Frame (SameTally P) (Proc.modify (fun w => { w with gaps := f w }) : StepM V Unit) :=
  fun _ => ⟨⟨rfl, rfl, rfl⟩, rfl, [], rfl, by simp⟩

theorem update {f : EngineState V → EngineState V} (hf : ∀ s, ((f s).eventCount = s.eventCount ∧
    (f s).lastAppliedOffset = s.lastAppliedOffset ∧ (f s).observedCount = s.observedCount) ∧ (f s).counts = s.counts) :
    Proc.Frame (SameTally P) (Mdrap.update f) := .modify fun w => ⟨(hf w.state).1, (hf w.state).2, [], rfl, by simp⟩

theorem record {a : EngineState V → UndoAction V} (ha : ∀ s t, ((a s).undo P t).counts = t.counts) :
    Proc.Frame (SameTally P) (Mdrap.record a) := by
  refine .modify fun w => ⟨⟨rfl, rfl, rfl⟩, rfl, [a w.state], rfl, ?_⟩
  intro b hb s
  rw [List.mem_singleton.mp hb]
  exact ha w.state s

theorem stageSequence (raw : RawEvent) (instrument : String) (seq : Int) (recvTs : Json) (e : Epoch) (isReplay : Bool)
    (status : QualityStatus) (reasons : List Reason) :
    Proc.Frame (SameTally P) (Mdrap.stageSequence P raw instrument seq recvTs e isReplay status reasons) := by
  refine bind (look _) ?_
  intro last
  refine bind (look _) ?_
  intro seen
  refine bind (look _) ?_
  intro cand
  refine bind (look _) ?_
  intro regress
  cases last with
  | none => exact bind (onKeys (.seqFirst trivial trivial seq)) fun _ => pure _
  | some last =>
    refine ite (ite ?_ (ite ?_ ?_)) (ite (ite (pure _) ?_) ?_)
    · exact bind (onKeys (.seqJump trivial trivial seq cand)) fun _ => pure _
    · refine bind (ite (pure _) (gaps _)) ?_
      intro _
      exact bind (onKeys (.seqAdvance trivial trivial seq _)) fun _ => pure _
    · exact bind (onKeys (.seqAdvance trivial trivial seq _)) fun _ => pure _
    · refine bind (bind (.read refl _) fun _ => bind (gaps _) fun _ => pure _) ?_
      intro filled
      refine bind (onKeys (.seqLate trivial trivial seen _)) ?_
      intro _
      exact ite (pure _) (pure _)
    · exact onKeys (.seqBehind trivial trivial seq _ regress status reasons)

theorem stageDedup (raw : RawEvent) (f : Fields V) (status : QualityStatus) (reasons : List Reason) :
    Proc.Frame (SameTally P) (Mdrap.stageDedup P raw f status reasons) := by
  refine bind (look _) ?_
  intro known
  refine ite (pure _) (bind (look _) ?_)
  intro evicted
  refine bind (update fun _ => ⟨⟨rfl, rfl, rfl⟩, rfl⟩) ?_
  intro _
  refine bind (record fun s t => ?_) fun _ => pure _
  cases evicted <;> rfl

theorem stageSequenceAndDedup (raw : RawEvent) (f : Fields V) (recvTs : Json) (e : Epoch) (isReplay : Bool)
    (status : QualityStatus) (reasons : List Reason) :
    Proc.Frame (SameTally P) (Mdrap.stageSequenceAndDedup P raw f recvTs e isReplay status reasons) := by
  rw [Mdrap.stageSequenceAndDedup]
  split
  · exact stageSequence _ _ _ _ _ _ _ _
  · exact stageDedup _ _ _ _

theorem stageBboAndReconciliation (raw : RawEvent) (f : Fields V) (price : Option V) (status : QualityStatus)
    (reasons : List Reason) : Proc.Frame (SameTally P) (Mdrap.stageBboAndReconciliation P raw f price status reasons) := by
  have hside (f' : String) (put : Quote V → V → Quote V) :
      Proc.Frame (SameTally P) (keepQuotes.side P raw.payload f.instrument (raw.sourceText P) f' put) :=
    ite (pure _) (bind (lift _) fun _ => update fun _ => ⟨⟨rfl, rfl, rfl⟩, rfl⟩)
  refine bind (ite (pure _) (bind (record fun _ _ => rfl) fun _ => bind (update fun _ => ⟨⟨rfl, rfl, rfl⟩, rfl⟩) fun _ =>
    bind (hside _ _) fun _ => hside _ _)) ?_
  intro _
  cases price with
  | none => exact pure _
  | some price =>
    refine ite (pure _) (bind (record fun _ _ => rfl) fun _ => bind (update fun _ => ⟨⟨rfl, rfl, rfl⟩, rfl⟩) fun _ =>
      bind (look _) fun recent => ?_)
    exact bind (lift _) fun _ => ite (pure _) (pure _)

theorem runStages (c : StepConfig V) (raw : RawEvent) (f : Fields V) (recvTs : Json) (isReplay : Bool) :
    Proc.Frame (SameTally c.py) (Mdrap.runStages c raw f recvTs isReplay) := by
  refine bind (onKeys (.stageSessionAndEpoch _ _ _ fun _ => trivial)) ?_
  intro e
  refine bind (stageSequenceAndDedup _ _ _ _ _ _ _) ?_
  intro order
  refine bind (look _) ?_
  intro threshold
  refine bind (lift _) ?_
  rintro ⟨status, reasons⟩
  refine bind (onKeys (.stagePriceCorridor trivial _ _ _)) ?_
  rintro ⟨status, reasons⟩
  exact bind (stageBboAndReconciliation _ _ _ _ _) fun _ => pure _

end SameTally

namespace SameCounters

variable {α β : Type}

theorem refl (w : Work V) : SameCounters w w := ⟨rfl, rfl, rfl⟩

theorem trans (w w' w'' : Work V) (h : SameCounters w w') (h' : SameCounters w' w'') : SameCounters w w'' :=
  ⟨h'.1.trans h.1, h'.2.1.trans h.2.1, h'.2.2.trans h.2.2⟩

theorem bind {m : StepM V α} {f : α → StepM V β} (hm : Proc.Frame SameCounters m) (hf : ∀ a, Proc.Frame SameCounters (f a)) :
    Proc.Frame SameCounters (m >>= f) := .bind trans hm hf

theorem ite {p : Prop} [Decidable p] {m n : StepM V α} (hm : Proc.Frame SameCounters m) (hn : Proc.Frame SameCounters n) :
    Proc.Frame SameCounters (if p then m else n) := by
  split
  · exact hm
  · exact hn

theorem pure (a : α) : Proc.Frame SameCounters (Pure.pure a : StepM V α) := .pure refl a

theorem lift (x : Except PyError α) : Proc.Frame SameCounters (Proc.lift x : StepM V α) := .lift refl x

theorem bumpCount (status : QualityStatus) : Proc.Frame SameCounters (Mdrap.bumpCount status : StepM V Unit) :=
  fun _ => ⟨rfl, rfl, rfl⟩

theorem judge (c : StepConfig V) (raw : RawEvent) (now : Json) (offset : Int) (isReplay : Bool) :
    Proc.Frame SameCounters (Mdrap.judge c raw now offset isReplay) := by
  refine ite (bind (lift _) ?_) (bind (bumpCount _) fun _ => pure _)
  intro checked
  cases checked with
  | error d => exact bind (bumpCount _) fun _ => pure _
  | ok f => exact bind (fun w => (SameTally.runStages c raw f _ isReplay w).counters) fun _ => bind (bumpCount _) fun _ => lift _

end SameCounters

/-- Rolling back to a mark undoes the entries written since. -/
theorem Work.rollbackTo_eq {P : Py V} {w w' : Work V} {js : List (UndoAction V)} (h : w'.journal = js ++ w.journal) :
    w'.rollbackTo P w.journal.length = ⟨undoAll (UndoAction.undo P) js w'.state, w.journal, w'.gaps⟩ := by
  have hlen : w'.journal.length - w.journal.length = js.length := by
    rw [h, List.length_append]
    omega
  rw [Work.rollbackTo, hlen, h, List.take_left, List.drop_left]
  rfl

/-- The counters are what the oldest three of the entries that are undone say. -/
theorem counters_rollback (P : Py V) {w w' : Work V} {js : List (UndoAction V)} {ec oc : Nat} {la : Int}
    (h : w'.journal = js ++ .lastAppliedOffset la :: .observedCount oc :: .eventCount ec :: w.journal) :
    (w'.rollbackTo P w.journal.length).state.eventCount = ec ∧ (w'.rollbackTo P w.journal.length).state.lastAppliedOffset = la ∧
      (w'.rollbackTo P w.journal.length).state.observedCount = oc := by
  have hjournal : w'.journal = (js ++ [.lastAppliedOffset la, .observedCount oc, .eventCount ec]) ++ w.journal := by
    rw [h, List.append_assoc]
    rfl
  rw [Work.rollbackTo_eq hjournal]
  dsimp only
  rw [undoAll_append]
  exact ⟨rfl, rfl, rfl⟩

/-- The step raises on the event. -/
def Raises (c : StepConfig V) (raw : RawEvent) (now : Json) (offset : Int) (isReplay : Bool) (w : Work V) : Prop :=
  (stepInternal c raw now offset isReplay w).1.toOption = none

instance (c : StepConfig V) (raw : RawEvent) (now : Json) (offset : Int) (isReplay : Bool) (w : Work V) :
    Decidable (Raises c raw now offset isReplay w) :=
  match h : (stepInternal c raw now offset isReplay w).1 with
  | .ok _ => .isFalse (by simp [Raises, h, Except.toOption])
  | .error _ => .isTrue (by simp [Raises, h, Except.toOption])

theorem journal_judge (c : StepConfig V) (raw : RawEvent) (now : Json) (offset : Int) (isReplay : Bool) (w : Work V) :
    ∃ js, (judge c raw now offset isReplay w).2.journal = js ++ w.journal := by
  have hself : Observed 0 w.state w.state := rfl
  obtain ⟨-, hgrown⟩ := (stepwise_observed c.py 0).judge raw now offset isReplay w w (.start hself rfl)
  obtain ⟨js, -, hjs, -⟩ := hgrown.journal
  exact ⟨js, hjs⟩

/-- The work that the stages of a step start from: the counters are in the journal and have moved on. -/
def Work.begun (w : Work V) (offset : Int) : Work V where
  state := { w.state with eventCount := w.state.eventCount + 1, lastAppliedOffset := offset }
  journal := .lastAppliedOffset w.state.lastAppliedOffset :: .observedCount w.state.observedCount ::
    .eventCount w.state.eventCount :: w.journal
  gaps := w.gaps

theorem stepInternal_eq (c : StepConfig V) (raw : RawEvent) (now : Json) (offset : Int) (isReplay : Bool) (w : Work V) :
    stepInternal c raw now offset isReplay w = judge c raw now offset isReplay (w.begun offset) := rfl

/-- An event is counted whether or not the step raises; the last offset moves on only where it does not. -/
theorem step_counters (c : StepConfig V) (raw : RawEvent) (now : Json) (offset : Int) (isReplay : Bool) (w : Work V) :
    (step c raw now (some offset) isReplay w).2.state.eventCount = w.state.eventCount + 1 ∧
      (step c raw now (some offset) isReplay w).2.state.observedCount = w.state.observedCount ∧
      (step c raw now (some offset) isReplay w).2.state.lastAppliedOffset =
        if Raises c raw now offset isReplay w then w.state.lastAppliedOffset else offset := by
  obtain ⟨js, hjs⟩ := journal_judge c raw now offset isReplay (w.begun offset)
  have hsame := SameCounters.judge c raw now offset isReplay (w.begun offset)
  rw [← stepInternal_eq] at hjs hsame
  simp only [step, Option.getD_some]
  rcases hres : stepInternal c raw now offset isReplay w with ⟨_ | d, v⟩
  · have hraises : Raises c raw now offset isReplay w := by simp [Raises, hres, Except.toOption]
    rw [hres] at hjs
    obtain ⟨-, hla, hoc⟩ := counters_rollback c.py hjs
    rw [if_pos hraises]
    exact ⟨rfl, hoc, hla⟩
  · have hraises : ¬Raises c raw now offset isReplay w := by simp [Raises, hres, Except.toOption]
    rw [if_neg hraises]
    rw [hres] at hsame
    exact ⟨hsame.1, hsame.2.2, hsame.2.1⟩

/-! ## Decisions -/

/-- A decision has a row: for the quarantine, or for an event that is not invalid. -/
def EngineDecision.Filed (d : EngineDecision V) : Prop :=
  d.quarantineRow.isSome ∨ (d.qualityStatus ≠ .invalid ∧ d.canonicalEvent.isSome)

/-- The decision that the checks of the fields make. -/
theorem stageSchemaValidation_rejected {P : Py V} {raw : RawEvent} {offset : Int} {recvTs : Json} {d : EngineDecision V}
    (h : stageSchemaValidation P raw offset recvTs = .ok (.error d)) :
    ∃ instrument reason message, d = rejected P raw offset recvTs instrument reason message := by
  simp only [stageSchemaValidation] at h
  -- every check that fails makes its row with the offset; the last branch makes no row at all
  repeat' split at h
  all_goals try (cases h; exact ⟨_, _, _, rfl⟩)
  all_goals
    simp only [bind, Except.bind] at h
    split at h
    · cases h
    · cases h

/-- The decision that the security envelope makes. -/
theorem stageSecurityEnvelope_rejected {P : Py V} {security : Option Security} {raw : RawEvent} {offset : Int} {recvTs : Json}
    {d : EngineDecision V} (h : stageSecurityEnvelope P security raw offset recvTs = .ok (some d)) :
    ∃ reason row, d = .quarantined offset reason row ∧ row.eventId = s!"q_{raw.sourceText P}_{offset}" := by
  cases security with
  | none => cases h
  | some security =>
    simp only [stageSecurityEnvelope] at h
    rcases hclean : security.sanitizePayload raw.payload with exc | (_ | err)
    · simp [hclean, bind, Except.bind] at h
    · rcases hrequired : security.hmacRequired raw.source with exc | required
      · simp [hclean, hrequired, bind, Except.bind] at h
      · simp only [hclean, hrequired, bind, Except.bind, pure, Except.pure] at h
        split at h
        · split at h
          · rcases hverified : security.verifyPayload raw.source raw.payload (raw.payload.get "signature") with exc | good
            · simp [hverified] at h
            · simp only [hverified] at h
              split at h
              · cases h
              · cases h
                exact ⟨_, _, rfl, rfl⟩
          · cases h
            exact ⟨_, _, rfl, rfl⟩
        · cases h
    · simp only [hclean, bind, Except.bind, pure, Except.pure] at h
      cases h
      exact ⟨_, _, rfl, rfl⟩

/-- What passes the first two stages passes each of them. -/
theorem stageChecks_passed {c : StepConfig V} {raw : RawEvent} {offset : Int} {recvTs : Json} {f : Fields V}
    (h : stageChecks c raw offset recvTs = .ok (.ok f)) :
    stageSecurityEnvelope c.py c.security raw offset recvTs = .ok none ∧
      stageSchemaValidation c.py raw offset recvTs = .ok (.ok f) := by
  rw [stageChecks] at h
  rcases hsecurity : stageSecurityEnvelope c.py c.security raw offset recvTs with exc | (_ | d)
  · simp [hsecurity, bind, Except.bind] at h
  · rw [hsecurity] at h
    exact ⟨rfl, h⟩
  · simp [hsecurity, bind, Except.bind, pure, Except.pure] at h

theorem stageChecks_eq {c : StepConfig V} {raw : RawEvent} {offset : Int} {recvTs : Json}
    (h : stageSecurityEnvelope c.py c.security raw offset recvTs = .ok none) :
    stageChecks c raw offset recvTs = stageSchemaValidation c.py raw offset recvTs := by
  rw [stageChecks, h]
  rfl

/-- The decision that the first two stages make. -/
theorem stageChecks_rejected {c : StepConfig V} {raw : RawEvent} {offset : Int} {recvTs : Json} {d : EngineDecision V}
    (h : stageChecks c raw offset recvTs = .ok (.error d)) :
    ∃ reason row, d = .quarantined offset reason row ∧ row.eventId = s!"q_{raw.sourceText c.py}_{offset}" := by
  rw [stageChecks] at h
  rcases hsecurity : stageSecurityEnvelope c.py c.security raw offset recvTs with exc | (_ | d')
  · simp [hsecurity, bind, Except.bind] at h
  · rw [hsecurity] at h
    obtain ⟨instrument, reason, message, rfl⟩ := stageSchemaValidation_rejected h
    exact ⟨_, _, rfl, rfl⟩
  · rw [hsecurity] at h
    cases h
    exact stageSecurityEnvelope_rejected hsecurity

theorem stageChecks_quarantined {c : StepConfig V} {raw : RawEvent} {offset : Int} {recvTs : Json} {d : EngineDecision V}
    (h : stageChecks c raw offset recvTs = .ok (.error d)) :
    d.offset = offset ∧ d.quarantineRow.isSome ∧ d.qualityStatus = .invalid ∧ d.isDuplicate = false := by
  obtain ⟨reason, row, rfl, -⟩ := stageChecks_rejected h
  exact ⟨rfl, rfl, rfl, rfl⟩

/-- A decision has an event or a row for the quarantine, and not both. -/
def EngineDecision.OneRow (d : EngineDecision V) : Prop := d.canonicalEvent.isSome = !d.quarantineRow.isSome

theorem judge_decision (c : StepConfig V) (raw : RawEvent) (now : Json) (offset : Int) (isReplay : Bool) :
    Proc.Returns (fun d => d.offset = offset ∧ d.Filed ∧ d.OneRow) (judge c raw now offset isReplay) := by
  rw [judge]
  split
  · refine Proc.Returns.bind (S := fun checked => ∀ d, checked = .error d → d.offset = offset ∧ d.Filed ∧ d.OneRow) (.lift ?_) ?_
    · rintro checked hchecked d rfl
      obtain ⟨reason, row, rfl, -⟩ := stageChecks_rejected hchecked
      exact ⟨rfl, .inl rfl, rfl⟩
    rintro (d | f) hchecked
    · exact .bind (.any _) fun _ _ => .pure (hchecked d rfl)
    · refine .bind (.any _) fun found _ => .bind (.any _) fun _ _ => .lift ?_
      intro d hd
      obtain ⟨e, status, reasons, isDuplicate, disagreement⟩ := found
      simp only [package] at hd
      split at hd
      · cases hd
        exact ⟨rfl, .inl rfl, rfl⟩
      · rename_i hstatus
        rcases hrecv : c.py.float (raw.recvTs now) with _ | recv
        · rw [hrecv] at hd
          cases hd
        · rw [hrecv] at hd
          rcases hnow : c.py.float now with _ | t
          · rw [hnow] at hd
            cases hd
          · rw [hnow] at hd
            cases hd
            exact ⟨rfl, .inr ⟨hstatus, rfl⟩, rfl⟩
  · exact .bind (.any _) fun _ _ => .pure ⟨rfl, .inl rfl, rfl⟩

/-- A decision carries the offset of its event, and has one row. -/
theorem step_decision (c : StepConfig V) (raw : RawEvent) (now : Json) (offset : Int) (isReplay : Bool) (w : Work V) :
    (step c raw now (some offset) isReplay w).1.offset = offset ∧ (step c raw now (some offset) isReplay w).1.Filed ∧
      (step c raw now (some offset) isReplay w).1.OneRow := by
  simp only [step, Option.getD_some]
  rcases hres : stepInternal c raw now offset isReplay w with ⟨_ | d, v⟩
  · exact ⟨rfl, .inl rfl, rfl⟩
  · exact judge_decision c raw now offset isReplay (w.begun offset) d (by rw [← stepInternal_eq, hres])

/-- The id of a decision: that of a row for the quarantine, made of the offset, or the id of the event. -/
def EngineDecision.Named (P : Py V) (raw : RawEvent) (offset : Int) (d : EngineDecision V) : Prop :=
  (d.eventId = s!"q_{raw.sourceText P}_{offset}" ∨ raw.idText P = some d.eventId) ∧ ∀ row ∈ d.canonicalEvent, row.eventId = d.eventId

theorem judge_named (c : StepConfig V) {raw : RawEvent} {id : String} (hid : raw.idText c.py = some id) (now : Json) (offset : Int)
    (isReplay : Bool) : Proc.Returns (EngineDecision.Named c.py raw offset) (judge c raw now offset isReplay) := by
  have heventId : ∀ f, raw.eventId c.py f offset = id := by
    intro f
    rw [RawEvent.eventId, hid]
  rw [judge]
  split
  · refine Proc.Returns.bind (S := fun checked => ∀ d, checked = .error d → d.Named c.py raw offset) (.lift ?_) ?_
    · rintro checked hchecked d rfl
      obtain ⟨reason, row, rfl, hid⟩ := stageChecks_rejected hchecked
      exact ⟨.inl hid, by simp [EngineDecision.quarantined]⟩
    rintro (d | f) hchecked
    · exact .bind (.any _) fun _ _ => .pure (hchecked d rfl)
    · refine .bind (.any _) fun found _ => .bind (.any _) fun _ _ => .lift ?_
      intro d hd
      obtain ⟨e, status, reasons, isDuplicate, disagreement⟩ := found
      simp only [package, heventId] at hd
      split at hd
      · cases hd
        exact ⟨.inr hid, by simp⟩
      · rcases hrecv : c.py.float (raw.recvTs now) with _ | recv
        · rw [hrecv] at hd
          cases hd
        · rw [hrecv] at hd
          rcases hnow : c.py.float now with _ | t
          · rw [hnow] at hd
            cases hd
          · rw [hnow] at hd
            cases hd
            exact ⟨.inr hid, by simp⟩
  · exact .bind (.any _) fun _ _ => .pure ⟨.inl rfl, by simp [EngineDecision.quarantined]⟩

/-- The decision on an event that has an id. -/
theorem step_named (c : StepConfig V) {raw : RawEvent} {id : String} (hid : raw.idText c.py = some id) (now : Json) (offset : Int)
    (isReplay : Bool) (w : Work V) : (step c raw now (some offset) isReplay w).1.Named c.py raw offset := by
  simp only [step, Option.getD_some]
  rcases hres : stepInternal c raw now offset isReplay w with ⟨_ | d, v⟩
  · refine ⟨.inr ?_, by simp [unhandled, EngineDecision.quarantined]⟩
    simp [unhandled, EngineDecision.quarantined, hid]
  · exact judge_named c hid now offset isReplay (w.begun offset) d (by rw [← stepInternal_eq, hres])

theorem step_offset (c : StepConfig V) (raw : RawEvent) (now : Json) (offset : Int) (isReplay : Bool) (w : Work V) :
    (step c raw now (some offset) isReplay w).1.offset = offset := (step_decision c raw now offset isReplay w).1

end Mdrap

/-!
## The numbers of the decisions

A step makes one decision and counts it under the status it has. Where it raises, the count it may have made is taken back with the
rest, and the event is counted as invalid; and each decision has one row, for the quarantine or for an event.
-/

namespace Mdrap

open Lib

variable {V : Type}

namespace Counts

/-- One more decision of a status. -/
def bump (c : Counts) (s : QualityStatus) : Counts := c.set s (c.get s + 1)

/-- All decisions. -/
def total (c : Counts) : Nat := c.valid + c.suspicious + c.invalid

theorem total_bump (c : Counts) (s : QualityStatus) : (c.bump s).total = c.total + 1 := by
  cases s <;> simp only [bump, set, get, total] <;> omega

theorem set_get_bump (c : Counts) (s : QualityStatus) : (c.bump s).set s (c.get s) = c := by
  cases s <;> rfl

end Counts

/-! ## The count of a step -/

/-- Entries that leave the numbers of the decisions alone do so together. -/
theorem counts_undoAll {P : Py V} {js : List (UndoAction V)} (h : ∀ a ∈ js, ∀ s, (a.undo P s).counts = s.counts)
    (s : EngineState V) : (undoAll (UndoAction.undo P) js s).counts = s.counts := by
  induction js generalizing s with
  | nil => rfl
  | cons a js ih => rw [undoAll_cons, ih (fun b hb => h b (List.mem_cons_of_mem _ hb)), h a List.mem_cons_self]

theorem package_status {P : Py V} {raw : RawEvent} {f : Fields V} {offset : Int} {recvTs now : Json}
    {found : Epoch × QualityStatus × List Reason × Bool × Bool} {d : EngineDecision V}
    (h : package P raw f offset recvTs now found = .ok d) : d.qualityStatus = found.2.1 := by
  obtain ⟨e, status, reasons, isDuplicate, disagreement⟩ := found
  simp only [package] at h
  split at h
  · cases h
    rfl
  · rcases hrecv : P.float recvTs with _ | recv
    · rw [hrecv] at h
      cases h
    · rw [hrecv] at h
      rcases hnow : P.float now with _ | t
      · rw [hnow] at h
        cases h
      · rw [hnow] at h
        cases h
        rfl

/-- What the stages of a step have counted: the decision they return, or nothing that the journal does not take back. -/
def Tallied (P : Py V) (w : Work V) : Except PyError (EngineDecision V) × Work V → Prop
  | (.ok d, w') => w'.state.counts = w.state.counts.bump d.qualityStatus
  | (.error _, w') => ∃ js, w'.journal = js ++ w.journal ∧ (undoAll (UndoAction.undo P) js w'.state).counts = w.state.counts

theorem judge_counts (c : StepConfig V) (raw : RawEvent) (now : Json) (offset : Int) (isReplay : Bool) (w : Work V) :
    Tallied c.py w (judge c raw now offset isReplay w) := by
  unfold judge
  split
  · rcases hchecks : stageChecks c raw offset (raw.recvTs now) with exc | d | f
    · exact ⟨[], rfl, rfl⟩
    · show w.state.counts.bump .invalid = w.state.counts.bump d.qualityStatus
      rw [(stageChecks_quarantined hchecks).2.2.1]
    · rw [Proc.bind_of_ok (Proc.lift_apply _ w)]
      dsimp only
      have htally := SameTally.runStages c raw f (raw.recvTs now) isReplay w
      obtain ⟨js, hjs, hkeep⟩ := htally.journal
      rw [Proc.bind_apply]
      rcases hstages : runStages c raw f (raw.recvTs now) isReplay w with ⟨exc | found, v⟩
      · rw [hstages] at htally hjs
        exact ⟨js, hjs, (counts_undoAll hkeep _).trans htally.counts⟩
      · rw [hstages] at htally hjs
        have hcounts : v.state.counts = w.state.counts := htally.counts
        dsimp only
        rw [Proc.bind_of_ok (rfl : bumpCount found.2.1 v = (.ok (), _)), Proc.lift_apply]
        rcases hpackage : package c.py raw f offset (raw.recvTs now) now found with exc | d
        · refine ⟨.count found.2.1 (v.state.counts.get found.2.1) :: js, congrArg _ hjs, ?_⟩
          rw [undoAll_cons, counts_undoAll hkeep]
          exact (Counts.set_get_bump _ _).trans hcounts
        · show v.state.counts.bump found.2.1 = w.state.counts.bump d.qualityStatus
          rw [package_status hpackage, hcounts]
  · rfl

/-- A step counts its decision. -/
theorem step_counts (c : StepConfig V) (raw : RawEvent) (now : Json) (offset : Option Int) (isReplay : Bool) (w : Work V) :
    (step c raw now offset isReplay w).2.state.counts =
      w.state.counts.bump (step c raw now offset isReplay w).1.qualityStatus := by
  have hjudge := judge_counts c raw now (offset.getD w.state.eventCount) isReplay (w.begun (offset.getD w.state.eventCount))
  rw [← stepInternal_eq] at hjudge
  unfold step
  dsimp only
  rcases hres : stepInternal c raw now (offset.getD w.state.eventCount) isReplay w with ⟨exc | d, w'⟩
  · rw [hres] at hjudge
    obtain ⟨js, hjs, hcounts⟩ := hjudge
    -- the oldest three entries are for the counters of the events
    have hjournal : w'.journal = (js ++ [.lastAppliedOffset w.state.lastAppliedOffset, .observedCount w.state.observedCount,
        .eventCount w.state.eventCount]) ++ w.journal := by
      rw [hjs, List.append_assoc]
      rfl
    have hback : (w'.rollbackTo c.py w.journal.length).state.counts = w.state.counts := by
      rw [Work.rollbackTo_eq hjournal]
      dsimp only
      rw [undoAll_append]
      exact hcounts
    show ((w'.rollbackTo c.py w.journal.length).state.counts.bump .invalid) = _
    rw [hback]
    rfl
  · rw [hres] at hjudge
    exact hjudge

end Mdrap
