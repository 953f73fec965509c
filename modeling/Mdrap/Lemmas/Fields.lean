import Mdrap.Engine.Step

/-!
# The stage of the epoch, for every policy

Where the stage returns, it has found the epoch that the state says (`epochAt`), and has changed nothing but the epoch, the session
and the time of streams; where it raises, it has changed nothing.
-/

namespace Mdrap

open Lib

variable {V : Type}

/-- The stream of an event. -/
def streamOf (P : Py V) (raw : RawEvent) (f : Fields V) : String := streamKey (raw.sourceText P) f.instrument

namespace EngineState

/-- The epoch a stream is in. -/
def epochOfStream (s : EngineState V) (stream : String) : Nat := (s.epochState.get? stream).getD 0

/-- Whether an event begins an epoch of its stream. -/
def resets (s : EngineState V) (P : Py V) (policy : SessionPolicy) (raw : RawEvent) (f : Fields V) : Except PyError Bool :=
  epochReset P policy raw.payload (sessionOf P raw) (s.sessionState.get? (streamOf P raw f)) (s.epochOfStream (streamOf P raw f))
    f.seq (s.sequenceState.get? (slotKey (streamOf P raw f) (s.epochOfStream (streamOf P raw f)))) f.exchTs
    (s.epochTs.get? (streamOf P raw f))

/-- The epoch of an event, which it begins or not. -/
def epochAt (s : EngineState V) (P : Py V) (raw : RawEvent) (f : Fields V) (reset : Bool) : Epoch :=
  let epoch := if reset then s.epochOfStream (streamOf P raw f) + 1 else s.epochOfStream (streamOf P raw f)
  ⟨epoch, streamOf P raw f, slotKey (streamOf P raw f) epoch, sessionOf P raw, reset⟩

end EngineState

/-- What the stage of the epoch makes of the work: the epochs and sessions, the times, and the journal. -/
def Work.placed (w : Work V) (epochs : Dict String Nat) (sessions : Dict String String) (times : Dict String V)
    (journal : List (UndoAction V)) : Work V where
  state := { w.state with epochState := epochs, sessionState := sessions, epochTs := times }
  journal := journal
  gaps := w.gaps

/-- The time of the stream is noted, and nothing else of the state. -/
theorem noteTs_eq (P : Py V) (stream : String) (exchTs : V) (lastTs : Option V) (reset : Bool) (w : Work V) :
    ∃ js d, stageSessionAndEpoch.noteTs P stream exchTs lastTs reset w =
      (.ok (), { w with state := { w.state with epochTs := d }, journal := js }) := by
  unfold stageSessionAndEpoch.noteTs
  split
  · exact ⟨w.journal, w.state.epochTs, rfl⟩
  · cases reset
    · exact ⟨_, _, rfl⟩
    · exact ⟨_, _, rfl⟩

/-- The epoch that begins is noted, and the session of an event that names one; nothing else of the state is. -/
theorem noteSession_spec (stream : String) (session current : Option String) (epoch : Nat) (reset : Bool) (w : Work V) :
    ∃ js sessions, stageSessionAndEpoch.noteSession stream session current epoch reset w =
      (.ok (), { w with
        state := { w.state with
          epochState := if reset then w.state.epochState.set stream epoch else w.state.epochState
          sessionState := sessions }
        journal := js }) ∧ (session = none → sessions = w.state.sessionState) := by
  cases reset with
  | true =>
    cases session with
    | none => exact ⟨_, _, rfl, fun _ => rfl⟩
    | some id => exact ⟨_, _, rfl, nofun⟩
  | false =>
    cases session with
    | none => exact ⟨_, _, rfl, fun _ => rfl⟩
    | some id =>
      cases current with
      | none => exact ⟨_, _, rfl, nofun⟩
      | some _ => exact ⟨_, _, rfl, nofun⟩

section Stage

variable {P : Py V} {policy : SessionPolicy} {raw : RawEvent} {f : Fields V} {w : Work V}

/-- The stage asks whether an epoch begins, and then notes what has begun. -/
theorem stageSessionAndEpoch_eq (P : Py V) (policy : SessionPolicy) (raw : RawEvent) (f : Fields V) (w : Work V) :
    stageSessionAndEpoch P policy raw f w = (Proc.lift (w.state.resets P policy raw f) >>= fun reset =>
      stageSessionAndEpoch.noteSession (streamOf P raw f) (sessionOf P raw) (w.state.sessionState.get? (streamOf P raw f))
          (w.state.epochAt P raw f reset).epoch reset >>= fun _ =>
        stageSessionAndEpoch.noteTs P (streamOf P raw f) f.exchTs (w.state.epochTs.get? (streamOf P raw f)) reset >>= fun _ =>
          pure (w.state.epochAt P raw f reset)) w := rfl

theorem stageSessionAndEpoch_error {err : PyError} (h : w.state.resets P policy raw f = .error err) :
    stageSessionAndEpoch P policy raw f w = (.error err, w) := by
  rw [stageSessionAndEpoch_eq, h]
  rfl

/-- Where it returns, the epoch of the stream is the one before or the next one, and an event without a session changes none. -/
theorem stageSessionAndEpoch_ok {reset : Bool} (h : w.state.resets P policy raw f = .ok reset) :
    ∃ js sessions times, stageSessionAndEpoch P policy raw f w = (.ok (w.state.epochAt P raw f reset),
        w.placed (if reset then w.state.epochState.set (streamOf P raw f) (w.state.epochOfStream (streamOf P raw f) + 1)
          else w.state.epochState) sessions times js) ∧
      (sessionOf P raw = none → sessions = w.state.sessionState) := by
  obtain ⟨js, sessions, hnote, hsession⟩ := noteSession_spec (streamOf P raw f) (sessionOf P raw)
    (w.state.sessionState.get? (streamOf P raw f)) (w.state.epochAt P raw f reset).epoch reset w
  obtain ⟨js', times, hts⟩ := noteTs_eq P (streamOf P raw f) f.exchTs (w.state.epochTs.get? (streamOf P raw f)) reset
    (stageSessionAndEpoch.noteSession (streamOf P raw f) (sessionOf P raw) (w.state.sessionState.get? (streamOf P raw f))
      (w.state.epochAt P raw f reset).epoch reset w).2
  refine ⟨js', sessions, times, ?_, hsession⟩
  rw [hnote] at hts
  rw [stageSessionAndEpoch_eq, h, Proc.bind_of_ok (Proc.lift_apply _ w), Proc.bind_of_ok hnote, Proc.bind_of_ok hts]
  cases reset <;> rfl

end Stage

end Mdrap

/-!
## Which fields a stage leaves alone

The stages of the epoch and of the sequence leave the five dictionaries of prices as they are; the stages after them
change nothing else of the state, and not the gaps.
-/

namespace Mdrap

open Lib

variable {V : Type}

/-! ## Something that is kept -/

/-- Something of the work is the same as before. -/
def Keeps {β : Type} (g : Work V → β) (w w' : Work V) : Prop := g w' = g w

namespace Keeps

variable {β γ δ : Type} {g : Work V → β}

theorem refl (w : Work V) : Keeps g w w := rfl

theorem trans (w w' w'' : Work V) (h : Keeps g w w') (h' : Keeps g w' w'') : Keeps g w w'' := Eq.trans h' h

theorem bind {m : StepM V γ} {f : γ → StepM V δ} (hm : Proc.Frame (Keeps g) m) (hf : ∀ a, Proc.Frame (Keeps g) (f a)) :
    Proc.Frame (Keeps g) (m >>= f) := .bind trans hm hf

theorem ite {p : Prop} [Decidable p] {m n : StepM V γ} (hm : Proc.Frame (Keeps g) m) (hn : Proc.Frame (Keeps g) n) :
    Proc.Frame (Keeps g) (if p then m else n) := by
  split
  · exact hm
  · exact hn

theorem pure (a : γ) : Proc.Frame (Keeps g) (Pure.pure a : StepM V γ) := .pure refl a

theorem lift (x : Except PyError γ) : Proc.Frame (Keeps g) (Proc.lift x : StepM V γ) := .lift refl x

theorem look (f : EngineState V → γ) : Proc.Frame (Keeps g) (Mdrap.look f) := .read refl _

theorem read (f : Work V → γ) : Proc.Frame (Keeps g) (Proc.read f : StepM V γ) := .read refl _

theorem modify {f : Work V → Work V} (h : ∀ w, g (f w) = g w) :
    Proc.Frame (Keeps g) (Proc.modify f : StepM V Unit) := .modify h

theorem update {f : EngineState V → EngineState V} (h : ∀ w : Work V, g { w with state := f w.state } = g w) :
    Proc.Frame (Keeps g) (Mdrap.update f) := .modify h

/-- What comes at the end of a piece and keeps something leaves it as the rest of the piece has it. -/
theorem after {m : StepM V γ} {f : γ → StepM V δ} (hf : ∀ a, Proc.Frame (Keeps g) (f a)) (w : Work V) :
    g ((m >>= f) w).2 = g (m w).2 := by
  rw [Proc.bind_apply]
  rcases m w with ⟨_ | a, t⟩
  · rfl
  · exact hf a t

end Keeps

/-! ## The prices -/

/-- The dictionaries of prices. -/
structure Priced (V : Type) where
  windows : Dict String (List V)
  stats : Dict String (V × V × Nat)
  anom : Dict String (Nat × V)
  quotes : Dict String (Dict String (Quote V))
  feeds : Dict String (Dict String (V × V))

def EngineState.priced (s : EngineState V) : Priced V :=
  ⟨s.priceWindows, s.priceStats, s.priceAnom, s.bboState, s.reconciliationState⟩

/-- The state without its prices. -/
def EngineState.unpriced (s : EngineState V) : EngineState V where
  __ := s
  priceWindows := .empty
  priceStats := .empty
  priceAnom := .empty
  bboState := .empty
  reconciliationState := .empty

/-- The prices are as they were. -/
abbrev SamePriced (w w' : Work V) : Prop := Keeps (fun v => v.state.priced) w w'

/-- All but the prices is as it was. -/
abbrev SameUnpriced (w w' : Work V) : Prop := Keeps (fun v => (v.state.unpriced, v.gaps)) w w'

namespace Keeps

section Sequence

variable {β : Type} {g : Work V → β}

/-- Something that does not depend on the places in the sequence, on the gaps and on the journal. -/
def OffSequence (g : Work V → β) : Prop :=
  ∀ (w : Work V) (last : Dict String Int) (seen : Dict String Nat) (cand : Dict String Int) (regress : Dict String Nat)
    (journal : List (UndoAction V)) (gaps : Option GapManager),
    g ⟨{ w.state with sequenceState := last, sequenceSeen := seen, sequenceCand := cand, sequenceRegress := regress },
      journal, gaps⟩ = g w

theorem record (hg : OffSequence g) (a : EngineState V → UndoAction V) : Proc.Frame (Keeps g) (Mdrap.record a) :=
  modify fun w => hg w w.state.sequenceState w.state.sequenceSeen w.state.sequenceCand w.state.sequenceRegress _ w.gaps

theorem recordSequence (hg : OffSequence g) (k : String) : Proc.Frame (Keeps g) (Mdrap.recordSequence k : StepM V Unit) :=
  bind (record hg _) fun _ => bind (record hg _) fun _ => bind (record hg _) fun _ => record hg _

theorem forSlots (e : Epoch) {f : String → StepM V Unit} (h : ∀ k, Proc.Frame (Keeps g) (f k)) :
    Proc.Frame (Keeps g) (Mdrap.forSlots e f) := bind (h _) fun _ => ite (h _) (pure _)

theorem seqFirst (hg : OffSequence g) (e : Epoch) (seq : Int) : Proc.Frame (Keeps g) (Mdrap.seqFirst e seq : StepM V Unit) :=
  bind (forSlots e (recordSequence hg)) fun _ => forSlots e fun _ => update fun w => hg w _ _ _ _ w.journal w.gaps

theorem seqJump (hg : OffSequence g) (e : Epoch) (seq cand : Int) :
    Proc.Frame (Keeps g) (Mdrap.seqJump e seq cand : StepM V Unit) := by
  refine ite (bind (forSlots e (recordSequence hg)) fun _ => ?_) (bind (forSlots e fun _ => record hg _) fun _ => ?_)
  · exact forSlots e fun _ => update fun w => hg w _ _ _ _ w.journal w.gaps
  · exact forSlots e fun _ => update fun w => hg w _ _ _ _ w.journal w.gaps

theorem seqAdvance (hg : OffSequence g) (e : Epoch) (seq : Int) (seen : Nat) :
    Proc.Frame (Keeps g) (Mdrap.seqAdvance e seq seen : StepM V Unit) :=
  bind (forSlots e (recordSequence hg)) fun _ => forSlots e fun _ => update fun w => hg w _ _ _ _ w.journal w.gaps

theorem gapUpdate (hg : OffSequence g) (f : GapManager → GapManager) :
    Proc.Frame (Keeps g) (Proc.modify (fun w => { w with gaps := w.gaps.map f }) : StepM V Unit) :=
  modify fun w => hg w w.state.sequenceState w.state.sequenceSeen w.state.sequenceCand w.state.sequenceRegress w.journal _

theorem seqLate (hg : OffSequence g) (e : Epoch) (seen : Nat) (d : Int) :
    Proc.Frame (Keeps g) (Mdrap.seqLate e seen d : StepM V Unit) :=
  bind (forSlots e fun _ => record hg _) fun _ => forSlots e fun _ => update fun w => hg w _ _ _ _ w.journal w.gaps

/-- The place of a number within the window, or ahead of it, is all that changes; one from before the window goes on to `seqBehind`. -/
theorem stageSequence_cases (P : Py V) (raw : RawEvent) (instrument : String) (seq : Int) (recvTs : Json) (e : Epoch)
    (isReplay : Bool) (status : QualityStatus) (reasons : List Reason) (w : Work V) :
    (∃ last, w.state.sequenceState.get? e.slot = some last ∧ SEQUENCE_BITMAP_BITS ≤ last - seq ∧
        stageSequence P raw instrument seq recvTs e isReplay status reasons w =
          seqBehind e seq (last - seq) ((w.state.sequenceRegress.get? e.slot).getD 0) status reasons w) ∨
      ((∀ last ∈ w.state.sequenceState.get? e.slot, last - seq < SEQUENCE_BITMAP_BITS) ∧
        ∀ {β : Type} {g : Work V → β}, OffSequence g →
          Keeps g w (stageSequence P raw instrument seq recvTs e isReplay status reasons w).2) := by
  simp only [stageSequence, Mdrap.look, Proc.bind_apply (Proc.read _), Proc.read_apply]
  rcases hlast : w.state.sequenceState.get? e.slot with _ | last
  · refine .inr ⟨by rintro _ ⟨⟩, fun hg => ?_⟩
    exact bind (seqFirst hg e seq) (fun _ => pure _) w
  by_cases hfar : SEQUENCE_BITMAP_BITS ≤ last - seq
  · refine .inl ⟨last, rfl, hfar, ?_⟩
    have hpos : (0 : Int) < SEQUENCE_BITMAP_BITS := by decide
    simp only [if_neg (show ¬seq > last by omega), if_neg (show ¬last - seq < SEQUENCE_BITMAP_BITS by omega)]
  · refine .inr ⟨fun l hl => by cases hl; omega, fun hg => ?_⟩
    by_cases hahead : seq > last
    · simp only [if_pos hahead]
      refine ite (bind (seqJump hg e seq _) fun _ => pure _) (ite ?_ (bind (seqAdvance hg e seq _) fun _ => pure _)) w
      exact bind (ite (pure _) (gapUpdate hg _)) fun _ => bind (seqAdvance hg e seq _) fun _ => pure _
    · simp only [if_neg hahead, if_pos (show last - seq < SEQUENCE_BITMAP_BITS by omega)]
      refine ite (pure _) (bind (bind (read _) fun _ => bind (gapUpdate hg _) fun _ => pure _) fun _ => ?_) w
      exact bind (seqLate hg e _ _) fun _ => ite (pure _) (pure _)

end Sequence

section Early

variable {P : Py V}

theorem priced_record (a : EngineState V → UndoAction V) : Proc.Frame SamePriced (Mdrap.record a) := modify fun _ => rfl

theorem priced_stageSessionAndEpoch (policy : SessionPolicy) (raw : RawEvent) (f : Fields V) :
    Proc.Frame SamePriced (Mdrap.stageSessionAndEpoch P policy raw f) := by
  intro w
  rcases hreset : w.state.resets P policy raw f with err | reset
  · rw [stageSessionAndEpoch_error hreset]
    exact refl w
  · obtain ⟨js, sessions, times, hstage, -⟩ := stageSessionAndEpoch_ok hreset
    rw [hstage]
    rfl

theorem priced_seqBehind (e : Epoch) (seq d : Int) (regress : Nat) (status : QualityStatus) (reasons : List Reason) :
    Proc.Frame SamePriced (Mdrap.seqBehind e seq d regress status reasons : StepM V Finding) := by
  have hstale (regress : Nat) (stale : List Int) : Proc.Frame SamePriced (Mdrap.seqStale e seq regress stale : StepM V Unit) :=
    bind (forSlots e fun _ => priced_record _) fun _ =>
      bind (forSlots e fun _ => update fun _ => rfl) fun _ => update fun _ => rfl
  refine bind (update fun _ => rfl) fun _ => bind (look _) fun stale => ite (pure _) (ite (ite ?_ ?_) ?_)
  · refine bind (bind (forSlots e fun k => recordSequence (fun _ _ _ _ _ _ _ => rfl) k) fun _ => ?_) fun _ => pure _
    exact forSlots e fun _ => update fun _ => rfl
  · exact bind (hstale _ _) fun _ => pure _
  · exact bind (hstale _ _) fun _ => pure _

theorem priced_stageSequenceAndDedup (raw : RawEvent) (f : Fields V) (recvTs : Json) (e : Epoch) (isReplay : Bool)
    (status : QualityStatus) (reasons : List Reason) :
    Proc.Frame SamePriced (Mdrap.stageSequenceAndDedup P raw f recvTs e isReplay status reasons) := by
  unfold Mdrap.stageSequenceAndDedup
  split
  · intro w
    obtain ⟨last, -, -, hbehind⟩ | ⟨-, hkeeps⟩ := stageSequence_cases P raw f.instrument _ recvTs e isReplay status reasons w
    · rw [hbehind]
      exact priced_seqBehind e _ _ _ _ _ w
    · exact hkeeps fun _ _ _ _ _ _ _ => rfl
  · exact bind (look _) fun _ => ite (pure _) (bind (look _) fun _ => bind (update fun _ => rfl) fun _ =>
      bind (priced_record _) fun _ => pure _)

theorem priced_bumpCount (status : QualityStatus) : Proc.Frame SamePriced (Mdrap.bumpCount status : StepM V Unit) :=
  bind (priced_record _) fun _ => update fun _ => rfl

end Early

end Keeps

/-! ## The later stages -/

/-- The stages after the event has its place. -/
def laterStages (c : StepConfig V) (raw : RawEvent) (f : Fields V) (recvTs : Json) (e : Epoch) (order : Finding) :
    StepM V (Epoch × QualityStatus × List Reason × Bool × Bool) := do
  let threshold ← look EngineState.stalenessThresholdS
  let (status, reasons) ← Proc.lift (stageQuoteAndStaleness c.py raw.payload f recvTs threshold order.status order.reasons)
  let (status, reasons) ← stagePriceCorridor c.py e.slot (fieldValue c.py raw.payload "price") status reasons
  let feeds ← stageBboAndReconciliation c.py raw f (fieldValue c.py raw.payload "price") status reasons
  return (e, feeds.status, feeds.reasons, order.flagged, feeds.flagged)

theorem runStages_split (c : StepConfig V) (raw : RawEvent) (f : Fields V) (recvTs : Json) (isReplay : Bool) :
    runStages c raw f recvTs isReplay = stageSessionAndEpoch c.py c.sessionPolicy raw f >>= fun e =>
      stageSequenceAndDedup c.py raw f recvTs e isReplay .valid (if e.reset then [.epochReset] else []) >>= fun order =>
        laterStages c raw f recvTs e order := rfl

namespace Keeps

section Later

variable {P : Py V}

/-- What keeps all but the prices keeps each part of it. -/
theorem of_unpriced {γ β : Type} {m : StepM V γ} (h : Proc.Frame SameUnpriced m) (part : EngineState V × Option GapManager → β) :
    Proc.Frame (Keeps fun v => part (v.state.unpriced, v.gaps)) m := fun w => congrArg part (h w)

theorem unpriced_record (a : EngineState V → UndoAction V) : Proc.Frame SameUnpriced (Mdrap.record a) := modify fun _ => rfl

theorem unpriced_seedStats (slot : String) (prices : List V) : Proc.Frame SameUnpriced (Mdrap.seedStats P slot prices) := by
  refine bind (look _) ?_
  rintro (_ | stats)
  · exact ite (bind (lift _) fun mean => bind (lift _) fun m2 => bind (update fun _ => rfl) fun _ => pure _) (pure _)
  · exact pure _

theorem unpriced_priceOutlier (slot : String) (price : V) (effStd : Option V) :
    Proc.Frame SameUnpriced (Mdrap.priceOutlier P slot price effStd) := by
  refine bind (look _) ?_
  rintro ⟨cnt, last⟩
  exact bind (lift _) fun _ => bind (lift _) fun _ => bind (lift _) fun _ => ite (update fun _ => rfl) (update fun _ => rfl)

theorem unpriced_setStats (slot : String) (x : Except PyError (V × V × Nat)) :
    Proc.Frame SameUnpriced (priceFold.setStats slot x) :=
  bind (lift _) fun _ => update fun _ => rfl

theorem unpriced_grow (slot : String) (prices : List V) (stats : Option (V × V × Nat)) (price : V) :
    Proc.Frame SameUnpriced (priceFold.grow P slot prices stats price) := by
  refine bind (update fun _ => rfl) ?_
  intro _
  cases stats with
  | none => exact ite (unpriced_setStats _ _) (pure _)
  | some stats => exact unpriced_setStats _ _

theorem unpriced_priceFold (slot : String) (prices : List V) (stats : Option (V × V × Nat)) (price : V) :
    Proc.Frame SameUnpriced (Mdrap.priceFold P slot prices stats price) := by
  refine bind (update fun _ => rfl) ?_
  intro _
  cases prices with
  | nil => exact unpriced_grow _ _ _ _
  | cons old rest =>
    refine ite (bind (update fun _ => rfl) ?_) (unpriced_grow _ _ _ _)
    intro _
    cases stats with
    | none => exact pure _
    | some stats => exact unpriced_setStats _ _

theorem unpriced_stagePriceCorridor (slot : String) (price : Option V) (status : QualityStatus) (reasons : List Reason) :
    Proc.Frame SameUnpriced (Mdrap.stagePriceCorridor P slot price status reasons) := by
  cases price with
  | none => exact pure _
  | some price =>
    refine ite (pure _) (bind ?_ fun _ => bind (update fun _ => rfl) fun _ => bind (look _) fun prices => ?_)
    · exact bind (unpriced_record _) fun _ => bind (unpriced_record _) fun _ => unpriced_record _
    · refine bind (unpriced_seedStats _ _) fun stats => bind (lift _) ?_
      rintro ⟨anomaly, effStd⟩
      exact ite (bind (unpriced_priceOutlier _ _ _) fun _ => pure _) (bind (unpriced_priceFold _ _ _ _) fun _ => pure _)

theorem unpriced_keepQuotes (payload : Json) (instrument source : String) :
    Proc.Frame SameUnpriced (Mdrap.keepQuotes P payload instrument source) := by
  have hside (f : String) (put : Quote V → V → Quote V) :
      Proc.Frame SameUnpriced (keepQuotes.side P payload instrument source f put) :=
    ite (pure _) (bind (lift _) fun _ => update fun _ => rfl)
  exact ite (pure _) (bind (unpriced_record _) fun _ => bind (update fun _ => rfl) fun _ => bind (hside _ _) fun _ => hside _ _)

theorem unpriced_stageBboAndReconciliation (raw : RawEvent) (f : Fields V) (price : Option V) (status : QualityStatus)
    (reasons : List Reason) : Proc.Frame SameUnpriced (Mdrap.stageBboAndReconciliation P raw f price status reasons) := by
  refine bind (unpriced_keepQuotes _ _ _) ?_
  intro _
  cases price with
  | none => exact pure _
  | some price =>
    refine ite (pure _) (bind (unpriced_record _) fun _ => bind (update fun _ => rfl) fun _ => bind (look _) fun recent => ?_)
    exact bind (lift _) fun _ => ite (pure _) (pure _)

theorem unpriced_laterStages (c : StepConfig V) (raw : RawEvent) (f : Fields V) (recvTs : Json) (e : Epoch) (order : Finding) :
    Proc.Frame SameUnpriced (Mdrap.laterStages c raw f recvTs e order) := by
  refine bind (look _) fun threshold => bind (lift _) ?_
  rintro ⟨status, reasons⟩
  refine bind (unpriced_stagePriceCorridor _ _ _ _) ?_
  rintro ⟨status, reasons⟩
  exact bind (unpriced_stageBboAndReconciliation _ _ _ _ _) fun feeds => pure _

end Later

end Keeps

end Mdrap
