import Mdrap.Theorems.Redelivery
import Mdrap.Lemmas.Undo

/-!
# What makes an event invalid

An event that passes the checks becomes invalid in two places: its number or its fingerprint is known, or its quote is crossed. No
later stage makes it invalid, and the stages of the epoch and of the sequence find what the state says before them.
-/

namespace Mdrap

open Lib

variable {V : Type} {P : Py V}

/-! ## Known numbers and fingerprints -/

namespace EngineState

/-- The number has been seen: the window has its bit, or the list of old numbers has it. -/
def KnowsNumber (s : EngineState V) (e : Epoch) (seq : Int) : Prop :=
  ∃ last, s.sequenceState.get? e.slot = some last ∧ seq ≤ last ∧
    if last - seq < SEQUENCE_BITMAP_BITS then ((s.sequenceSeen.get? e.slot).getD 0).testBit (last - seq).toNat = true
    else seq ∈ (s.sequenceStaleSeen.get? e.slot).getD []

/-- The event has been seen, by its number or by its fingerprint. -/
def KnowsEvent (s : EngineState V) (P : Py V) (raw : RawEvent) (f : Fields V) (e : Epoch) : Prop :=
  match f.seq with
  | some seq => s.KnowsNumber e seq
  | none => known P s.dedupSet (fingerprint P raw f) = true

end EngineState

section Total

variable {β : Type}

theorem gives_record (a : EngineState V → UndoAction V) : Proc.Gives (fun _ => True) (record a) := .modify _

theorem gives_update (f : EngineState V → EngineState V) : Proc.Gives (fun _ => True) (update f) := .modify _

theorem gives_recordSequence (k : String) : Proc.Gives (fun _ => True) (recordSequence k : StepM V Unit) :=
  .bind (gives_record _) fun _ => .bind (gives_record _) fun _ => .bind (gives_record _) fun _ => gives_record _

theorem gives_forSlots (e : Epoch) {f : String → StepM V Unit} (h : ∀ k, Proc.Gives (fun _ => True) (f k)) :
    Proc.Gives (fun _ => True) (forSlots e f) := .bind (h _) fun _ => .ite (h _) (.pure trivial)

theorem gives_seqFirst (e : Epoch) (seq : Int) : Proc.Gives (fun _ => True) (seqFirst e seq : StepM V Unit) :=
  .bind (gives_forSlots e gives_recordSequence) fun _ => gives_forSlots e fun _ => gives_update _

theorem gives_seqJump (e : Epoch) (seq cand : Int) : Proc.Gives (fun _ => True) (seqJump e seq cand : StepM V Unit) := by
  refine .ite (.bind (gives_forSlots e gives_recordSequence) fun _ => ?_) (.bind (gives_forSlots e fun _ => gives_record _) fun _ => ?_)
  · exact gives_forSlots e fun _ => gives_update _
  · exact gives_forSlots e fun _ => gives_update _

theorem gives_seqAdvance (e : Epoch) (seq : Int) (seen : Nat) :
    Proc.Gives (fun _ => True) (seqAdvance e seq seen : StepM V Unit) :=
  .bind (gives_forSlots e gives_recordSequence) fun _ => gives_forSlots e fun _ => gives_update _

theorem gives_openGaps (source instrument : String) (last seq : Int) (epoch : Nat) (recvTs : Json) (isReplay : Bool) :
    Proc.Gives (fun _ => True) (openGaps source instrument last seq epoch recvTs isReplay : StepM V Unit) :=
  .ite (.pure trivial) (.modify _)

theorem gives_fillGap (source instrument : String) (seq : Int) (epoch : Nat) :
    Proc.Gives (fun _ => True) (fillGap source instrument seq epoch : StepM V Bool) :=
  .bind (.read _) fun _ => .bind (.modify _) fun _ => .pure trivial

theorem gives_seqLate (e : Epoch) (seen : Nat) (d : Int) : Proc.Gives (fun _ => True) (seqLate e seen d : StepM V Unit) :=
  .bind (gives_forSlots e fun _ => gives_record _) fun _ => gives_forSlots e fun _ => gives_update _

theorem gives_seqResync (e : Epoch) (seq : Int) : Proc.Gives (fun _ => True) (seqResync e seq : StepM V Unit) :=
  .bind (gives_forSlots e gives_recordSequence) fun _ => gives_forSlots e fun _ => gives_update _

theorem gives_seqStale (e : Epoch) (seq : Int) (regress : Nat) (stale : List Int) :
    Proc.Gives (fun _ => True) (seqStale e seq regress stale : StepM V Unit) :=
  .bind (gives_forSlots e fun _ => gives_record _) fun _ =>
    .bind (gives_forSlots e fun _ => gives_update _) fun _ => gives_update _

end Total

/-- The stage of the sequence returns, and finds an event without marks invalid exactly where its number is known. -/
theorem stageSequence_found (P : Py V) (raw : RawEvent) (instrument : String) (seq : Int) (recvTs : Json) (e : Epoch)
    (isReplay : Bool) (reasons : List Reason) (w : Work V) :
    ∃ found, (stageSequence P raw instrument seq recvTs e isReplay .valid reasons w).1 = .ok found ∧
      (found.status = .invalid ↔ w.state.KnowsNumber e seq) := by
  simp only [stageSequence, look, Proc.bind_apply (Proc.read _), Proc.read_apply]
  -- a finding that is not invalid, of a number that is not known
  have hnew {m : StepM V Unit} (hm : Proc.Gives (fun _ => True) m) {found : Finding} (hfound : found.status ≠ .invalid)
      (hknows : ¬w.state.KnowsNumber e seq) : ∃ a, ((m >>= fun _ => pure found : StepM V Finding) w).1 = .ok a ∧
        (a.status = .invalid ↔ w.state.KnowsNumber e seq) :=
    Proc.Gives.bind_at ((hm w).imp fun _ h => h.1) fun _ => .pure (iff_of_false hfound hknows)
  rcases hlast : w.state.sequenceState.get? e.slot with _ | last
  · refine hnew (gives_seqFirst e seq) (by rintro ⟨⟩) ?_
    rintro ⟨last, hsome, -⟩
    rw [hlast] at hsome
    cases hsome
  have hknows : w.state.KnowsNumber e seq ↔ seq ≤ last ∧
      if last - seq < SEQUENCE_BITMAP_BITS then ((w.state.sequenceSeen.get? e.slot).getD 0).testBit (last - seq).toNat = true
      else seq ∈ (w.state.sequenceStaleSeen.get? e.slot).getD [] := by
    simp only [EngineState.KnowsNumber, hlast, Option.some.injEq, exists_eq_left']
  by_cases hahead : seq > last
  · have hnot : ¬w.state.KnowsNumber e seq := by
      rw [hknows]
      omega
    simp only [if_pos hahead]
    split
    · exact hnew (gives_seqJump e seq _) (by rintro ⟨⟩) hnot
    · split
      · refine Proc.Gives.bind_at ((gives_openGaps _ _ _ _ _ _ _ w).imp fun _ h => h.1) fun _ => ?_
        exact .bind (gives_seqAdvance e seq _) fun _ => .pure (iff_of_false (by rintro ⟨⟩) hnot)
      · exact hnew (gives_seqAdvance e seq _) (by rintro ⟨⟩) hnot
  · simp only [if_neg hahead]
    have hle : seq ≤ last := by omega
    by_cases hwindow : last - seq < SEQUENCE_BITMAP_BITS
    · rw [if_pos hwindow] at hknows
      simp only [if_pos hwindow]
      split
      · rename_i hbit
        exact ⟨_, rfl, iff_of_true rfl (hknows.mpr ⟨hle, hbit⟩)⟩
      · rename_i hbit
        have hnot : ¬w.state.KnowsNumber e seq := fun h => hbit (hknows.mp h).2
        refine Proc.Gives.bind_at ((gives_fillGap _ _ _ _ w).imp fun _ h => h.1) fun filled => ?_
        refine .bind (gives_seqLate e _ _) fun _ => ?_
        exact .ite (.pure (iff_of_false (by rintro ⟨⟩) hnot)) (.pure (iff_of_false (by rintro ⟨⟩) hnot))
    · rw [if_neg hwindow] at hknows
      simp only [if_neg hwindow, seqBehind, update, look, Proc.bind_apply (Proc.modify _), Proc.modify_apply,
        Proc.bind_apply (Proc.read _), Proc.read_apply, Dict.get?_set_self, Option.getD_some]
      split
      · rename_i hmem
        exact ⟨_, rfl, iff_of_true rfl (hknows.mpr ⟨hle, hmem⟩)⟩
      · rename_i hmem
        have hnot : ¬w.state.KnowsNumber e seq := fun h => hmem (hknows.mp h).2
        refine Proc.Gives.ite (.ite ?_ ?_) ?_ _
        · exact .bind (gives_seqResync e seq) fun _ => .pure (iff_of_false (by rintro ⟨⟩) hnot)
        · exact .bind (gives_seqStale e seq _ _) fun _ => .pure (iff_of_false (by rintro ⟨⟩) hnot)
        · exact .bind (gives_seqStale e seq _ _) fun _ => .pure (iff_of_false (by rintro ⟨⟩) hnot)

/-- The stage of the sequence and of the fingerprints finds an event invalid exactly where it is known. -/
theorem stageSequenceAndDedup_found (P : Py V) (raw : RawEvent) (f : Fields V) (recvTs : Json) (e : Epoch) (isReplay : Bool)
    (reasons : List Reason) (w : Work V) :
    ∃ found, (stageSequenceAndDedup P raw f recvTs e isReplay .valid reasons w).1 = .ok found ∧
      (found.status = .invalid ↔ w.state.KnowsEvent P raw f e) := by
  rcases hseq : f.seq with _ | seq <;> simp only [stageSequenceAndDedup, EngineState.KnowsEvent, hseq]
  · rcases hknown : w.state.dedupSet.any (Fingerprint.same P (fingerprint P raw f)) with _ | _
    · rw [stageDedup_new hknown]
      exact ⟨_, rfl, iff_of_false (by rintro ⟨⟩) (by simp [known, hknown])⟩
    · rw [stageDedup_known hknown]
      exact ⟨_, rfl, iff_of_true rfl hknown⟩
  · exact stageSequence_found P raw f.instrument seq recvTs e isReplay reasons w

/-! ## Age and quote -/

theorem QualityStatus.merge_suspicious {status : QualityStatus} (h : status ≠ .invalid) : status.merge .suspicious ≠ .invalid := by
  revert h
  cases status <;> decide

/-- The age of an event is not asked for, or can be told. -/
def AgeTold (P : Py V) (f : Fields V) (recvTs : Json) : Prop :=
  f.eventType = .halt ∨ f.eventType = .status ∨ ∃ received age, P.num recvTs = .ok received ∧ P.sub received f.exchTs = .ok age

/-- The bid of an event is above its ask. -/
def CrossedQuote (P : Py V) (payload : Json) : Prop :=
  ∃ bid ask, fieldValue P payload "bid" = some bid ∧ fieldValue P payload "ask" = some ask ∧ P.lt ask bid = true

theorem staleness_told {f : Fields V} {recvTs : Json} (threshold : V) {status : QualityStatus} (hstatus : status ≠ .invalid)
    (reasons : List Reason) :
    (AgeTold P f recvTs ∧ ∃ status' reasons',
        stageQuoteAndStaleness.staleness P f recvTs threshold status reasons = .ok (status', reasons') ∧ status' ≠ .invalid) ∨
      (¬AgeTold P f recvTs ∧ ∃ err, stageQuoteAndStaleness.staleness P f recvTs threshold status reasons = .error err) := by
  unfold stageQuoteAndStaleness.staleness
  by_cases hasked : status ≠ .invalid ∧ f.eventType ≠ .halt ∧ f.eventType ≠ .status
  · rw [if_pos hasked]
    have htold : AgeTold P f recvTs ↔ ∃ received age, P.num recvTs = .ok received ∧ P.sub received f.exchTs = .ok age := by
      simp [AgeTold, hasked.2.1, hasked.2.2]
    rw [htold]
    rcases hnum : P.num recvTs with err | received
    · exact .inr ⟨by simp, err, rfl⟩
    rcases hsub : P.sub received f.exchTs with err | age
    · exact .inr ⟨by simp [hsub], err, by simp [bind, Except.bind, hsub]⟩
    refine .inl ⟨⟨received, age, rfl, hsub⟩, ?_⟩
    simp only [bind, Except.bind, pure, Except.pure, hsub]
    split
    · exact ⟨_, _, rfl, QualityStatus.merge_suspicious hstatus⟩
    · exact ⟨_, _, rfl, hstatus⟩
  · rw [if_neg hasked]
    refine .inl ⟨?_, _, _, rfl, hstatus⟩
    by_contra htold
    exact hasked ⟨hstatus, fun h => htold (.inl h), fun h => htold (.inr (.inl h))⟩

/-- An event that is not invalid before is invalid after this stage exactly where its quote is crossed. -/
theorem stageQuoteAndStaleness_found (payload : Json) {f : Fields V} {recvTs : Json} (threshold : V) {status : QualityStatus}
    (hstatus : status ≠ .invalid) (reasons : List Reason) :
    (AgeTold P f recvTs ∧ ∃ status' reasons',
        stageQuoteAndStaleness P payload f recvTs threshold status reasons = .ok (status', reasons') ∧
          (status' = .invalid ↔ CrossedQuote P payload)) ∨
      (¬AgeTold P f recvTs ∧ ∃ err, stageQuoteAndStaleness P payload f recvTs threshold status reasons = .error err) := by
  obtain ⟨htold, status', reasons', hstale, hvalid⟩ | ⟨htold, err, hstale⟩ := staleness_told threshold hstatus reasons
  · refine .inl ⟨htold, ?_⟩
    unfold stageQuoteAndStaleness
    rw [hstale]
    simp only [bind, Except.bind, pure, Except.pure]
    rcases hbid : fieldValue P payload "bid" with _ | bid
    · exact ⟨_, _, rfl, iff_of_false hvalid (by simp [CrossedQuote, hbid])⟩
    rcases hask : fieldValue P payload "ask" with _ | ask
    · exact ⟨_, _, rfl, iff_of_false hvalid (by simp [CrossedQuote, hask])⟩
    by_cases hcrossed : P.lt ask bid = true
    · refine ⟨_, _, if_pos hcrossed, iff_of_true ?_ ⟨bid, ask, hbid, hask, hcrossed⟩⟩
      cases status' <;> rfl
    · exact ⟨_, _, if_neg hcrossed, iff_of_false hvalid (by simp [CrossedQuote, hbid, hask, hcrossed])⟩
  · refine .inr ⟨htold, err, ?_⟩
    unfold stageQuoteAndStaleness
    rw [hstale]
    rfl

/-! ## The price and the feeds -/

theorem stagePriceCorridor_valid {slot : String} {price : Option V} {status : QualityStatus} (hstatus : status ≠ .invalid)
    (reasons : List Reason) :
    Proc.Returns (fun found => found.1 ≠ QualityStatus.invalid) (stagePriceCorridor P slot price status reasons) := by
  cases price with
  | none => exact .pure hstatus
  | some price =>
    unfold stagePriceCorridor
    dsimp only
    rw [if_neg hstatus]
    refine .bind (.any _) fun _ _ => .bind (.any _) fun _ _ => .bind (.any _) fun _ _ => .bind (.any _) fun _ _ => ?_
    refine .bind (.any _) fun found _ => ?_
    split
    · exact .bind (.any _) fun _ _ => .pure (QualityStatus.merge_suspicious hstatus)
    · exact .bind (.any _) fun _ _ => .pure hstatus

theorem stageBboAndReconciliation_valid {raw : RawEvent} {f : Fields V} {price : Option V} {status : QualityStatus}
    (hstatus : status ≠ .invalid) (reasons : List Reason) :
    Proc.Returns (fun found => found.status ≠ QualityStatus.invalid) (stageBboAndReconciliation P raw f price status reasons) := by
  refine .bind (.any _) fun _ _ => ?_
  cases price with
  | none => exact .pure hstatus
  | some price =>
    dsimp only
    rw [if_neg hstatus]
    refine .bind (.any _) fun _ _ => .bind (.any _) fun _ _ => .bind (.any _) fun _ _ => .bind (.any _) fun away _ => ?_
    split
    · exact .pure (QualityStatus.merge_suspicious hstatus)
    · exact .pure hstatus

section Later

variable {c : StepConfig V} {raw : RawEvent} {f : Fields V} {recvTs : Json} {e : Epoch} {order : Finding} {w : Work V}

/-- What is not invalid by its age and its quote is not invalid at all. -/
theorem laterStages_valid {status : QualityStatus} {reasons : List Reason}
    (hquote : stageQuoteAndStaleness c.py raw.payload f recvTs w.state.stalenessThresholdS order.status order.reasons =
      .ok (status, reasons)) (hstatus : status ≠ .invalid) {found : Epoch × QualityStatus × List Reason × Bool × Bool}
    (h : (laterStages c raw f recvTs e order w).1 = .ok found) : found.2.1 ≠ .invalid := by
  unfold laterStages at h
  rw [Proc.bind_of_ok (rfl : look EngineState.stalenessThresholdS w = _), hquote, Proc.bind_of_ok (rfl : Proc.lift _ w = _)] at h
  refine Proc.Returns.bind (Q := fun found => found.2.1 ≠ .invalid) (stagePriceCorridor_valid hstatus reasons) ?_ w found h
  rintro ⟨status', reasons'⟩ hstatus'
  exact .bind (stageBboAndReconciliation_valid hstatus' reasons') fun feeds hfeeds => .pure hfeeds

theorem laterStages_error {err : PyError}
    (hquote : stageQuoteAndStaleness c.py raw.payload f recvTs w.state.stalenessThresholdS order.status order.reasons = .error err) :
    (laterStages c raw f recvTs e order w).1 = .error err := by
  unfold laterStages
  rw [Proc.bind_of_ok (rfl : look EngineState.stalenessThresholdS w = _), hquote]
  rfl

end Later

end Mdrap
