import Mdrap.Lemmas.Step
import Mdrap.Lemmas.Streams

/-!
# A step seen from one stream

A step on an event of a stream does the same in an engine and in one that mirrors the stream. A step on another event leaves the
stream's part of the engine as it is.
-/

namespace Mdrap

open Lib

variable {V : Type}

/-- What a decision says of the place of its event in its stream: everything it found but the comparison with other feeds, whether it
is a duplicate, and the session. -/
structure StreamOutcome where
  reasons : List Reason
  isDuplicate : Bool
  session : Option (Option String)
  deriving DecidableEq

def EngineDecision.streamOutcome (d : EngineDecision V) : StreamOutcome where
  reasons := d.reasons.filter (· ≠ .crossFeedDisagreement)
  isDuplicate := d.isDuplicate
  session := d.canonicalEvent.map (·.sessionId)

/-! ## Fingerprints -/

namespace EngineState

/-- The fingerprint that has to go for a new one. -/
def evicted (s : EngineState V) (x : Fingerprint V) : Option (Fingerprint V) :=
  if DEFAULT_DEDUP_WINDOW_SIZE < s.dedupWindow.length + 1 then (s.dedupWindow ++ [x]).head? else none

/-- The state with a new fingerprint. -/
def push (P : Py V) (s : EngineState V) (x : Fingerprint V) : EngineState V :=
  { s with
    dedupSet := match s.evicted x with
      | none => s.dedupSet ++ [x]
      | some y => (s.dedupSet ++ [x]).filter (fun z => !z.same P y)
    dedupWindow := match s.evicted x with
      | none => s.dedupWindow ++ [x]
      | some _ => (s.dedupWindow ++ [x]).tail }

/-- The fingerprint that the next one may push out is not of the stream. -/
def KeepsWindow (source instrument : String) (s : EngineState V) : Prop :=
  s.dedupWindow.length = DEFAULT_DEDUP_WINDOW_SIZE → ∀ y, s.dedupWindow.head? = some y → y.isOf source instrument = false

end EngineState

theorem stageDedup_known {P : Py V} {raw : RawEvent} {f : Fields V} {w : Work V}
    (h : w.state.dedupSet.any (Fingerprint.same P (fingerprint P raw f)) = true) (status : QualityStatus) (reasons : List Reason) :
    stageDedup P raw f status reasons w = (.ok ⟨status.merge .invalid, reasons ++ [.duplicate], true⟩, w) := by
  simp [stageDedup, Proc.bind_apply, look, h]

theorem stageDedup_new {P : Py V} {raw : RawEvent} {f : Fields V} {w : Work V}
    (h : w.state.dedupSet.any (Fingerprint.same P (fingerprint P raw f)) = false) (status : QualityStatus) (reasons : List Reason) :
    stageDedup P raw f status reasons w = (.ok ⟨status, reasons, false⟩,
      ⟨w.state.push P (fingerprint P raw f), .dedup (fingerprint P raw f) (w.state.evicted (fingerprint P raw f)) :: w.journal,
        w.gaps⟩) := by
  simp only [stageDedup, Proc.bind_apply, look, Proc.read_apply, h, Bool.false_eq_true, if_false]
  rfl

section Window

variable {P : Py V} {source instrument : String} {s : EngineState V} {x : Fingerprint V}

theorem evicted_eq_some (hbounded : s.dedupWindow.length ≤ DEFAULT_DEDUP_WINDOW_SIZE) {y : Fingerprint V}
    (h : s.evicted x = some y) : s.dedupWindow.length = DEFAULT_DEDUP_WINDOW_SIZE ∧ ∃ rest, s.dedupWindow = y :: rest := by
  rw [EngineState.evicted] at h
  split at h
  · rename_i hfull
    refine ⟨by omega, ?_⟩
    rcases hwindow : s.dedupWindow with _ | ⟨z, rest⟩
    · rw [hwindow] at hfull
      exact absurd hfull (by simp [DEFAULT_DEDUP_WINDOW_SIZE])
    · rw [hwindow] at h
      cases h
      exact ⟨rest, rfl⟩
  · cases h

theorem evicted_eq_none (h : s.evicted x = none) : s.dedupWindow.length + 1 ≤ DEFAULT_DEDUP_WINDOW_SIZE := by
  rw [EngineState.evicted] at h
  split at h
  · simp at h
  · omega

theorem not_isOf_of_evicted (hbounded : s.dedupWindow.length ≤ DEFAULT_DEDUP_WINDOW_SIZE)
    (hkeeps : s.KeepsWindow source instrument) {y : Fingerprint V} (h : s.evicted x = some y) :
    y.isOf source instrument = false := by
  obtain ⟨hfull, rest, hwindow⟩ := evicted_eq_some hbounded h
  exact hkeeps hfull y (by rw [hwindow]; rfl)

/-- What a new fingerprint does to those of the stream: it comes in where it is one of them, and pushes out none. -/
theorem filter_push (hbounded : s.dedupWindow.length ≤ DEFAULT_DEDUP_WINDOW_SIZE) (hkeeps : s.KeepsWindow source instrument) :
    (s.push P x).dedupSet.filter (Fingerprint.isOf source instrument) =
        (s.dedupSet ++ [x]).filter (Fingerprint.isOf source instrument) ∧
      (s.push P x).dedupWindow.filter (Fingerprint.isOf source instrument) =
        (s.dedupWindow ++ [x]).filter (Fingerprint.isOf source instrument) ∧
      (s.push P x).dedupWindow.length ≤ DEFAULT_DEDUP_WINDOW_SIZE := by
  rcases hev : s.evicted x with _ | y
  · have hroom := evicted_eq_none hev
    simp only [EngineState.push, hev]
    exact ⟨trivial, trivial, by simpa using hroom⟩
  · have hy := not_isOf_of_evicted hbounded hkeeps hev
    obtain ⟨hfull, rest, hwindow⟩ := evicted_eq_some hbounded hev
    simp only [EngineState.push, hev]
    refine ⟨?_, ?_, ?_⟩
    · rw [List.filter_filter]
      refine List.filter_congr ?_
      intro z _
      -- one of the stream is not the same as the one that went
      rcases hz : z.isOf source instrument with _ | _
      · rfl
      · rcases hsame : z.same P y with _ | _
        · rfl
        · have hisOf := isOf_of_same source instrument hsame
          rw [hz, hy] at hisOf
          cases hisOf
    · rw [hwindow]
      simp [hy]
    · rw [hwindow] at hfull ⊢
      simpa using hfull.le

end Window

/-! ## An event of the stream -/

section Own

variable (P : Py V) (source instrument : String) (n : Nat) (b b' : List (UndoAction V))

/-- The two engines within a step of the stream, before its gaps are opened. -/
abbrev BeforeGaps : Work V → Work V → Prop :=
  Paired P (Mirrors source instrument)
    (Option.Rel (fun g g' => g.unrecoverableCount = n ∧ g.Shows source instrument g')) b b'

/-- The two engines within a step of the stream. -/
abbrev WithinStep : Work V → Work V → Prop :=
  Paired P (Mirrors source instrument) (Option.Rel (GapManager.ShowsAt source instrument n)) b b'

variable {P source instrument n b b'}

theorem Option.Rel.mono {α β : Type} {r r' : α → β → Prop} (h : ∀ a b, r a b → r' a b) {x : Option α} {y : Option β}
    (hxy : Option.Rel r x y) : Option.Rel r' x y := by
  cases hxy with
  | some hab => exact .some (h _ _ hab)
  | none => exact .none

theorem BeforeGaps.within (w w' : Work V) (h : BeforeGaps P source instrument n b b' w w') :
    WithinStep P source instrument n b b' w w' :=
  ⟨h.state, Option.Rel.mono (fun _ _ hg => ⟨hg.1.ge, fun _ => hg.2⟩) h.gaps, h.journal⟩

theorem BeforeGaps.onKeys {α : Type} {m : StepM V α} (h : OnKeys P (streamKeys source instrument) m) :
    Proc.Sim (BeforeGaps P source instrument n b b') m m := h.paired (Mirrors.respects source instrument) _ b b'

theorem WithinStep.onKeys {α : Type} {m : StepM V α} (h : OnKeys P (streamKeys source instrument) m) :
    Proc.Sim (WithinStep P source instrument n b b') m m := h.paired (Mirrors.respects source instrument) _ b b'

theorem own_openGaps (last seq : Int) (epoch : Nat) (recvTs : Json) (isReplay : Bool) :
    Proc.Sim (WithinStep P source instrument n b b') (openGaps source instrument last seq epoch recvTs isReplay)
      (openGaps source instrument last seq epoch recvTs isReplay) := by
  refine Paired.ite (.pure _) (.modify ?_)
  rintro ⟨s, j, g⟩ ⟨s', j', g'⟩ ⟨hstate, hgaps, hjournal⟩
  refine ⟨hstate, ?_, hjournal⟩
  cases hgaps with
  | some hg => exact .some (hg.recordGap _ _ _ _)
  | none => exact .none

theorem own_fillGap (seq : Int) (epoch : Nat) :
    Proc.Sim (BeforeGaps P source instrument n b b') (fillGap source instrument seq epoch)
      (fillGap source instrument seq epoch) := by
  refine .bind (.read ?_) ?_
  · rintro ⟨s, j, g⟩ ⟨s', j', g'⟩ ⟨-, hgaps, -⟩
    cases hgaps with
    | some hg => exact (hg.2.tryFill seq epoch).1
    | none => rfl
  intro filled
  refine .bind (.modify ?_) fun _ => .pure _
  rintro ⟨s, j, g⟩ ⟨s', j', g'⟩ ⟨hstate, hgaps, hjournal⟩
  refine ⟨hstate, ?_, hjournal⟩
  cases hgaps with
  | some hg => exact .some ⟨(GapManager.tryFill_count _ _ _ _ _).trans hg.1, (hg.2.tryFill seq epoch).2⟩
  | none => exact .none

/-- The rest of a step does not need the gaps. -/
theorem simTo_of_before {α : Type} {m : StepM V α} (h : Proc.Sim (BeforeGaps P source instrument n b b') m m) :
    Proc.SimTo (BeforeGaps P source instrument n b b') (WithinStep P source instrument n b b') Eq m m :=
  h.simTo.mono (fun _ _ h => h) BeforeGaps.within

theorem own_stageSequence {raw : RawEvent} (hsource : raw.sourceText P = source) (seq : Int) (recvTs : Json) {e : Epoch}
    (hslot : streamKeys source instrument e.slot) (hstream : streamKeys source instrument e.stream) (isReplay : Bool)
    (status : QualityStatus) (reasons : List Reason) :
    Proc.SimTo (BeforeGaps P source instrument n b b') (WithinStep P source instrument n b b') Eq
      (stageSequence P raw instrument seq recvTs e isReplay status reasons)
      (stageSequence P raw instrument seq recvTs e isReplay status reasons) := by
  subst hsource
  -- the looks before the branch change nothing, and the branches but one leave the gaps to be compared
  refine .bind (BeforeGaps.onKeys (.look hslot Cell.seqState)).simTo BeforeGaps.within ?_
  rintro last _ rfl
  refine .bind (BeforeGaps.onKeys (.look hslot (fun c => c.seqSeen.getD 0))).simTo BeforeGaps.within ?_
  rintro seen _ rfl
  refine .bind (BeforeGaps.onKeys (.look hslot (fun c => c.seqCand.getD 0))).simTo BeforeGaps.within ?_
  rintro cand _ rfl
  refine .bind (BeforeGaps.onKeys (.look hslot (fun c => c.seqRegress.getD 0))).simTo BeforeGaps.within ?_
  rintro regress _ rfl
  cases last with
  | none => exact simTo_of_before (.bind (BeforeGaps.onKeys (.seqFirst hslot hstream seq)) fun _ => .pure _)
  | some last =>
    dsimp only
    split
    · split
      · exact simTo_of_before (.bind (BeforeGaps.onKeys (.seqJump hslot hstream seq cand)) fun _ => .pure _)
      · split
        · refine .mono (Proc.Sim.simTo (.bind (own_openGaps _ _ _ _ _) ?_)) BeforeGaps.within fun _ _ h => h
          intro _
          exact .bind (WithinStep.onKeys (.seqAdvance hslot hstream seq _)) fun _ => .pure _
        · exact simTo_of_before (.bind (BeforeGaps.onKeys (.seqAdvance hslot hstream seq _)) fun _ => .pure _)
    · split
      · split
        · exact simTo_of_before (.pure _)
        · refine simTo_of_before (.bind (own_fillGap _ _) ?_)
          intro filled
          refine .bind (BeforeGaps.onKeys (.seqLate hslot hstream seen _)) ?_
          intro _
          exact Paired.ite (.pure _) (.pure _)
      · exact simTo_of_before (BeforeGaps.onKeys (.seqBehind hslot hstream seq _ regress status reasons))

theorem any_same_filter (P : Py V) {x : Fingerprint V} (hx : x.isOf source instrument = true) (set : List (Fingerprint V)) :
    (set.filter (Fingerprint.isOf source instrument)).any (Fingerprint.same P x) = set.any (Fingerprint.same P x) := by
  induction set with
  | nil => rfl
  | cons z set ih =>
    rcases hz : z.isOf source instrument with _ | _
    · have hsame : x.same P z = false := by
        by_contra hne
        have hisOf := isOf_of_same source instrument (Bool.not_eq_false _ ▸ hne)
        rw [hx, hz] at hisOf
        cases hisOf
      simpa [hz, hsame] using ih
    · simpa [hz] using congrArg (x.same P z || ·) ih

theorem own_stageDedup {raw : RawEvent} {f : Fields V} (hown : raw.sourceText P = source ∧ f.instrument = instrument)
    (status : QualityStatus) (reasons : List Reason) :
    Proc.SimTo (fun w w' => BeforeGaps P source instrument n b b' w w' ∧ w.state.KeepsWindow source instrument)
      (WithinStep P source instrument n b b') Eq (stageDedup P raw f status reasons) (stageDedup P raw f status reasons) := by
  rintro w w' ⟨hbefore, hkeeps⟩
  have hwithin := BeforeGaps.within w w' hbefore
  have hx : (fingerprint P raw f).isOf source instrument = true := by
    rw [isOf_fingerprint]
    exact decide_eq_true hown
  have hM := hwithin.state
  have hany := any_same_filter P hx w.state.dedupSet
  rw [← hM.dedupSet] at hany
  rcases hknown : w.state.dedupSet.any (Fingerprint.same P (fingerprint P raw f)) with _ | _
  · rw [hknown] at hany
    rw [stageDedup_new hknown, stageDedup_new hany]
    refine ⟨rfl, ?_⟩
    obtain ⟨hset, hwindow, hbounded⟩ := filter_push (P := P) (x := fingerprint P raw f) hM.bounded hkeeps
    -- the mirror has room: its window is not longer than the stream's part of the other
    have hroom : w'.state.dedupWindow.length + 1 ≤ DEFAULT_DEDUP_WINDOW_SIZE := by
      have hlen := congrArg List.length hwindow
      have hle := List.length_filter_le (Fingerprint.isOf source instrument) (w.state.push P (fingerprint P raw f)).dedupWindow
      simp only [List.filter_append, List.length_append, List.filter_singleton, hx, cond_true, List.length_singleton] at hlen
      have := hM.window
      omega
    have hnone : w'.state.evicted (fingerprint P raw f) = none := by
      rw [EngineState.evicted, if_neg (by omega)]
    have hM' : Mirrors source instrument (w.state.push P (fingerprint P raw f)) (w'.state.push P (fingerprint P raw f)) := by
      refine ⟨hM.cell, hM.threshold, ?_, ?_, hbounded, hM.lone⟩
      · rw [hset]
        simp only [EngineState.push, hnone, List.filter_append, hM.dedupSet]
        simp [hx]
      · rw [hwindow]
        simp only [EngineState.push, hnone, List.filter_append, List.length_append]
        simpa [hx] using hM.window
    refine hwithin.extend hM' ?_
    rw [hnone]
    exact Mirrors.undone_dedup P _ fun y hy => not_isOf_of_evicted hM.bounded hkeeps hy
  · rw [hknown] at hany
    rw [stageDedup_known hknown, stageDedup_known hany]
    exact ⟨rfl, hwithin⟩

theorem own_keepQuotes (payload : Json) (instrument' source' : String) :
    Proc.Sim (WithinStep P source instrument n b b') (keepQuotes P payload instrument' source')
      (keepQuotes P payload instrument' source') := by
  have hside (f : String) (put : Quote V → V → Quote V) : Proc.Sim (WithinStep P source instrument n b b')
      (keepQuotes.side P payload instrument' source' f put) (keepQuotes.side P payload instrument' source' f put) := by
    refine Paired.ite (.pure _) (.bind (.lift _) ?_)
    intro x
    exact Paired.update fun s s' h => ⟨h.cell, h.threshold, h.dedupSet, h.window, h.bounded, h.lone⟩
  refine Paired.ite (.pure _) (.bind (Paired.record ?_) ?_)
  · exact fun _ _ _ s s' h => ⟨h.cell, h.threshold, h.dedupSet, h.window, h.bounded, h.lone⟩
  intro _
  refine .bind (Paired.update fun s s' h => ⟨h.cell, h.threshold, h.dedupSet, h.window, h.bounded, h.lone⟩) ?_
  intro _
  exact .bind (hside _ _) fun _ => hside _ _

/-- The prices of all feeds are the same. -/
def SameFeeds (w w' : Work V) : Prop := w'.state.reconciliationState = w.state.reconciliationState

theorem SameFeeds.refl (w : Work V) : SameFeeds w w := rfl

theorem SameFeeds.trans (w w' w'' : Work V) (h : SameFeeds w w') (h' : SameFeeds w' w'') : SameFeeds w w'' := Eq.trans h' h

theorem SameFeeds.keepQuotes (P : Py V) (payload : Json) (instrument source : String) :
    Proc.Frame SameFeeds (Mdrap.keepQuotes P payload instrument source) := by
  have hside (f : String) (put : Quote V → V → Quote V) : Proc.Frame SameFeeds
      (keepQuotes.side P payload instrument source f put) := by
    rw [keepQuotes.side]
    split
    · exact .pure refl _
    · exact .bind trans (.lift refl _) fun _ => .modify fun _ => rfl
  rw [Mdrap.keepQuotes]
  split
  · exact .pure refl _
  · refine .bind trans (.modify fun _ => rfl) fun _ => .bind trans (.modify fun _ => rfl) fun _ => ?_
    exact .bind trans (hside _ _) fun _ => hside _ _

theorem SameFeeds.leads {α : Type} {m : StepM V α} (h : Proc.Frame SameFeeds m) (r : Dict String (Dict String (V × V))) :
    Proc.Leads (fun w => w.state.reconciliationState = r) (fun w => w.state.reconciliationState = r) m :=
  fun w hw => Eq.trans (h w) hw

/-- The prices of the feeds of an instrument when one of them has a new one. -/
def feedPrices (r : Dict String (Dict String (V × V))) (instrument source : String) (x : V × V) : List (V × V) :=
  (((setNested r instrument source x).get? instrument).getD .empty).values

/-- The state when a feed has a new price. -/
def EngineState.setFeed (s : EngineState V) (instrument source : String) (x : V × V) : EngineState V :=
  { s with reconciliationState := setNested s.reconciliationState instrument source x }

/-- What the comparison of the feeds adds to a finding. -/
def AddsComparison (x y : Finding) : Prop :=
  x = y ∨ (y.status ≠ .invalid ∧ x = ⟨y.status.merge .suspicious, y.reasons ++ [.crossFeedDisagreement], true⟩)

/-- The comparison of the feeds, after the quotes. -/
theorem stageBboAndReconciliation_eq (P : Py V) (raw : RawEvent) (f : Fields V) (p : V) {status : QualityStatus}
    (hstatus : status ≠ .invalid) (reasons : List Reason) :
    stageBboAndReconciliation P raw f (some p) status reasons = keepQuotes P raw.payload f.instrument (raw.sourceText P) >>= fun _ w =>
      let w' : Work V := ⟨w.state.setFeed f.instrument (raw.sourceText P) (p, f.exchTs),
        .recon f.instrument (raw.sourceText P) (w.state.reconciliationState.contains f.instrument)
          ((w.state.reconciliationState.get? f.instrument).bind (·.get? (raw.sourceText P))) :: w.journal, w.gaps⟩
      match disagree P f.exchTs (feedPrices w.state.reconciliationState f.instrument (raw.sourceText P) (p, f.exchTs)) with
      | .error e => (.error e, w')
      | .ok away => (.ok (if away then ⟨status.merge .suspicious, reasons ++ [.crossFeedDisagreement], true⟩
          else ⟨status, reasons, false⟩), w') := by
  rw [stageBboAndReconciliation]
  congr 1
  funext _ w
  simp only [if_neg hstatus]
  simp only [Proc.bind_apply, recordReconciliation, record, update, look, Proc.modify_apply, Proc.read_apply, Proc.lift_apply, feedPrices]
  split
  · rename_i away t heq
    rcases hd : disagree P f.exchTs (((setNested w.state.reconciliationState f.instrument (raw.sourceText P) (p, f.exchTs)).get?
      f.instrument).getD .empty).values with _ | away'
    · rw [hd] at heq
      cases heq
    · rw [hd] at heq
      cases heq
      cases away <;> rfl
  · rename_i e t heq
    rcases hd : disagree P f.exchTs (((setNested w.state.reconciliationState f.instrument (raw.sourceText P) (p, f.exchTs)).get?
      f.instrument).getD .empty).values with _ | away'
    · rw [hd] at heq
      cases heq
      rfl
    · rw [hd] at heq
      cases heq

theorem merge_suspicious_ne {status : QualityStatus} (h : status ≠ .invalid) : status.merge .suspicious ≠ .invalid := by
  revert h
  cases status <;> decide

theorem own_feeds {raw : RawEvent} {f : Fields V} (hown : raw.sourceText P = source ∧ f.instrument = instrument)
    (r : Dict String (Dict String (V × V))) (price : Option V) (status : QualityStatus) (reasons : List Reason)
    (hfeeds : ∀ p, price = some p → ∃ away, disagree P f.exchTs (feedPrices r instrument source (p, f.exchTs)) = .ok away) :
    Proc.SimTo (fun w w' => WithinStep P source instrument n b b' w w' ∧ w.state.reconciliationState = r)
      (WithinStep P source instrument n b b') (fun x y => AddsComparison x y ∧ y.flagged = false)
      (stageBboAndReconciliation P raw f price status reasons) (stageBboAndReconciliation P raw f price status reasons) := by
  obtain ⟨rfl, rfl⟩ := hown
  have hquotes : Proc.SimTo (fun w w' => WithinStep P (raw.sourceText P) f.instrument n b b' w w' ∧ w.state.reconciliationState = r)
      (fun w w' => WithinStep P (raw.sourceText P) f.instrument n b b' w w' ∧ w.state.reconciliationState = r) Eq
      (keepQuotes P raw.payload f.instrument (raw.sourceText P)) (keepQuotes P raw.payload f.instrument (raw.sourceText P)) :=
    (own_keepQuotes _ _ _).simTo.and_leads (SameFeeds.leads (SameFeeds.keepQuotes P _ _ _) r)
  have hnothing : Proc.SimTo (fun w w' => WithinStep P (raw.sourceText P) f.instrument n b b' w w' ∧ w.state.reconciliationState = r)
      (WithinStep P (raw.sourceText P) f.instrument n b b') (fun x y => AddsComparison x y ∧ y.flagged = false)
      (Pure.pure ⟨status, reasons, false⟩ : StepM V Finding) (Pure.pure ⟨status, reasons, false⟩) :=
    .mono (.pure ⟨Or.inl rfl, rfl⟩) (fun _ _ h => h.1) fun _ _ h => h
  cases price with
  | none =>
    refine .bind hquotes (fun _ _ h => h.1) ?_
    rintro _ _ -
    exact hnothing
  | some p =>
    by_cases hstatus : status = .invalid
    · refine .bind hquotes (fun _ _ h => h.1) ?_
      rintro _ _ -
      simp only [if_pos hstatus]
      exact hnothing
    · rw [stageBboAndReconciliation_eq P raw f p hstatus]
      refine .bind hquotes (fun _ _ h => h.1) ?_
      rintro _ _ - w w' ⟨hwithin, rfl⟩
      obtain ⟨away, haway⟩ := hfeeds p rfl
      have hM := hwithin.state
      -- in the mirror the source is alone, and there is nothing to compare
      have hlone := hM.lone.setNested (p, f.exchTs)
      have halone : disagree P f.exchTs (feedPrices w'.state.reconciliationState f.instrument (raw.sourceText P) (p, f.exchTs)) =
          .ok false := by
        have hlen : (feedPrices w'.state.reconciliationState f.instrument (raw.sourceText P) (p, f.exchTs)).length ≤ 1 := by
          rw [feedPrices]
          rcases hget : (setNested w'.state.reconciliationState f.instrument (raw.sourceText P) (p, f.exchTs)).get? f.instrument with _ | d
          · simp [Dict.values, Dict.empty]
          · simpa [Dict.values] using (hlone d hget).1
        rw [disagree, if_neg (by omega)]
      simp only [haway, halone]
      refine ⟨?_, ?_⟩
      · cases away with
        | false => exact ⟨Or.inl rfl, rfl⟩
        | true => exact ⟨Or.inr ⟨hstatus, rfl⟩, rfl⟩
      · have hM' : Mirrors (raw.sourceText P) f.instrument (w.state.setFeed f.instrument (raw.sourceText P) (p, f.exchTs))
            (w'.state.setFeed f.instrument (raw.sourceText P) (p, f.exchTs)) :=
          ⟨hM.cell, hM.threshold, hM.dedupSet, hM.window, hM.bounded, hlone⟩
        refine hwithin.extend hM' ?_
        intro s s' hs
        exact ⟨hs.cell, hs.threshold, hs.dedupSet, hs.window, hs.bounded, hs.lone.undoNested _ _⟩

/-- What the stages of a step rely on beside the stream itself: the window, where the event has no sequence number, and the prices of
the feeds. -/
def Prepared (source instrument : String) (needsWindow : Prop) (r : Dict String (Dict String (V × V))) (w : Work V) : Prop :=
  (needsWindow → w.state.KeepsWindow source instrument) ∧ w.state.reconciliationState = r

theorem Prepared.leads {α : Type} {m : StepM V α} (h : Proc.Frame SameRest m) (needsWindow : Prop)
    (r : Dict String (Dict String (V × V))) :
    Proc.Leads (Prepared source instrument needsWindow r) (Prepared source instrument needsWindow r) m := by
  rintro w ⟨hwindow, hfeeds⟩
  refine ⟨fun hneeds => ?_, (congrArg Rest.reconciliationState (h w)).trans hfeeds⟩
  rw [EngineState.KeepsWindow, show (m w).2.state.dedupWindow = w.state.dedupWindow from congrArg Rest.dedupWindow (h w)]
  exact hwindow hneeds

theorem SameFeeds.of_rest {α : Type} {m : StepM V α} (h : Proc.Frame SameRest m) : Proc.Frame SameFeeds m :=
  fun w => congrArg Rest.reconciliationState (h w)

theorem SameFeeds.stageDedup (P : Py V) (raw : RawEvent) (f : Fields V) (status : QualityStatus) (reasons : List Reason) :
    Proc.Frame SameFeeds (Mdrap.stageDedup P raw f status reasons) := by
  intro w
  rcases hknown : w.state.dedupSet.any (Fingerprint.same P (fingerprint P raw f)) with _ | _
  · rw [stageDedup_new hknown]
    rfl
  · rw [stageDedup_known hknown]
    rfl

theorem own_stageSequenceAndDedup {raw : RawEvent} {f : Fields V}
    (hown : raw.sourceText P = source ∧ f.instrument = instrument) (recvTs : Json) {e : Epoch}
    (hslot : streamKeys source instrument e.slot) (hstream : streamKeys source instrument e.stream) (isReplay : Bool)
    (status : QualityStatus) (reasons : List Reason) (r : Dict String (Dict String (V × V))) :
    Proc.SimTo (fun w w' => BeforeGaps P source instrument n b b' w w' ∧ Prepared source instrument (f.seq = none) r w)
      (fun w w' => WithinStep P source instrument n b b' w w' ∧ w.state.reconciliationState = r) Eq
      (stageSequenceAndDedup P raw f recvTs e isReplay status reasons)
      (stageSequenceAndDedup P raw f recvTs e isReplay status reasons) := by
  rw [stageSequenceAndDedup]
  split
  · rename_i seq hseq
    rw [hown.2]
    refine .mono ((own_stageSequence hown.1 seq recvTs hslot hstream isReplay status reasons).and_leads
      (SameFeeds.leads (SameFeeds.of_rest (SameRest.stageSequence P raw instrument seq recvTs e isReplay status reasons)) r))
      (fun _ _ h => ⟨h.1, h.2.2⟩) fun _ _ h => h
  · rename_i hseq
    exact .mono ((own_stageDedup hown status reasons).and_leads
      (SameFeeds.leads (SameFeeds.stageDedup P raw f status reasons) r))
      (fun _ _ h => ⟨⟨h.1, h.2.1 hseq⟩, h.2.2⟩) fun _ _ h => h

/-- What the stages find, alike but for the comparison with other feeds. -/
structure FoundAlike (x y : Epoch × QualityStatus × List Reason × Bool × Bool) : Prop where
  epoch : x.1 = y.1
  invalid : x.2.1 = .invalid ↔ y.2.1 = .invalid
  reasons : x.2.2.1.filter (· ≠ .crossFeedDisagreement) = y.2.2.1.filter (· ≠ .crossFeedDisagreement)
  duplicate : x.2.2.2.1 = y.2.2.2.1

theorem own_runStages {c : StepConfig V} {raw : RawEvent} {f : Fields V}
    (hown : raw.sourceText c.py = source ∧ f.instrument = instrument) (recvTs : Json) (isReplay : Bool)
    (r : Dict String (Dict String (V × V)))
    (hfeeds : ∀ p, fieldValue c.py raw.payload "price" = some p →
      ∃ away, disagree c.py f.exchTs (feedPrices r instrument source (p, f.exchTs)) = .ok away) :
    Proc.SimTo (fun w w' => BeforeGaps c.py source instrument n b b' w w' ∧ Prepared source instrument (f.seq = none) r w)
      (WithinStep c.py source instrument n b b') FoundAlike (runStages c raw f recvTs isReplay) (runStages c raw f recvTs isReplay) := by
  have hkeys : OnKeys c.py (streamKeys source instrument) (stageSessionAndEpoch c.py c.sessionPolicy raw f) := by
    refine .stageSessionAndEpoch _ _ _ ?_
    rw [hown.1, hown.2]
    exact fun n => ⟨n, rfl⟩
  have hrest : Proc.Frame SameRest (stageSessionAndEpoch c.py c.sessionPolicy raw f) :=
    SameRest.onKeys (.stageSessionAndEpoch c.sessionPolicy raw f fun _ => trivial)
  refine .bind (((BeforeGaps.onKeys hkeys).simTo.and_leads (Prepared.leads hrest (f.seq = none) r)).and_returns
    (stageSessionAndEpoch_keys c.py c.sessionPolicy raw f)) (fun w w' h => BeforeGaps.within w w' h.1) ?_
  rintro e _ ⟨rfl, hslot, hstream⟩
  rw [hown.1, hown.2] at hslot hstream
  refine .bind (own_stageSequenceAndDedup hown recvTs hslot hstream isReplay _ _ r) (fun _ _ h => h.1) ?_
  rintro order _ rfl
  have hlook : Proc.Sim (WithinStep c.py source instrument n b b') (look EngineState.stalenessThresholdS)
      (look EngineState.stalenessThresholdS) := Paired.look fun _ _ h => h.threshold
  refine .bind (hlook.simTo.and_leads (SameFeeds.leads (.read SameFeeds.refl _) r)) (fun _ _ h => h.1) ?_
  rintro threshold _ rfl
  refine .bind (Proc.Sim.simTo (.lift _)) (fun _ _ h => h.1) ?_
  rintro ⟨status, reasons⟩ _ rfl
  refine .bind ((WithinStep.onKeys (.stagePriceCorridor hslot _ _ _)).simTo.and_leads (SameFeeds.leads
    (SameFeeds.of_rest (SameRest.onKeys (P := c.py) (.stagePriceCorridor trivial _ _ _))) r)) (fun _ _ h => h.1) ?_
  rintro ⟨status, reasons⟩ _ rfl
  refine .bind (own_feeds hown r _ status reasons hfeeds) (fun _ _ h => h) ?_
  rintro x y ⟨hadds, -⟩
  refine .pure ⟨rfl, ?_, ?_, rfl⟩
  · rcases hadds with rfl | ⟨hvalid, rfl⟩
    · exact Iff.rfl
    · exact iff_of_false (merge_suspicious_ne hvalid) hvalid
  · rcases hadds with rfl | ⟨-, rfl⟩
    · rfl
    · simp

/-- The checks of the fields in two engines, which know the event by different offsets. -/
inductive CheckedAlike : Except (EngineDecision V) (Fields V) → Except (EngineDecision V) (Fields V) → Prop
  | passed (f : Fields V) : CheckedAlike (.ok f) (.ok f)
  | failed {d d' : EngineDecision V} (h : d.streamOutcome = d'.streamOutcome) : CheckedAlike (.error d) (.error d')

theorem stageSchemaValidation_alike (P : Py V) (raw : RawEvent) (offset offset' : Int) (recvTs : Json) :
    Proc.Matches CheckedAlike (stageSchemaValidation P raw offset recvTs) (stageSchemaValidation P raw offset' recvTs) := by
  simp only [stageSchemaValidation]
  repeat' split
  all_goals try exact .failed rfl
  all_goals
    simp only [bind, Except.bind]
    split
    · trivial
    · exact .passed _

theorem stageSecurityEnvelope_alike (P : Py V) (security : Option Security) (raw : RawEvent) (offset offset' : Int) (recvTs : Json) :
    Proc.Matches (Option.Rel (fun d d' : EngineDecision V => d.streamOutcome = d'.streamOutcome))
      (stageSecurityEnvelope P security raw offset recvTs) (stageSecurityEnvelope P security raw offset' recvTs) := by
  cases security with
  | none => exact .none
  | some security =>
    simp only [stageSecurityEnvelope]
    rcases security.sanitizePayload raw.payload with exc | (_ | err)
    · trivial
    · rcases security.hmacRequired raw.source with exc | required
      · trivial
      · simp only [bind, Except.bind, pure, Except.pure]
        split
        · split
          · rcases security.verifyPayload raw.source raw.payload (raw.payload.get "signature") with exc | good
            · trivial
            · cases good
              · exact .some rfl
              · exact .none
          · exact .some rfl
        · exact .none
    · exact .some rfl

theorem stageChecks_alike (c : StepConfig V) (raw : RawEvent) (offset offset' : Int) (recvTs : Json) :
    Proc.Matches CheckedAlike (stageChecks c raw offset recvTs) (stageChecks c raw offset' recvTs) := by
  have hsecurity := stageSecurityEnvelope_alike c.py c.security raw offset offset' recvTs
  rw [stageChecks, stageChecks]
  rcases hone : stageSecurityEnvelope c.py c.security raw offset recvTs with exc | x
  · rcases htwo : stageSecurityEnvelope c.py c.security raw offset' recvTs with exc' | y
    · rwa [hone, htwo] at hsecurity
    · rw [hone, htwo] at hsecurity
      exact hsecurity.elim
  · rcases htwo : stageSecurityEnvelope c.py c.security raw offset' recvTs with exc' | y
    · rw [hone, htwo] at hsecurity
      exact hsecurity.elim
    · rw [hone, htwo] at hsecurity
      cases hsecurity with
      | some h => exact .failed h
      | none => exact stageSchemaValidation_alike c.py raw offset offset' recvTs

theorem package_alike (P : Py V) (raw : RawEvent) (f : Fields V) (offset offset' : Int) (recvTs now : Json)
    {x y : Epoch × QualityStatus × List Reason × Bool × Bool} (h : FoundAlike x y) :
    Proc.Matches (fun d d' : EngineDecision V => d.streamOutcome = d'.streamOutcome) (package P raw f offset recvTs now x)
      (package P raw f offset' recvTs now y) := by
  obtain ⟨e, status, reasons, isDuplicate, disagreement⟩ := x
  obtain ⟨e', status', reasons', isDuplicate', disagreement'⟩ := y
  obtain ⟨rfl, hinvalid, hreasons, rfl⟩ := h
  simp only [package]
  by_cases hstatus : status = .invalid
  · rw [if_pos hstatus, if_pos (hinvalid.mp hstatus)]
    simp only [Proc.Matches, EngineDecision.streamOutcome, hreasons]
  · rw [if_neg hstatus, if_neg (fun h => hstatus (hinvalid.mpr h))]
    rcases P.float recvTs with _ | receive
    · trivial
    · rcases P.float now with _ | processing
      · trivial
      · simp only [Proc.Matches, bind, Except.bind, pure, Except.pure, EngineDecision.streamOutcome, hreasons]
        rfl

theorem own_recordEventCount {G} :
    Proc.Sim (Paired P (Mirrors source instrument) G b b') recordEventCount recordEventCount := by
  have hcounter (a a' : EngineState V → UndoAction V)
      (h : ∀ s s' t t', Mirrors source instrument t t' → Mirrors source instrument ((a s).undo P t) ((a' s').undo P t')) :
      Proc.Sim (Paired P (Mirrors source instrument) G b b') (record a) (record a') :=
    Paired.record fun s s' _ t t' ht => h s s' t t' ht
  refine .bind (hcounter _ _ fun _ _ t t' ht => ⟨ht.cell, ht.threshold, ht.dedupSet, ht.window, ht.bounded, ht.lone⟩) fun _ => ?_
  refine .bind (hcounter _ _ fun _ _ t t' ht => ⟨ht.cell, ht.threshold, ht.dedupSet, ht.window, ht.bounded, ht.lone⟩) fun _ => ?_
  exact hcounter _ _ fun _ _ t t' ht => ⟨ht.cell, ht.threshold, ht.dedupSet, ht.window, ht.bounded, ht.lone⟩

theorem own_bumpCount (status status' : QualityStatus) :
    Proc.Sim (WithinStep P source instrument n b b') (bumpCount status) (bumpCount status') := by
  refine .bind (Paired.record fun _ _ _ t t' ht => ⟨ht.cell, ht.threshold, ht.dedupSet, ht.window, ht.bounded, ht.lone⟩) fun _ => ?_
  exact Paired.update fun t t' ht => ⟨ht.cell, ht.threshold, ht.dedupSet, ht.window, ht.bounded, ht.lone⟩

theorem own_judge {c : StepConfig V} {raw : RawEvent} (hsource : raw.sourceText c.py = source)
    (hinstrument : raw.payload.get "instrument" = .str instrument) (now : Json) (offset offset' : Int) (isReplay : Bool)
    (r : Dict String (Dict String (V × V)))
    (hfeeds : ∀ f, stageSchemaValidation c.py raw offset (raw.recvTs now) = .ok (.ok f) →
      ∀ p, fieldValue c.py raw.payload "price" = some p →
        ∃ away, disagree c.py f.exchTs (feedPrices r instrument source (p, f.exchTs)) = .ok away) :
    Proc.SimTo (fun w w' => BeforeGaps c.py source instrument n b b' w w' ∧
        Prepared source instrument (raw.payload.get "sequence" = .null) r w)
      (WithinStep c.py source instrument n b b') (fun d d' => d.streamOutcome = d'.streamOutcome)
      (judge c raw now offset isReplay) (judge c raw now offset' isReplay) := by
  have hbump {d d' : EngineDecision V} (hd : d.streamOutcome = d'.streamOutcome) :
      Proc.SimTo (fun w w' => BeforeGaps c.py source instrument n b b' w w' ∧
          Prepared source instrument (raw.payload.get "sequence" = .null) r w)
        (WithinStep c.py source instrument n b b') (fun d d' => d.streamOutcome = d'.streamOutcome)
        (bumpCount .invalid >>= fun _ => pure d) (bumpCount .invalid >>= fun _ => pure d') :=
    .mono (.bind (own_bumpCount _ _).simTo (fun _ _ h => h) fun _ _ _ => .pure hd)
      (fun w w' h => BeforeGaps.within w w' h.1) fun _ _ h => h
  rw [judge, judge]
  split
  · have hchecked := (Proc.SimTo.lift (R := fun w w' => BeforeGaps c.py source instrument n b b' w w' ∧
        Prepared source instrument (raw.payload.get "sequence" = .null) r w)
      (stageChecks_alike c raw offset offset' (raw.recvTs now))).and_returns (.lift fun _ h => h)
    refine .bind hchecked (fun w w' h => BeforeGaps.within w w' h.1) ?_
    rintro _ _ ⟨halike, hx⟩
    cases halike with
    | failed hd => exact hbump hd
    | passed f =>
      have hf : f.instrument = instrument := by
        have hname := (of_validated (stageChecks_passed hx).2).1
        rw [hinstrument] at hname
        exact (Json.str.inj hname).symm
      refine .bind (.mono (own_runStages ⟨hsource, hf⟩ (raw.recvTs now) isReplay r (hfeeds f (stageChecks_passed hx).2)) ?_ fun _ _ h => h)
        (fun _ _ h => h) ?_
      · rintro w w' ⟨hbefore, hwindow, hr⟩
        exact ⟨hbefore, fun hseq => hwindow (seqOf_eq_none (hseq ▸ (of_validated (stageChecks_passed hx).2).2)), hr⟩
      intro x y hxy
      refine .bind (own_bumpCount _ _).simTo (fun _ _ h => h) ?_
      rintro _ _ -
      exact .lift (package_alike c.py raw f offset offset' _ now hxy)
  · exact hbump rfl

theorem own_countUnhandled (m m' : Nat) :
    Proc.Sim (WithinStep P source instrument n b b') (countUnhandled m) (countUnhandled m') := by
  refine .bind own_recordEventCount fun _ => .bind (Paired.record ?_) fun _ => Paired.update ?_
  · exact fun _ _ _ t t' ht => ⟨ht.cell, ht.threshold, ht.dedupSet, ht.window, ht.bounded, ht.lone⟩
  · exact fun t t' ht => ⟨ht.cell, ht.threshold, ht.dedupSet, ht.window, ht.bounded, ht.lone⟩

/-- A step on an event of the stream comes to the same in both engines, as far as the stream goes. -/
theorem own_step {c : StepConfig V} {raw : RawEvent} (hsource : raw.sourceText c.py = source)
    (hinstrument : raw.payload.get "instrument" = .str instrument) (now : Json) (offset offset' : Option Int) (isReplay : Bool)
    {w w' : Work V} (hM : Mirrors source instrument w.state w'.state)
    (hgaps : Option.Rel (fun g g' => g.unrecoverableCount = n ∧ g.Shows source instrument g') w.gaps w'.gaps)
    (hwindow : raw.payload.get "sequence" = .null → w.state.KeepsWindow source instrument)
    (hfeeds : ∀ o f, stageSchemaValidation c.py raw o (raw.recvTs now) = .ok (.ok f) →
      ∀ p, fieldValue c.py raw.payload "price" = some p →
        ∃ away, disagree c.py f.exchTs (feedPrices w.state.reconciliationState instrument source (p, f.exchTs)) = .ok away) :
    (step c raw now offset isReplay w).1.streamOutcome = (step c raw now offset' isReplay w').1.streamOutcome ∧
      Mirrors source instrument (step c raw now offset isReplay w).2.state (step c raw now offset' isReplay w').2.state ∧
      Option.Rel (GapManager.ShowsAt source instrument n) (step c raw now offset isReplay w).2.gaps
        (step c raw now offset' isReplay w').2.gaps := by
  have hbegun : BeforeGaps c.py source instrument n w.journal w'.journal (w.begun (offset.getD w.state.eventCount))
      (w'.begun (offset'.getD w'.state.eventCount)) := by
    have hcounted := (own_recordEventCount (P := c.py) w w' (.start hM hgaps)).2
    have hM' := hcounted.state
    exact ⟨⟨hM'.cell, hM'.threshold, hM'.dedupSet, hM'.window, hM'.bounded, hM'.lone⟩, hcounted.gaps, hcounted.journal⟩
  obtain ⟨hmatch, hwithin⟩ := own_judge hsource hinstrument now (offset.getD w.state.eventCount) (offset'.getD w'.state.eventCount)
    isReplay w.state.reconciliationState (hfeeds _) _ _ ⟨hbegun, hwindow, rfl⟩
  rw [← stepInternal_eq, ← stepInternal_eq] at hmatch hwithin
  simp only [step]
  rcases hres : stepInternal c raw now (offset.getD w.state.eventCount) isReplay w with ⟨err | d, v⟩
  · rcases hres' : stepInternal c raw now (offset'.getD w'.state.eventCount) isReplay w' with ⟨err' | d', v'⟩
    · rw [hres, hres'] at hwithin
      obtain ⟨-, hcounted⟩ := own_countUnhandled (w.state.eventCount + 1) (w'.state.eventCount + 1) _ _ hwithin.rollback
      exact ⟨rfl, hcounted.state, hcounted.gaps⟩
    · rw [hres, hres'] at hmatch
      exact hmatch.elim
  · rcases hres' : stepInternal c raw now (offset'.getD w'.state.eventCount) isReplay w' with ⟨err' | d', v'⟩
    · rw [hres, hres'] at hmatch
      exact hmatch.elim
    · rw [hres, hres'] at hmatch hwithin
      exact ⟨hmatch, hwithin.state, hwithin.gaps⟩

end Own

end Mdrap
