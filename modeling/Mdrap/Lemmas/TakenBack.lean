import Mdrap.Engine.Replay
import Mdrap.Lemmas.Journaled

/-!
# What a step takes back

The stages that look at prices, the window of fingerprints and the counts, and with them the whole step: what it has written into
the journal takes the state back to where it began, but for the lists of old numbers (`Logged.step`). The window of fingerprints is
sound in every state that an engine comes to (`EngineState.Reached.deduped`).
-/

namespace Mdrap

open Lib

variable {V : Type} {P : Py V}

namespace Logged

/-! ## Fingerprints -/

theorem stageDedup (hP : P.EqLaws) (raw : RawEvent) (f : Fields V) (status : QualityStatus) (reasons : List Reason) :
    Proc.Frame (Logged P) (Mdrap.stageDedup P raw f status reasons) := by
  intro w
  cases hx : w.state.dedupSet.any (Fingerprint.same P (fingerprint P raw f)) with
  | true =>
    rw [stageDedup_known hx]
    exact refl w
  | false =>
    rw [stageDedup_new hx]
    intro hw
    obtain ⟨hwindow, hset⟩ := hw.undo_push hP hx
    refine ⟨hw.push hP hx, [.dedup (fingerprint P raw f) (w.state.evicted (fingerprint P raw f))], rfl, ?_⟩
    have hrest : ∀ ev, ((UndoAction.dedup (fingerprint P raw f) ev).undo P (w.state.push P (fingerprint P raw f))) =
        { w.state with
          dedupWindow := ((UndoAction.dedup (fingerprint P raw f) ev).undo P (w.state.push P (fingerprint P raw f))).dedupWindow
          dedupSet := ((UndoAction.dedup (fingerprint P raw f) ev).undo P (w.state.push P (fingerprint P raw f))).dedupSet } := by
      intro ev
      cases ev <;> rfl
    rw [TakesBack, undoAll_cons, undoAll_nil, hrest]
    exact { Restored.refl (P := P) w.state with dedupWindow := hwindow, dedupSet := hset }

theorem stageSequenceAndDedup (hP : P.EqLaws) (raw : RawEvent) (f : Fields V) (recvTs : Json) (e : Epoch) (isReplay : Bool)
    (status : QualityStatus) (reasons : List Reason) :
    Proc.Frame (Logged P) (Mdrap.stageSequenceAndDedup P raw f recvTs e isReplay status reasons) := by
  unfold Mdrap.stageSequenceAndDedup
  split
  · exact stageSequence e _ hP _ _ _ _ _ _
  · exact stageDedup hP _ _ _ _

/-! ## Prices -/

section Prices

variable {w₀ : Work V} {slot : String}

/-- The prices of a slot are in the journal. -/
def priceMask (slot : String) : Mask := Mask.start.add slot [.prices, .anom, .stats]

theorem priceUpdate {f : EngineState V → EngineState V} (hother : ∀ s j, j ≠ slot → (f s).cell j = s.cell j)
    (hkeep : ∀ s p, p ∉ [Part.prices, .anom, .stats] → p.Agree ((f s).cell slot) (s.cell slot)) (hrest : ∀ s, (f s).rest = s.rest) :
    Proc.Leads (Journaled w₀ (priceMask slot)) (Journaled w₀ (priceMask slot)) (update f) :=
  (Journaled.update slot _ (fun _ hp => .inr ⟨rfl, hp⟩) hother hkeep hrest).leads

theorem priceLift {α : Type} (x : Except PyError α) :
    Proc.Leads (Journaled w₀ (priceMask slot)) (Journaled w₀ (priceMask slot)) (Proc.lift x : StepM V α) := fun _ h => h

theorem pricePure {α : Type} (a : α) :
    Proc.Leads (Journaled w₀ (priceMask slot)) (Journaled w₀ (priceMask slot)) (Pure.pure a : StepM V α) := fun _ h => h

theorem priceStatsUpdate (stats : V × V × Nat) : Proc.Leads (Journaled w₀ (priceMask slot)) (Journaled w₀ (priceMask slot))
    (update (fun s => { s with priceStats := s.priceStats.set slot stats })) := by
  refine priceUpdate ?_ ?_ fun s => rfl
  · exact fun s j hj => by simp [EngineState.cell, Dict.get?_set_ne _ hj]
  · exact fun s p hp => by cases p <;> first | rfl | simp at hp

theorem seedStats (prices : List V) :
    Proc.Leads (Journaled w₀ (priceMask slot)) (Journaled w₀ (priceMask slot)) (Mdrap.seedStats P slot prices) := by
  refine Proc.Leads.read_bind ?_
  intro stats
  cases stats with
  | some stats => exact pricePure _
  | none =>
    exact .ite (.seq (priceLift _) fun mean => .seq (priceLift _) fun m2 => .seq (priceStatsUpdate _) fun _ => pricePure _)
      (pricePure _)

theorem priceOutlier (price : V) (effStd : Option V) :
    Proc.Leads (Journaled w₀ (priceMask slot)) (Journaled w₀ (priceMask slot)) (Mdrap.priceOutlier P slot price effStd) := by
  refine Proc.Leads.read_bind ?_
  rintro ⟨cnt, last⟩
  refine .seq (priceLift _) fun twentieth => .seq (priceLift _) fun band => .seq (priceLift _) fun d => .ite ?_ ?_
  · refine priceUpdate ?_ ?_ fun s => rfl
    · exact fun s j hj => by simp [EngineState.cell, Dict.get?_set_ne _ hj]
    · exact fun s p hp => by cases p <;> first | rfl | simp at hp
  · refine priceUpdate ?_ ?_ fun s => rfl
    · exact fun s j hj => by simp [EngineState.cell, Dict.get?_set_ne _ hj]
    · exact fun s p hp => by cases p <;> first | rfl | simp at hp

theorem setStats (x : Except PyError (V × V × Nat)) :
    Proc.Leads (Journaled w₀ (priceMask slot)) (Journaled w₀ (priceMask slot)) (priceFold.setStats slot x) :=
  .seq (priceLift _) fun _ => priceStatsUpdate _

theorem priceWindowsUpdate (prices : List V) : Proc.Leads (Journaled w₀ (priceMask slot)) (Journaled w₀ (priceMask slot))
    (update (fun s => { s with priceWindows := s.priceWindows.set slot prices })) := by
  refine priceUpdate ?_ ?_ fun s => rfl
  · exact fun s j hj => by simp [EngineState.cell, Dict.get?_set_ne _ hj]
  · exact fun s p hp => by cases p <;> first | rfl | simp at hp

theorem grow (prices : List V) (stats : Option (V × V × Nat)) (price : V) :
    Proc.Leads (Journaled w₀ (priceMask slot)) (Journaled w₀ (priceMask slot)) (priceFold.grow P slot prices stats price) := by
  refine .seq (priceWindowsUpdate _) fun _ => ?_
  cases stats with
  | some stats => exact setStats _
  | none => exact .ite (setStats _) (pricePure _)

theorem priceFold (prices : List V) (stats : Option (V × V × Nat)) (price : V) :
    Proc.Leads (Journaled w₀ (priceMask slot)) (Journaled w₀ (priceMask slot)) (Mdrap.priceFold P slot prices stats price) := by
  refine .seq ?_ fun _ => ?_
  · refine priceUpdate ?_ ?_ fun s => rfl
    · exact fun s j hj => by simp [EngineState.cell, Dict.get?_set_ne _ hj]
    · exact fun s p hp => by cases p <;> first | rfl | simp at hp
  cases prices with
  | nil => exact grow _ _ _
  | cons old rest =>
    refine .ite (.seq (priceWindowsUpdate _) fun _ => ?_) (grow _ _ _)
    cases stats with
    | some stats => exact setStats _
    | none => exact pricePure _

end Prices

theorem stagePriceCorridor (slot : String) (price : Option V) (status : QualityStatus) (reasons : List Reason) :
    Proc.Frame (Logged P) (Mdrap.stagePriceCorridor P slot price status reasons) := by
  cases price with
  | none => exact pure _
  | some price =>
    refine ite (pure _) ?_
    refine Journaled.frame fun w₀ => (Journaled.recordPriceWindow slot).leads_bind fun _ => @Journaled.done _ _ _ _ (priceMask slot) _ _ ?_
    refine .seq (m := update _) ?_ fun _ => .read_bind fun prices => .seq (seedStats prices) fun stats => ?_
    · refine priceUpdate ?_ ?_ fun s => rfl
      · exact fun s j hj => by simp [EngineState.cell, Dict.get?_set_ne _ hj]
      · exact fun s p hp => by cases p <;> first | rfl | simp at hp
    refine .seq (priceLift _) ?_
    rintro ⟨anomaly, effStd⟩
    exact .ite (.seq (priceOutlier _ _) fun _ => pricePure _) (.seq (priceFold _ _ _) fun _ => pricePure _)

end Logged

/-! ## Nested dictionaries -/

/-- One nested dictionary is the other with something else, or more, in one place. -/
def MovedAt {α : Type} (outer inner : String) (d d' : Dict String (Dict String α)) : Prop :=
  (∀ i, i ≠ outer → d'.get? i = d.get? i) ∧
    ∃ e, d'.get? outer = some e ∧ ∀ j, j ≠ inner → e.get? j = ((d.get? outer).getD .empty).get? j

section Nested

variable {α : Type} {outer inner : String} {d d' : Dict String (Dict String α)}

theorem movedAt_setNested (d : Dict String (Dict String α)) (outer inner : String) (v : α) :
    MovedAt outer inner d (setNested d outer inner v) :=
  ⟨fun _ hi => Dict.get?_set_ne _ hi _, _, Dict.get?_set_self _ _ _, fun _ hj => Dict.get?_set_ne _ hj _⟩

theorem MovedAt.setNested (h : MovedAt outer inner d d') (v : α) : MovedAt outer inner d (setNested d' outer inner v) := by
  obtain ⟨hother, e, he, hinner⟩ := h
  refine ⟨fun i hi => (Dict.get?_set_ne _ hi _).trans (hother i hi), _, Dict.get?_set_self _ _ _, ?_⟩
  intro j hj
  rw [he, Option.getD_some, Dict.get?_set_ne _ hj, hinner j hj]

/-- The entry for the place gives back what was there. -/
theorem MovedAt.undo (h : MovedAt outer inner d d') (i : String) :
    entries (undoNested d' outer inner (d.contains outer) ((d.get? outer).bind (·.get? inner))) i = entries d i := by
  obtain ⟨hother, e, he, hinner⟩ := h
  unfold undoNested
  rcases hd : d.get? outer with _ | b
  · have hcontains : d.contains outer = false := by simp [Dict.contains, hd]
    simp only [hcontains, Bool.false_eq_true, if_false, entries, Dict.get?_erase]
    rcases eq_or_ne i outer with rfl | hi
    · rw [if_pos rfl, hd]
    · rw [if_neg hi, hother i hi]
  · have hcontains : d.contains outer = true := by simp [Dict.contains, hd]
    simp only [hcontains, if_true, he, entries]
    rcases eq_or_ne i outer with rfl | hi
    · rw [Dict.get?_set_self, hd, Option.map_some, Option.map_some, Option.some_inj]
      funext j
      rw [Dict.get?_restore]
      rcases eq_or_ne j inner with rfl | hj
      · rw [if_pos rfl]
        rfl
      · rw [if_neg hj, hinner j hj, hd, Option.getD_some]
    · rw [Dict.get?_set_ne _ hi, hother i hi]

end Nested

/-- The quote of a source is in the journal, and nothing but it has changed. -/
def QuoteMoved (instrument source : String) (w w' : Work V) : Prop :=
  w'.journal = .bbo instrument source (w.state.bboState.contains instrument)
      ((w.state.bboState.get? instrument).bind (·.get? source)) :: w.journal ∧
    ∃ d, w'.state = { w.state with bboState := d } ∧ MovedAt instrument source w.state.bboState d

namespace QuoteMoved

variable {instrument source : String} {w : Work V}

theorem logged {w' : Work V} (h : QuoteMoved instrument source w w') : Logged P w w' := by
  intro hw
  obtain ⟨hjournal, d, hstate, hmoved⟩ := h
  rw [hstate]
  exact ⟨⟨hw.known, hw.single, hw.bounded⟩, [_], hjournal, { Restored.refl (P := P) w.state with bboState := hmoved.undo }⟩

theorem begin (q : EngineState V → Quote V) : Proc.Ensures (fun v => v = w) (QuoteMoved instrument source w)
    (recordBbo instrument source >>= fun _ =>
      update (fun s => { s with bboState := setNested s.bboState instrument source (q s) }) : StepM V Unit) := by
  rintro _ rfl
  exact ⟨⟨(), rfl⟩, rfl, _, rfl, movedAt_setNested _ _ _ _⟩

theorem side (payload : Json) (f : String) (put : Quote V → V → Quote V) :
    Proc.Leads (QuoteMoved instrument source w) (QuoteMoved instrument source w)
      (keepQuotes.side P payload instrument source f put) := by
  refine .ite (fun _ h => h) (.seq (fun _ h => h) fun x => ?_)
  rintro v ⟨hjournal, d, hstate, hmoved⟩
  refine ⟨hjournal, _, ?_, hmoved.setNested (put (quoteOf v.state instrument source) x)⟩
  simp [update, hstate]

end QuoteMoved

namespace Logged

theorem keepQuotes (payload : Json) (instrument source : String) :
    Proc.Frame (Logged P) (Mdrap.keepQuotes P payload instrument source) := by
  refine ite (pure _) fun w => ?_
  have hall : Proc.Leads (fun v => v = w) (QuoteMoved instrument source w) _ :=
    (QuoteMoved.begin fun s => quoteOf s instrument source).leads_bind fun _ =>
      .seq (QuoteMoved.side (P := P) payload "bid" fun q x => { q with bid := some x }) fun _ =>
        QuoteMoved.side (P := P) payload "ask" fun q x => { q with ask := some x }
  exact (hall w rfl).logged

/-- The price of a feed. -/
theorem notePrice (instrument source : String) (price exchTs : V) (w : Work V) :
    Logged P w (Mdrap.update (fun s => { s with
      reconciliationState := setNested s.reconciliationState instrument source (price, exchTs) })
        (recordReconciliation instrument source w).2).2 := by
  intro hw
  exact ⟨⟨hw.known, hw.single, hw.bounded⟩, [_], rfl,
    { Restored.refl (P := P) w.state with reconciliationState := (movedAt_setNested _ _ _ _).undo }⟩

theorem stageBboAndReconciliation (hP : P.EqLaws) (raw : RawEvent) (f : Fields V) (price : Option V) (status : QualityStatus)
    (reasons : List Reason) : Proc.Frame (Logged P) (Mdrap.stageBboAndReconciliation P raw f price status reasons) := by
  refine bind hP (keepQuotes _ _ _) fun _ => ?_
  cases price with
  | none => exact pure _
  | some price =>
    refine ite (pure _) fun w => ?_
    refine trans hP w _ _ (notePrice f.instrument (raw.sourceText P) price f.exchTs w) ?_
    exact bind hP (look fun s => ((s.reconciliationState.get? f.instrument).getD .empty).values)
      (fun recent => bind hP (lift (disagree P f.exchTs recent)) fun away =>
        ite (p := away = true) (pure _) (pure _)) _

/-! ## Counts -/

theorem bumpCount (status : QualityStatus) : Proc.Frame (Logged P) (Mdrap.bumpCount status : StepM V Unit) := by
  intro w hw
  refine ⟨⟨hw.known, hw.single, hw.bounded⟩, [_], rfl, { Restored.refl (P := P) w.state with counts := ?_ }⟩
  cases status <;> rfl

theorem begun (w : Work V) (offset : Int) : Logged P w (w.begun offset) :=
  fun hw => ⟨⟨hw.known, hw.single, hw.bounded⟩, [_, _, _], rfl, Restored.refl w.state⟩

/-! ## The step -/

theorem runStages (c : StepConfig V) (hP : c.py.EqLaws) (raw : RawEvent) (f : Fields V) (recvTs : Json) (isReplay : Bool) :
    Proc.Frame (Logged c.py) (Mdrap.runStages c raw f recvTs isReplay) := by
  refine bind hP (stageSessionAndEpoch hP _ _ _) fun e => ?_
  refine bind hP (stageSequenceAndDedup hP _ _ _ _ _ _ _) fun order => ?_
  refine bind hP (look _) fun threshold => bind hP (lift _) ?_
  rintro ⟨status, reasons⟩
  refine bind hP (stagePriceCorridor _ _ _ _) ?_
  rintro ⟨status, reasons⟩
  exact bind hP (stageBboAndReconciliation hP _ _ _ _ _) fun _ => pure _

theorem judge (c : StepConfig V) (hP : c.py.EqLaws) (raw : RawEvent) (now : Json) (offset : Int) (isReplay : Bool) :
    Proc.Frame (Logged c.py) (Mdrap.judge c raw now offset isReplay) := by
  refine ite (bind hP (lift _) ?_) (bind hP (bumpCount _) fun _ => pure _)
  rintro (d | f)
  · exact bind hP (bumpCount _) fun _ => pure _
  · exact bind hP (runStages c hP _ _ _ _) fun _ => bind hP (bumpCount _) fun _ => lift _

theorem stepInternal (c : StepConfig V) (hP : c.py.EqLaws) (raw : RawEvent) (now : Json) (offset : Int) (isReplay : Bool) :
    Proc.Frame (Logged c.py) (Mdrap.stepInternal c raw now offset isReplay) := by
  intro w
  rw [stepInternal_eq]
  exact trans hP w _ _ (begun w offset) (judge c hP raw now offset isReplay _)

end Logged

/-- Rolling back to a mark takes the state back to it, but for the lists of old numbers. -/
theorem Logged.rollbackTo {w w' : Work V} (h : Logged P w w') (hw : w.state.Deduped P) :
    Restored P (w'.rollbackTo P w.journal.length).state w.state ∧ (w'.rollbackTo P w.journal.length).journal = w.journal := by
  obtain ⟨-, js, hjournal, hback⟩ := h hw
  rw [Work.rollbackTo_eq hjournal]
  exact ⟨hback, rfl⟩

namespace Logged

/-- What a step has done before it raised is taken back. -/
theorem rolledBack {w w' : Work V} (h : Logged P w w') : Logged P w (w'.rollbackTo P w.journal.length) := by
  intro hw
  obtain ⟨hrestored, hjournal⟩ := h.rollbackTo hw
  exact ⟨hrestored.deduped hw, [], hjournal, hrestored⟩

theorem countUnhandled (n : Nat) : Proc.Frame (Logged P) (Mdrap.countUnhandled n : StepM V Unit) :=
  fun w hw => ⟨⟨hw.known, hw.single, hw.bounded⟩, [_, _, _, _], rfl, Restored.refl w.state⟩

theorem step (c : StepConfig V) (hP : c.py.EqLaws) (raw : RawEvent) (now : Json) (offset : Option Int) (isReplay : Bool)
    (w : Work V) : Logged c.py w (Mdrap.step c raw now offset isReplay w).2 := by
  have hinternal := stepInternal c hP raw now (offset.getD w.state.eventCount) isReplay w
  unfold Mdrap.step
  dsimp only
  rcases hres : Mdrap.stepInternal c raw now (offset.getD w.state.eventCount) isReplay w with ⟨exc | d, w'⟩
  · rw [hres] at hinternal
    exact trans hP w _ _ hinternal.rolledBack (countUnhandled _ _)
  · rw [hres] at hinternal
    exact hinternal

theorem stepBatch (c : StepConfig V) (hP : c.py.EqLaws) (now : Json) (events : List (RawEvent × Int)) (w : Work V) :
    Logged c.py w (Mdrap.stepBatch c now events w).2 := by
  induction events generalizing w with
  | nil => exact refl w
  | cons x rest ih => exact trans hP w _ _ (step c hP x.1 now (some x.2) false w) (ih _)

theorem observe (hP : P.EqLaws) (n : Nat) : Proc.Frame (Logged P) (Mdrap.observe n : StepM V Unit) := by
  induction n with
  | zero => exact pure _
  | succ n ih =>
    intro w
    have hone : Logged P w { w with
        state := { w.state with observedCount := w.state.observedCount + 1 }
        journal := .lastAppliedOffset w.state.lastAppliedOffset :: .observedCount w.state.observedCount ::
          .eventCount w.state.eventCount :: w.journal } :=
      fun hw => ⟨⟨hw.known, hw.single, hw.bounded⟩, [_, _, _], rfl, Restored.refl w.state⟩
    exact trans hP w _ _ hone (ih _)

end Logged

/-! ## The states an engine comes to -/

theorem deduped_initial (stalenessThresholdS : V) : (EngineState.initial stalenessThresholdS).Deduped P :=
  ⟨fun _ => rfl, .nil, Nat.zero_le _⟩

/-- The set and the window of fingerprints fit together in every state that is reached. -/
theorem EngineState.Reached.deduped (hP : P.EqLaws) {s : EngineState V} (h : s.Reached P) : s.Deduped P := by
  induction h with
  | initial t => exact deduped_initial t
  | @step s _ c hc raw now offset isReplay gaps ih =>
    subst hc
    exact (Logged.step c hP raw now offset isReplay ⟨s, [], gaps⟩ ih).1
  | @submit e _ hc xs env ih =>
    subst hc
    have hseen := Logged.observe hP xs.length ⟨e.state, [], e.gaps⟩
    unfold Engine.submit
    split
    · exact ih
    · dsimp only
      split
      · exact (hseen.rollbackTo ih).1.deduped ih
      · exact (Logged.trans hP _ _ _ hseen (Logged.stepBatch _ hP _ _ _) ih).1
  | restored _ ih => exact ⟨fun _ => rfl, ih.single, ih.bounded⟩

end Mdrap
