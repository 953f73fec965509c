import Mdrap.Lemmas.Handed

/-!
# Crossed quotes

The fourth stage marks an event with a bid above its ask as invalid, and nothing takes a mark away. Every event gets to that stage
but one whose number is far behind and was seen before, or is the second one in a row to be very far behind: the second stage is done
with these. A crossed quote is quarantined whatever else happens exactly when it is not one of these.
-/

namespace Mdrap

open Lib

variable {V : Type}

namespace MarketEvent

/-- The event passed the first stage, and its bid is above its ask. -/
def Crossed (F : Floats V) (cfg : QualityLimits V) (ev : MarketEvent V) : Prop :=
  ev.eventType.isSome ∧ structurallyBad F cfg ev = false ∧
    ∃ bid ask, ev.bidPrice = some bid ∧ ev.askPrice = some ask ∧ F.lt ask bid = true

/-- The event is invalid, as a crossed quote. -/
def Quarantined (ev : MarketEvent V) : Prop := ev.qualityStatus = .invalid ∧ Reason.crossedQuote.value ∈ ev.reasons

theorem Crossed.of_unmarked {F : Floats V} {cfg : QualityLimits V} {ev ev' : MarketEvent V} (h : ev.Crossed F cfg)
    (heq : ev'.unmarked = ev.unmarked) : ev'.Crossed F cfg := by
  have h' : ev.unmarked.Crossed F cfg := h
  rw [← heq] at h'
  exact h'

/-- The event is invalid, for a reason. -/
def Rejected (r : Reason) (ev : MarketEvent V) : Prop := ev.qualityStatus = .invalid ∧ r.value ∈ ev.reasons

theorem Rejected.mark {r : Reason} {ev : MarketEvent V} (h : ev.Rejected r) (m : Mark) : (ev.mark m).Rejected r := by
  obtain ⟨hstatus, hreason⟩ := h
  refine ⟨?_, ?_⟩
  · show (if ev.qualityStatus.severityLevel < m.1.severityLevel then m.1 else ev.qualityStatus) = .invalid
    rw [hstatus]
    rcases m with ⟨_ | _ | _, r⟩ <;> rfl
  · show r.value ∈ if m.2.value ∈ ev.reasons then ev.reasons else ev.reasons ++ [m.2.value]
    split
    · exact hreason
    · exact List.mem_append_left _ hreason

theorem Rejected.markAll {r : Reason} {ev : MarketEvent V} (h : ev.Rejected r) (ms : List Mark) : (ev.markAll ms).Rejected r := by
  induction ms generalizing ev with
  | nil => exact h
  | cons m ms ih => exact ih (h.mark m)

theorem rejected_mark (r : Reason) (ev : MarketEvent V) : (ev.mark (.invalid, r)).Rejected r := by
  refine ⟨?_, ?_⟩
  · show (if ev.qualityStatus.severityLevel < 2 then .invalid else ev.qualityStatus) = QualityStatus.invalid
    cases ev.qualityStatus <;> rfl
  · show r.value ∈ if r.value ∈ ev.reasons then ev.reasons else ev.reasons ++ [_]
    split
    · assumption
    · exact List.mem_append_right _ (List.mem_singleton_self _)

theorem Rejected.userRules {r : Reason} {ev : MarketEvent V} (h : ev.Rejected r) (rules : List (UserRule V)) :
    (evaluateUserRules rules ev).Rejected r := by
  induction rules generalizing ev with
  | nil => exact h
  | cons rule rules ih =>
    obtain ⟨hstatus, hreason⟩ := h
    have hkeep : ∀ name : String, r.value ∈ if name ∈ ev.reasons then ev.reasons else ev.reasons ++ [name] := by
      intro name
      split
      · exact hreason
      · exact List.mem_append_left _ hreason
    rw [evaluateUserRules, List.foldl_cons]
    rcases rule.func ev with _ | _ | _
    · exact ih ⟨hstatus, hkeep _⟩
    · exact ih ⟨hstatus, hreason⟩
    · refine ih ⟨?_, hkeep _⟩
      simp [hstatus]

end MarketEvent

/-- What the first stage found agrees with the event. -/
structure Held.Checked (F : Floats V) (cfg : QualityLimits V) (h : Held V) : Prop where
  bad : h.bad = structurallyBad F cfg h.event
  hasBid : h.hasBid = h.event.bidPrice.isSome
  hasAsk : h.hasAsk = h.event.askPrice.isSome

theorem Held.Checked.of_unmarked {F : Floats V} {cfg : QualityLimits V} {h : Held V} (hh : h.Checked F cfg) {ev : MarketEvent V}
    (heq : ev.unmarked = h.event.unmarked) : Held.Checked F cfg { h with event := ev } := by
  have hbad : structurallyBad F cfg h.event.unmarked = h.bad := hh.bad.symm
  have hbid : h.event.unmarked.bidPrice.isSome = h.hasBid := hh.hasBid.symm
  have hask : h.event.unmarked.askPrice.isSome = h.hasAsk := hh.hasAsk.symm
  rw [← heq] at hbad hbid hask
  exact ⟨hbad.symm, hbid.symm, hask.symm⟩

theorem QualityEngine.checked_checked (F : Floats V) (cfg : QualityLimits V) (now : V) (ev : MarketEvent V) :
    (checked F cfg now ev).Checked F cfg := by
  unfold checked
  dsimp only
  split
  · exact ⟨rfl, rfl, rfl⟩
  · exact ⟨rfl, rfl, rfl⟩

/-- The event is of an instrument, and quarantined if it is crossed. -/
def MarketEvent.Caught (F : Floats V) (cfg : QualityLimits V) (instrument : String) (ev : MarketEvent V) : Prop :=
  ev.instrumentId = instrument ∧ (ev.Crossed F cfg → ev.Quarantined)

/-- The events in a slot are of an instrument; those held back were checked, and those ready are quarantined if they are crossed. -/
structure QualitySlot.Guarded (F : Floats V) (cfg : QualityLimits V) (instrument : String) (sl : QualitySlot V) : Prop where
  pending : ∀ seq h, sl.pending.get? seq = some h → h.Checked F cfg ∧ h.event.instrumentId = instrument
  ready : ∀ ev ∈ sl.ready, ev.Caught F cfg instrument

namespace SlotWork

variable (F : Floats V) (cfg : QualityLimits V) (rules : List (UserRule V)) (instrument : String)

/-- The slot at work is guarded. -/
def Guarded (w : SlotWork V) : Prop := w.slot.Guarded F cfg instrument

variable {F cfg instrument}

theorem crossedMarks_of_crossed {h : Held V} (hh : h.Checked F cfg) (hcrossed : h.event.Crossed F cfg) :
    crossedMarks F h = [(.invalid, .crossedQuote)] := by
  obtain ⟨-, hgood, bid, ask, hbid, hask, hlt⟩ := hcrossed
  rw [crossedMarks, hbid, hask]
  simp [hh.bad, hgood, hh.hasBid, hh.hasAsk, hbid, hask, hlt]

theorem finishEvaluation_caught {h : Held V} (hh : h.Checked F cfg) (hinstrument : h.event.instrumentId = instrument)
    {w : SlotWork V} (hw : w.Guarded F cfg instrument) :
    Proc.Yields (Guarded F cfg instrument) (MarketEvent.Caught F cfg instrument) (finishEvaluation F cfg rules h) w := by
  have hr := finishEvaluation_finishes F cfg rules h w
  refine ⟨⟨?_, ?_⟩, ?_⟩
  · rw [hr.slot.pending]
    exact hw.pending
  · rw [hr.slot.ready]
    exact hw.ready
  · intro ev hev
    have hunmarked := hr.unmarked F cfg rules hev
    refine ⟨?_, ?_⟩
    · have hsame := congrArg MarketEvent.instrumentId hunmarked
      exact hsame.trans hinstrument
    · -- nothing after the fourth stage takes its mark away
      intro hcrossed
      obtain ⟨ms, rfl⟩ := hr.event ev hev
      have hstamped : (w.stamped F cfg h).Rejected .crossedQuote := by
        rw [stamped, crossedMarks_of_crossed hh (hcrossed.of_unmarked hunmarked.symm), MarketEvent.markAll_append]
        exact MarketEvent.rejected_mark .crossedQuote _
      exact (hstamped.markAll ms).userRules rules

theorem release_caught {keep : MarketEvent V → QualitySlot V → QualitySlot V}
    (hkeep : ∀ ev sl, ev.Caught F cfg instrument → sl.Guarded F cfg instrument → (keep ev sl).Guarded F cfg instrument) (n : Nat)
    {w : SlotWork V} (hw : w.Guarded F cfg instrument) :
    Proc.Yields (Guarded F cfg instrument) (fun evs => ∀ ev ∈ evs, ev.Caught F cfg instrument) (release F cfg rules keep n) w := by
  induction n generalizing w with
  | zero => exact .pure hw (List.forall_mem_nil _)
  | succ n ih =>
    rw [release]
    refine .read_bind ?_
    rcases hget : w.slot.pending.get? (w.slot.lastSeq + 1) with _ | h
    · exact .pure hw (List.forall_mem_nil _)
    · obtain ⟨hh, hinstrument⟩ := hw.pending _ h hget
      refine .modify_bind ?_
      refine .bind (finishEvaluation_caught rules hh hinstrument ?_) ?_
      · refine ⟨?_, hw.ready⟩
        intro seq o ho
        exact hw.pending seq o (QualitySlot.get?_of_erase ho)
      · intro ev t ht hev
        refine .modify_bind ?_
        refine .bind (ih (hkeep ev t.slot hev ht)) ?_
        intro evs u hu hevs
        refine .pure hu ?_
        intro ev' hev'
        rcases List.mem_cons.mp hev' with rfl | hmem
        · exact hev
        · exact hevs ev' hmem

theorem complete_caught {h : Held V} (hh : h.Checked F cfg) (hinstrument : h.event.instrumentId = instrument) (ms : List Mark)
    {w : SlotWork V} (hw : w.Guarded F cfg instrument) :
    Proc.Yields (Guarded F cfg instrument) (MarketEvent.Caught F cfg instrument) (complete F cfg rules h ms) w := by
  have hmarked : (h.event.markAll ms).instrumentId = instrument :=
    (congrArg MarketEvent.instrumentId (h.event.unmarked_markAll ms)).trans hinstrument
  rw [complete]
  refine .modify_bind ?_
  refine .bind (finishEvaluation_caught rules (hh.of_unmarked (h.event.unmarked_markAll ms)) hmarked hw) ?_
  intro ev t ht hev
  split
  · refine .read_bind ?_
    refine .bind (release_caught rules ?_ _ ht) (fun _ u hu _ => .pure hu hev)
    intro ev' sl hev' hsl
    refine ⟨hsl.pending, ?_⟩
    intro ev'' hev''
    rcases List.mem_append.mp hev'' with hmem | hmem
    · exact hsl.ready ev'' hmem
    · rw [List.mem_singleton.mp hmem]
      exact hev'
  · exact .pure ht hev

theorem drainSeqs_caught (seqs : List Int) {w : SlotWork V} (hw : w.Guarded F cfg instrument) :
    Proc.Yields (Guarded F cfg instrument) (fun evs => ∀ ev ∈ evs, ev.Caught F cfg instrument) (drainSeqs F cfg rules seqs) w := by
  induction seqs generalizing w with
  | nil => exact .pure hw (List.forall_mem_nil _)
  | cons seq seqs ih =>
    rw [drainSeqs]
    refine .read_bind ?_
    rcases hget : w.slot.pending.get? seq with _ | h
    · exact ih hw
    · obtain ⟨hh, hinstrument⟩ := hw.pending _ h hget
      refine .modify_bind (.modify_bind ?_)
      refine .bind (finishEvaluation_caught rules (hh.of_unmarked (h.event.unmarked_mark _)) hinstrument ?_) ?_
      · obtain ⟨hpending, hready⟩ := skipTo_pending w.slot seq
        refine ⟨?_, ?_⟩
        · intro k o ho
          rw [hpending] at ho
          exact hw.pending k o (QualitySlot.get?_of_erase ho)
        · rw [hready]
          exact hw.ready
      · intro ev t ht hev
        refine .read_bind ?_
        refine .bind (release_caught rules (fun _ _ _ hsl => hsl) _ ht) ?_
        intro next u hu hnext
        refine .bind (ih hu) ?_
        intro evs v hv hevs
        refine .pure hv ?_
        intro ev' hev'
        rcases List.mem_cons.mp hev' with rfl | hmem
        · exact hev
        · rcases List.mem_append.mp hmem with hmem | hmem
          · exact hnext ev' hmem
          · exact hevs ev' hmem

theorem drainSlot_caught (now : V) (force : Bool) {w : SlotWork V} (hw : w.Guarded F cfg instrument) :
    Proc.Yields (Guarded F cfg instrument) (fun evs => ∀ ev ∈ evs, ev.Caught F cfg instrument) (drainSlot F cfg rules now force) w := by
  rw [drainSlot]
  refine .read_bind (.modify_bind (.read_bind ?_))
  refine .bind (drainSeqs_caught rules _ ⟨hw.pending, List.forall_mem_nil _⟩) ?_
  intro evs t ht hevs
  refine .pure ht ?_
  intro ev hev
  rcases List.mem_append.mp hev with hmem | hmem
  · exact hw.ready ev hmem
  · exact hevs ev hmem

end SlotWork

/-! ## What the second stage is done with -/

namespace QualitySlot

/-- The second stage is done with a number: it is far behind, and it was seen before or is the second one to be very far behind. -/
def doneWith (cfg : QualityLimits V) (sl : QualitySlot V) (seq : Int) : Bool :=
  sl.hasSeq ∧ SEQUENCE_BITMAP_BITS ≤ sl.lastSeq - seq ∧
    (seq ∈ sl.staleSeen ∨ cfg.seqJumpLimit < sl.lastSeq - seq ∧ 1 ≤ sl.regressCount)

/-- With these marks. -/
def doneMarks (sl : QualitySlot V) (seq : Int) : List Mark :=
  if seq ∈ sl.staleSeen then [(.invalid, .duplicate), (.invalid, .outOfOrder)] else [(.suspicious, .outOfOrder)]

theorem place_of_doneWith (F : Floats V) {cfg : QualityLimits V} {sl : QualitySlot V} {seq : Int} (h : sl.doneWith cfg seq = true)
    (held : Held V) : (sl.place F cfg seq held).1 = .done (sl.doneMarks seq) := by
  simp only [doneWith, decide_eq_true_eq] at h
  obtain ⟨hseq, hfar, hdone⟩ := h
  have hfar' : (64 : Int) ≤ sl.lastSeq - seq := hfar
  have hbehind : ¬seq > sl.lastSeq := by omega
  have hstale : ¬sl.lastSeq - seq < SEQUENCE_BITMAP_BITS := by
    rw [not_lt]
    exact hfar
  simp only [place, hseq, hbehind, behind, hstale, Bool.not_true, Bool.false_eq_true, if_false, doneMarks]
  by_cases hmem : seq ∈ sl.staleSeen
  · simp only [hmem, if_true]
  · obtain ⟨hlimit, hcount⟩ := hdone.resolve_left hmem
    have htwo : 2 ≤ sl.regressCount + 1 := by omega
    simp only [hmem, hlimit, htwo, if_false, if_true]

theorem place_of_not_doneWith (F : Floats V) {cfg : QualityLimits V} {sl : QualitySlot V} {seq : Int}
    (h : ¬sl.doneWith cfg seq = true) (held : Held V) (ms : List Mark) : (sl.place F cfg seq held).1 ≠ .done ms := by
  intro hdone
  refine h ?_
  simp only [doneWith, decide_eq_true_eq]
  unfold place at hdone
  split at hdone
  · cases hdone
  · rename_i hseq
    refine ⟨by simpa using hseq, ?_⟩
    split at hdone
    · unfold ahead at hdone
      dsimp only at hdone
      split at hdone
      · cases hdone
      · split at hdone
        · split at hdone
          · cases hdone
          · cases hdone
        · cases hdone
    · unfold behind at hdone
      dsimp only at hdone
      split at hdone
      · split at hdone
        · cases hdone
        · cases hdone
      · rename_i hfar
        refine ⟨not_lt.mp hfar, ?_⟩
        split at hdone
        · exact .inl ‹_›
        · split at hdone
          · rename_i hlimit
            split at hdone
            · rename_i htwo
              exact .inr ⟨hlimit, by omega⟩
            · cases hdone
          · cases hdone

/-- A crossed event goes past the fourth stage: it does not begin an epoch, and the second stage is done with its number, so that it is
quarantined only if it came with the marks. -/
def Escapes (F : Floats V) (cfg : QualityLimits V) (sl : QualitySlot V) (ev : MarketEvent V) (seq : Int) : Prop :=
  sl.epochReset F cfg ev seq = false ∧ sl.doneWith cfg seq = true ∧
    ¬(Reason.crossedQuote.value ∈ ev.reasons ∧ (seq ∈ sl.staleSeen ∨ ev.qualityStatus = .invalid))

end QualitySlot

namespace MarketEvent

theorem quarantined_doneMarks (ev : MarketEvent V) (sl : QualitySlot V) (seq : Int) :
    (ev.markAll (sl.doneMarks seq)).Quarantined ↔
      Reason.crossedQuote.value ∈ ev.reasons ∧ (seq ∈ sl.staleSeen ∨ ev.qualityStatus = .invalid) := by
  have hreason : ∀ (ev : MarketEvent V) (status : QualityStatus) (r : Reason), r ≠ .crossedQuote →
      (Reason.crossedQuote.value ∈ (ev.mark (status, r)).reasons ↔ Reason.crossedQuote.value ∈ ev.reasons) := by
    intro ev status r hr
    have hvalue : Reason.crossedQuote.value ≠ r.value := by
      intro heq
      refine hr ?_
      cases r <;> first | rfl | exact absurd heq (by decide)
    show (Reason.crossedQuote.value ∈ if r.value ∈ ev.reasons then ev.reasons else ev.reasons ++ [r.value]) ↔ _
    split
    · rfl
    · simp [hvalue]
  unfold QualitySlot.doneMarks Quarantined
  by_cases hmem : seq ∈ sl.staleSeen
  · simp only [hmem, if_true, markAll, List.foldl_cons, List.foldl_nil]
    rw [hreason _ _ _ (by decide), hreason _ _ _ (by decide)]
    have hstatus : ((ev.mark (.invalid, .duplicate)).mark (.invalid, .outOfOrder)).qualityStatus = .invalid := by
      cases hs : ev.qualityStatus <;> simp [mark, hs, QualityStatus.severityLevel]
    simp [hstatus]
  · simp only [hmem, if_false, markAll, List.foldl_cons, List.foldl_nil]
    rw [hreason _ _ _ (by decide)]
    have hstatus : (ev.mark (.suspicious, .outOfOrder)).qualityStatus = .invalid ↔ ev.qualityStatus = .invalid := by
      cases hs : ev.qualityStatus <;> simp [mark, hs, QualityStatus.severityLevel]
    rw [hstatus]
    tauto

end MarketEvent

namespace SlotWork

variable {F : Floats V} {cfg : QualityLimits V} (rules : List (UserRule V)) {instrument : String}

/-- Where no epoch begins, the event and what the second stage is done with are as they were. -/
theorem entered_of_not_reset {h : Held V} {seq : Int} {w : SlotWork V} (hreset : w.slot.epochReset F cfg h.event seq = false) :
    w.entering F cfg h seq = h ∧ (w.entered F cfg h seq).doneWith cfg seq = w.slot.doneWith cfg seq ∧
      (w.entered F cfg h seq).doneMarks seq = w.slot.doneMarks seq := by
  unfold entered entering QualitySlot.enter
  simp only [hreset, Bool.false_eq_true, if_false]
  refine ⟨rfl, ?_, ?_⟩
  · split <;> rfl
  · split <;> rfl

theorem entered_ready (F : Floats V) (cfg : QualityLimits V) (h : Held V) (seq : Int) (w : SlotWork V) :
    (w.entered F cfg h seq).ready = w.slot.ready := by
  unfold entered QualitySlot.enter QualitySlot.clear
  dsimp only
  repeat' split
  all_goals rfl

theorem entered_of_reset {h : Held V} {seq : Int} {w : SlotWork V} (hreset : w.slot.epochReset F cfg h.event seq = true) :
    (w.entered F cfg h seq).doneWith cfg seq = false := by
  unfold entered QualitySlot.enter
  simp only [hreset, if_true]
  split
  · simp [QualitySlot.doneWith, QualitySlot.clear]
  · simp [QualitySlot.doneWith, QualitySlot.clear]

theorem evaluateSequenced_of_doneWith (h : Held V) {seq : Int} {w : SlotWork V}
    (hreset : w.slot.epochReset F cfg h.event seq = false) (hdone : w.slot.doneWith cfg seq = true) :
    (evaluateSequenced F cfg rules h seq w).1 = .ok (some (h.event.markAll (w.slot.doneMarks seq))) := by
  obtain ⟨hsame, hsameDone, hmarks⟩ := entered_of_not_reset hreset
  rw [← hsameDone] at hdone
  rw [evaluateSequenced_apply, QualitySlot.place_of_doneWith F hdone, hsame, hmarks]
  rfl

theorem evaluateSequenced_caught {h : Held V} (hh : h.Checked F cfg) (hinstrument : h.event.instrumentId = instrument) {seq : Int}
    {w : SlotWork V} (hw : w.Guarded F cfg instrument) (hcatch : h.event.Crossed F cfg → ¬w.slot.Escapes F cfg h.event seq) :
    Proc.Yields (Guarded F cfg instrument) (fun r => ∀ ev ∈ r, ev.Caught F cfg instrument) (evaluateSequenced F cfg rules h seq) w := by
  have hentering : (w.entering F cfg h seq).Checked F cfg ∧ (w.entering F cfg h seq).event.instrumentId = instrument :=
    ⟨hh.of_unmarked (h.event.unmarked_markAll _),
      (congrArg MarketEvent.instrumentId (h.event.unmarked_markAll _)).trans hinstrument⟩
  have hentered : (w.entered F cfg h seq).Guarded F cfg instrument := by
    refine ⟨?_, ?_⟩
    · intro k o hget
      rw [entered, QualitySlot.enter_pending] at hget
      split at hget
      · cases hget
      · exact hw.pending k o hget
    · rw [entered_ready]
      exact hw.ready
  have hplace := QualitySlot.place_held F cfg (w.entered F cfg h seq) seq (w.entering F cfg h seq)
  have happly := evaluateSequenced_apply F cfg rules h seq w
  suffices hplaced : Proc.Yields (Guarded F cfg instrument) (fun r : Option (MarketEvent V) => ∀ ev ∈ r, ev.Caught F cfg instrument) _ _ from
    ⟨happly ▸ hplaced.state, happly ▸ hplaced.result⟩
  split at hplace
  · -- held back
    rw [hplace]
    refine .pure ⟨?_, hentered.ready⟩ (fun ev hev => by cases hev)
    intro k o hget
    by_cases hk : k = seq
    · subst hk
      rw [Dict.get?_set_self, Option.some.injEq] at hget
      subst hget
      exact hentering
    · rw [Dict.get?_set_ne _ hk] at hget
      exact hentered.pending k o hget
  · obtain ⟨hnot, hpending, hready⟩ := hplace
    have hafter : QualitySlot.Guarded F cfg instrument
        ((w.entered F cfg h seq).place F cfg seq (w.entering F cfg h seq)).2 := by
      refine ⟨?_, ?_⟩
      · rw [hpending]
        exact hentered.pending
      · rw [hready]
        exact hentered.ready
    by_cases hdone : (w.entered F cfg h seq).doneWith cfg seq = true
    · rw [QualitySlot.place_of_doneWith F hdone]
      have hreset : w.slot.epochReset F cfg h.event seq = false := by
        by_contra hreset
        rw [entered_of_reset (Bool.not_eq_false _ ▸ hreset)] at hdone
        cases hdone
      obtain ⟨hsame, hslot, hmarks⟩ := entered_of_not_reset hreset
      rw [hslot] at hdone
      rw [hmarks, hsame]
      rw [hsame] at hafter
      refine .modify_bind (.pure hafter ?_)
      intro ev hev
      cases hev
      refine ⟨(congrArg MarketEvent.instrumentId (h.event.unmarked_markAll _)).trans hinstrument, ?_⟩
      intro hcrossed
      have hescape := hcatch (hcrossed.of_unmarked (h.event.unmarked_markAll _).symm)
      rw [QualitySlot.Escapes, not_and, not_and, not_not] at hescape
      exact (h.event.quarantined_doneMarks w.slot seq).mpr (hescape hreset hdone)
    · rcases hp : ((w.entered F cfg h seq).place F cfg seq (w.entering F cfg h seq)).1 with _ | ms | ms
      · exact absurd hp hnot
      · refine .bind (complete_caught rules hentering.1 hentering.2 ms hafter) ?_
        intro ev t ht hev
        refine .pure ht ?_
        intro ev' hev'
        cases hev'
        exact hev
      · exact absurd hp (QualitySlot.place_of_not_doneWith F hdone _ ms)

end SlotWork

namespace QualityEngine

open SlotWork

variable (F : Floats V) (s : QualitySetup V)

/-- All slots are guarded. -/
def Guarded (e : QualityEngine V) : Prop := ∀ kv ∈ e.slots.items, kv.2.Guarded F (s.limits kv.1.2) kv.1.2

variable {F s}

theorem Guarded.new : (new : QualityEngine V).Guarded F s := by
  intro kv hkv
  cases hkv

theorem onSlot_caught {α : Type} {key : String × String} {m : SlotM V α} {q : α → Prop} {e : QualityEngine V} (he : e.Guarded F s)
    (hm : ∀ sl, e.slots.get? key = some sl → Proc.Yields (SlotWork.Guarded F (s.limits key.2) key.2) q m ⟨sl, e.tally⟩) :
    Proc.Yields (Guarded F s) q (onSlot key m) e := by
  rcases hget : e.slots.get? key with _ | sl
  · have happly : onSlot key m e = (.error ⟨"KeyError", ""⟩, e) := by simp only [onSlot, hget]
    refine ⟨by rw [happly]; exact he, ?_⟩
    intro a ha
    rw [happly] at ha
    cases ha
  · have hslot := hm sl hget
    refine ⟨?_, ?_⟩
    · rw [onSlot_apply m hget]
      intro kv hkv
      rcases Dict.mem_of_mem_set hkv with rfl | hold
      · exact hslot.state
      · exact he kv hold
    · intro a ha
      rw [onSlot_apply m hget] at ha
      exact hslot.result a ha

theorem getSlot_guarded (key : String × String) (window : Int) {e : QualityEngine V} (he : e.Guarded F s) :
    (getSlot F s key window e).2.Guarded F s := by
  rcases getSlot_cases F s key window e with ⟨sl, hget, happly⟩ | ⟨hget, hsize, hitems, x, happly⟩ | ⟨items, happly, hget, hnew, hsuffix, hsum⟩
  · rw [happly]
    exact he
  · rw [happly]
    exact he
  · rw [happly]
    intro kv hkv
    rcases Dict.mem_of_mem_set hkv with rfl | hold
    · exact ⟨fun _ _ h => (nomatch h), List.forall_mem_nil _⟩
    · exact he kv (hsuffix.subset hold)

theorem evaluateUnsequenced_caught {instrument : String} {h : Held V} (hh : h.Checked F (s.limits instrument))
    (hinstrument : h.event.instrumentId = instrument) {e : QualityEngine V} (he : e.Guarded F s) :
    Proc.Yields (Guarded F s) (fun r => ∀ ev ∈ r, ev.Caught F (s.limits instrument) instrument)
      (evaluateUnsequenced F s (s.limits instrument) h) e := by
  have hcomplete : ∀ (ms : List Mark) (e : QualityEngine V), e.Guarded F s →
      Proc.Yields (Guarded F s) (fun r => ∀ ev ∈ r, ev.Caught F (s.limits instrument) instrument)
        (onSlot (h.event.source, h.event.instrumentId) (complete F (s.limits instrument) s.userRules h ms) >>= fun ev =>
          pure (some ev)) e := by
    intro ms e he
    refine .bind (q := MarketEvent.Caught F (s.limits instrument) instrument) (onSlot_caught he ?_) ?_
    · intro sl hget
      have hsl : sl.Guarded F (s.limits instrument) instrument := hinstrument ▸ he _ (Dict.mem_of_get? hget)
      rw [hinstrument]
      exact complete_caught s.userRules hh hinstrument ms hsl
    · intro ev t ht hev
      refine .pure ht ?_
      intro ev' hev'
      cases hev'
      exact hev
  unfold evaluateUnsequenced
  dsimp only
  split
  · exact .read_bind (.modify_bind (hcomplete _ _ he))
  · exact hcomplete _ _ he

theorem evaluate_caught (now : V) (ev : MarketEvent V) {e : QualityEngine V} (he : e.Guarded F s)
    (hcatch : ev.Crossed F (s.limits ev.instrumentId) → ∀ seq, ev.sequenceNumber = some seq → 0 ≤ seq →
      ¬(e.slotFor F s ev).Escapes F (s.limits ev.instrumentId) ev seq) :
    Proc.Yields (Guarded F s) (fun r => ∀ ev' ∈ r, ev'.Caught F (s.limits ev.instrumentId) ev.instrumentId) (evaluate F s now ev) e := by
  have hchecked := checked_checked F (s.limits ev.instrumentId) now ev
  have hunmarked := checked_unmarked F (s.limits ev.instrumentId) now ev
  have hinstrument : (checked F (s.limits ev.instrumentId) now ev).event.instrumentId = ev.instrumentId := by
    have hsame := congrArg MarketEvent.instrumentId hunmarked
    exact hsame
  have hguarded := getSlot_guarded (ev.source, ev.instrumentId) (s.limits ev.instrumentId).priceWindow he
  rw [evaluate]
  refine .bind_at hguarded ?_
  intro u hok
  have hget := getSlot_get? F s e ev hok
  split
  · rename_i htype
    refine .modify_bind (.pure hguarded ?_)
    intro ev' hev'
    cases hev'
    refine ⟨rfl, ?_⟩
    rintro ⟨hsome, -⟩
    simp [MarketEvent.mark, htype] at hsome
  · refine .modify_bind ?_
    rcases hseq : ev.sequenceNumber with _ | seq
    · exact evaluateUnsequenced_caught hchecked hinstrument hguarded
    · dsimp only
      split
      · rename_i hnonneg
        refine onSlot_caught hguarded ?_
        intro sl hsl
        rw [show _ = some sl from hsl, Option.some.injEq] at hget
        refine evaluateSequenced_caught s.userRules hchecked hinstrument (hguarded _ (Dict.mem_of_get? hsl)) ?_
        intro hcrossed
        -- the first stage leaves a crossed event as it is
        have hcrossed' : ev.Crossed F (s.limits ev.instrumentId) := hcrossed.of_unmarked hunmarked.symm
        have hsame : (checked F (s.limits ev.instrumentId) now ev).event = ev := by simp [checked, hcrossed'.2.1]
        rw [hsame, hget]
        exact hcatch hcrossed' seq hseq hnonneg
      · exact evaluateUnsequenced_caught hchecked hinstrument hguarded

theorem drainSlots_caught (now : V) (force : Bool) (keys : List (String × String)) {e : QualityEngine V} (he : e.Guarded F s) :
    Proc.Yields (Guarded F s) (fun evs => ∀ ev ∈ evs, ev.Caught F (s.limits ev.instrumentId) ev.instrumentId)
      (drainSlots F s now force keys) e := by
  induction keys generalizing e with
  | nil => exact .pure he (List.forall_mem_nil _)
  | cons key keys ih =>
    rw [drainSlots]
    refine .bind (onSlot_caught he (fun sl hget => drainSlot_caught s.userRules now force (he _ (Dict.mem_of_get? hget)))) ?_
    intro evs t ht hevs
    refine .bind (ih ht) ?_
    intro rest u hu hrest
    refine .pure hu ?_
    intro ev hev
    rcases List.mem_append.mp hev with hmem | hmem
    · obtain ⟨hkey, hcaught⟩ := hevs ev hmem
      rw [← hkey] at hcaught
      exact ⟨rfl, hcaught⟩
    · exact hrest ev hmem

/-- The first stage does not say that an epoch begins. -/
theorem epochReset_checked (cfg : QualityLimits V) (now : V) (ev : MarketEvent V) (sl : QualitySlot V) (seq : Int) :
    sl.epochReset F cfg (checked F cfg now ev).event seq = sl.epochReset F cfg ev seq := by
  unfold checked
  dsimp only
  split
  · have hreason : Reason.epochReset.value ∈ (ev.mark (.invalid, .schemaViolation)).reasons ↔ Reason.epochReset.value ∈ ev.reasons := by
      show (Reason.epochReset.value ∈ if Reason.schemaViolation.value ∈ ev.reasons then ev.reasons else ev.reasons ++ [_]) ↔ _
      split
      · rfl
      · simp [show Reason.epochReset.value ≠ Reason.schemaViolation.value by decide]
    simp only [QualitySlot.epochReset, hreason]
    rfl
  · rfl

/-- An event whose number the second stage is done with is returned at once. -/
theorem evaluate_of_doneWith (now : V) {ev : MarketEvent V} (htype : ev.eventType.isSome) {seq : Int}
    (hseq : ev.sequenceNumber = some seq) (hnonneg : 0 ≤ seq) {e : QualityEngine V}
    (hreset : (e.slotFor F s ev).epochReset F (s.limits ev.instrumentId) ev seq = false)
    (hdone : (e.slotFor F s ev).doneWith (s.limits ev.instrumentId) seq = true) :
    (evaluate F s now ev e).1 =
      .ok (some ((checked F (s.limits ev.instrumentId) now ev).event.markAll ((e.slotFor F s ev).doneMarks seq))) := by
  obtain ⟨sl, hget⟩ : ∃ sl, e.slots.get? (ev.source, ev.instrumentId) = some sl := by
    rcases hget : e.slots.get? (ev.source, ev.instrumentId) with _ | sl
    · rw [slotFor, hget] at hdone
      simp [QualitySlot.doneWith, QualitySlot.new] at hdone
    · exact ⟨sl, rfl⟩
  have hslot : e.slotFor F s ev = sl := by
    rw [slotFor, hget]
    rfl
  rw [hslot] at hreset hdone ⊢
  have hgetSlot : getSlot F s (ev.source, ev.instrumentId) (s.limits ev.instrumentId).priceWindow e = (.ok (), e) := by
    simp only [getSlot, hget]
  have hknown : ¬ev.eventType = none := by
    intro hnone
    rw [hnone] at htype
    cases htype
  rw [← epochReset_checked (s.limits ev.instrumentId) now] at hreset
  have hworks : ∀ tally : Tally, (onSlot (ev.source, ev.instrumentId) (evaluateSequenced F (s.limits ev.instrumentId) s.userRules
      (checked F (s.limits ev.instrumentId) now ev) seq) { e with tally := tally }).1 =
        .ok (some ((checked F (s.limits ev.instrumentId) now ev).event.markAll (sl.doneMarks seq))) := by
    intro tally
    have hget' : (QualityEngine.slots { e with tally := tally }).get? (ev.source, ev.instrumentId) = some sl := hget
    rw [onSlot_apply _ hget']
    exact evaluateSequenced_of_doneWith (w := ⟨sl, tally⟩) s.userRules _ hreset hdone
  rw [evaluate, Proc.bind_apply, hgetSlot]
  dsimp only
  rw [if_neg hknown, Proc.bind_apply, Proc.modify_apply]
  dsimp only
  rw [hseq]
  dsimp only
  rw [if_pos hnonneg]
  exact hworks _

/-- A crossed event that goes past the fourth stage is returned at once. -/
theorem evaluate_of_escapes (now : V) {ev : MarketEvent V} (hcrossed : ev.Crossed F (s.limits ev.instrumentId)) {seq : Int}
    (hseq : ev.sequenceNumber = some seq) (hnonneg : 0 ≤ seq) {e : QualityEngine V}
    (hescape : (e.slotFor F s ev).Escapes F (s.limits ev.instrumentId) ev seq) :
    (evaluate F s now ev e).1 = .ok (some (ev.markAll ((e.slotFor F s ev).doneMarks seq))) := by
  have hchecked : (checked F (s.limits ev.instrumentId) now ev).event = ev := by simp [checked, hcrossed.2.1]
  rw [evaluate_of_doneWith now hcrossed.1 hseq hnonneg hescape.1 hescape.2.1, hchecked]

end QualityEngine

namespace QualityCall

open QualityEngine

variable (F : Floats V) (s : QualitySetup V)

/-- A call that lets no crossed event go past the fourth stage. -/
def Stops (e : QualityEngine V) : QualityCall V → Prop
  | .evaluate _ ev => ev.Crossed F (s.limits ev.instrumentId) → ∀ seq, ev.sequenceNumber = some seq → 0 ≤ seq →
      ¬(e.slotFor F s ev).Escapes F (s.limits ev.instrumentId) ev seq
  | .drainExpired _ _ => True

variable {F s}

theorem run_caught {e : QualityEngine V} (he : e.Guarded F s) {c : QualityCall V} (hc : c.Stops F s e) :
    Proc.Yields (Guarded F s) (fun evs => ∀ ev ∈ evs, ev.Caught F (s.limits ev.instrumentId) ev.instrumentId) (c.run F s) e := by
  cases c with
  | evaluate now ev =>
    refine .bind (evaluate_caught now ev he hc) ?_
    intro r t ht hr
    refine .pure ht ?_
    intro ev' hev'
    obtain ⟨hinstrument, hcaught⟩ := hr ev' (Option.mem_toList.mp hev')
    rw [← hinstrument] at hcaught
    exact ⟨rfl, hcaught⟩
  | drainExpired now force => exact .read_bind (drainSlots_caught now force _ he)

theorem handedBack_caught {e : QualityEngine V} (he : e.Guarded F s) {c : QualityCall V} (hc : c.Stops F s e) :
    ∀ ev ∈ handedBack (step F s e c).1, ev.Crossed F (s.limits ev.instrumentId) → ev.Quarantined := by
  intro ev hev
  rcases hrun : (step F s e c).1 with x | evs
  · rw [hrun] at hev
    cases hev
  · rw [hrun] at hev
    exact ((run_caught he hc).result evs hrun ev hev).2

theorem stops_of_handedBack {e : QualityEngine V} {c : QualityCall V}
    (h : ∀ ev ∈ handedBack (step F s e c).1, ev.Crossed F (s.limits ev.instrumentId) → ev.Quarantined) : c.Stops F s e := by
  cases c with
  | evaluate now ev =>
    intro hcrossed seq hseq hnonneg hescape
    have hok := evaluate_of_escapes now hcrossed hseq hnonneg hescape
    have hback : handedBack (step F s e (.evaluate now ev)).1 = [ev.markAll ((e.slotFor F s ev).doneMarks seq)] := by
      rw [step, run, Proc.bind_apply]
      rcases hrun : QualityEngine.evaluate F s now ev e with ⟨x | r, t⟩
      · rw [hrun] at hok
        cases hok
      · rw [hrun] at hok
        cases hok
        rfl
    have hunmarked := ev.unmarked_markAll ((e.slotFor F s ev).doneMarks seq)
    have hinstrument : (ev.markAll ((e.slotFor F s ev).doneMarks seq)).instrumentId = ev.instrumentId := by
      have hsame := congrArg MarketEvent.instrumentId hunmarked
      exact hsame
    have hquarantined := h _ (by rw [hback]; exact List.mem_singleton_self _) (hinstrument ▸ hcrossed.of_unmarked hunmarked)
    exact hescape.2.2 ((ev.quarantined_doneMarks _ seq).mp hquarantined)
  | drainExpired now force => trivial

theorem handed_caught_iff {e : QualityEngine V} (he : e.Guarded F s) (cs : List (QualityCall V)) :
    (∀ ev ∈ handed F s e cs, ev.Crossed F (s.limits ev.instrumentId) → ev.Quarantined) ↔
      Along (fun e c => (step F s e c).2) (Stops F s) e cs := by
  induction cs generalizing e with
  | nil => exact ⟨fun _ => trivial, fun _ => List.forall_mem_nil _⟩
  | cons c cs ih =>
    have hsplit : handed F s e (c :: cs) = handedBack (step F s e c).1 ++ handed F s (step F s e c).2 cs := rfl
    rw [hsplit, List.forall_mem_append]
    constructor
    · rintro ⟨hhead, htail⟩
      have hc := stops_of_handedBack hhead
      exact ⟨hc, (ih (run_caught he hc).state).mp htail⟩
    · rintro ⟨hc, hcs⟩
      exact ⟨handedBack_caught he hc, (ih (run_caught he hc).state).mpr hcs⟩

end QualityCall

/-- In every run, the crossed quotes that are handed back are quarantined exactly when none of them goes past the fourth stage. -/
theorem crossed_quarantined (F : Floats V) (s : QualitySetup V) (cs : List (QualityCall V)) :
    (∀ ev ∈ QualityCall.handed F s .new cs, ev.Crossed F (s.limits ev.instrumentId) → ev.Quarantined) ↔
      Along (fun e c => (QualityCall.step F s e c).2) (QualityCall.Stops F s) .new cs :=
  QualityCall.handed_caught_iff .new cs

/-- A quote with a number, of so much bid and so much asked. -/
def quoteAt (seq : Int) (bid ask : ℚ) : MarketEvent (Option ℚ) where
  object := 0
  source := "A"
  instrumentId := "X"
  eventType := some .quote
  exchangeTimestamp := some 1
  receiveTimestamp := some 1
  sequenceNumber := some seq
  price := none
  quantity := none
  bidPrice := some (some bid)
  askPrice := some (some ask)
  bidSize := none
  askSize := none
  sessionId := none
  venue := ""
  qualityStatus := .valid
  reasons := []

/-- The defaults. -/
def defaults : QualitySetup (Option ℚ) := .of (.default exactNumbers)

/-- A crossed quote that repeats a number from far behind is handed back as a duplicate alone. -/
theorem crossed_quarantined_false :
    ¬∀ cs, ∀ ev ∈ QualityCall.handed exactNumbers defaults .new cs,
      ev.Crossed exactNumbers (defaults.limits ev.instrumentId) → ev.Quarantined := by
  intro h
  have hstops := (QualityCall.handed_caught_iff .new _).mp
    (h [.evaluate (some 0) (quoteAt 200 1 2), .evaluate (some 0) (quoteAt 100 1 2), .evaluate (some 0) (quoteAt 100 2 1)])
  have hcrossed : (quoteAt 100 2 1).Crossed exactNumbers (defaults.limits "X") :=
    ⟨rfl, by decide +kernel, some 2, some 1, rfl, rfl, by decide +kernel⟩
  refine hstops.2.2.1 hcrossed 100 rfl (by decide) ?_
  unfold QualitySlot.Escapes
  decide +kernel

end Mdrap
