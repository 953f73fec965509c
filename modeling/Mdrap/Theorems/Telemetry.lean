import Mdrap.Theorems.Crossed
import Mdrap.Theorems.Reorder

/-!
# The counts of a quality engine

Each event that leaves the checks is counted under its status, by the last lines of `_finish_evaluation` or where its type is not
known. The second stage has two exits that go past both: the event whose number is far behind and was seen before, and the second one
in a row to be very far behind, are returned without being counted. The counts are exact as long as no event takes such an exit.
-/

namespace Mdrap

open Lib

variable {V : Type}

/-- How many of the events have a status. -/
def statusCount (st : QualityStatus) (evs : List (MarketEvent V)) : Int := evs.countP (fun ev => ev.qualityStatus = st)

@[simp] theorem statusCount_nil (st : QualityStatus) : statusCount st ([] : List (MarketEvent V)) = 0 := rfl

@[simp] theorem statusCount_append (st : QualityStatus) (evs evs' : List (MarketEvent V)) :
    statusCount st (evs ++ evs') = statusCount st evs + statusCount st evs' := by
  simp [statusCount]

theorem statusCount_cons (st : QualityStatus) (ev : MarketEvent V) (evs : List (MarketEvent V)) :
    statusCount st (ev :: evs) = statusCount st [ev] + statusCount st evs := by
  rw [← statusCount_append]
  rfl

/-- Every event has one of the three statuses. -/
theorem length_eq_counts (evs : List (MarketEvent V)) :
    evs.countP (fun ev => ev.qualityStatus = .valid) + evs.countP (fun ev => ev.qualityStatus = .suspicious) +
      evs.countP (fun ev => ev.qualityStatus = .invalid) = evs.length := by
  induction evs with
  | nil => rfl
  | cons ev evs ih =>
    simp only [List.countP_cons, List.length_cons, ← ih]
    cases ev.qualityStatus <;> simp <;> omega

theorem eq_nil_of_statusCount {evs : List (MarketEvent V)} (h : ∀ st, statusCount st evs = 0) : evs = [] := by
  rcases evs with _ | ⟨ev, evs⟩
  · rfl
  · have hone := h ev.qualityStatus
    simp only [statusCount, List.countP_cons, decide_true, if_true] at hone
    omega

namespace SlotWork

variable (F : Floats V) (cfg : QualityLimits V) (rules : List (UserRule V)) (st : QualityStatus)

/-- What is counted under a status, but for the events that are ready. -/
def booked (w : SlotWork V) : Int := w.tally.counts st - statusCount st w.slot.ready

theorem stagePrice_counts (hasPrice : Bool) (ev : MarketEvent V) (w : SlotWork V) :
    (stagePrice F cfg hasPrice ev w).2.tally.counts = w.tally.counts := by
  by_cases hpriced : ∃ px, Priced F hasPrice ev px
  · obtain ⟨px, hpx⟩ := hpriced
    rw [stagePrice_of_priced F cfg hpx]
    rfl
  · rw [stagePrice_of_not F cfg (not_exists.mp hpriced)]
    rfl

theorem finishEvaluation_balances (h : Held V) (w : SlotWork V) :
    Proc.Balances (booked st) 0 (fun ev => statusCount st [ev]) (finishEvaluation F cfg rules h) w := by
  have hready := (finishEvaluation_finishes F cfg rules h w).slot.ready
  have hcounts := stagePrice_counts F cfg h.hasPrice (w.stamped F cfg h) (w.timed F cfg h)
  intro ev hev
  unfold booked
  rw [hready]
  rw [finishEvaluation_apply] at hev ⊢
  generalize stagePrice F cfg h.hasPrice (w.stamped F cfg h) (w.timed F cfg h) = r at hev hcounts ⊢
  rcases r with ⟨e | ev', w'⟩
  · cases hev
  · cases hev
    have hbefore : w'.tally.counts st = w.tally.counts st := congrFun hcounts st
    dsimp only [Tally.count, statusCount, List.countP_cons, List.countP_nil]
    rw [hbefore]
    by_cases hst : st = (evaluateUserRules rules ev').qualityStatus
    · simp [hst]
      omega
    · simp [hst, Ne.symm hst]

/-- What follows on is counted; as told, each event is kept in the slot or comes out. -/
theorem release_balances {keep : MarketEvent V → QualitySlot V → QualitySlot V} {out : MarketEvent V → Int}
    {all : List (MarketEvent V) → Int} (hnil : all [] = 0) (hcons : ∀ ev evs, all (ev :: evs) = out ev + all evs)
    (hkeep : ∀ ev sl, statusCount st [ev] + statusCount st sl.ready = out ev + statusCount st (keep ev sl).ready) (n : Nat)
    (w : SlotWork V) : Proc.Balances (booked st) 0 all (release F cfg rules keep n) w := by
  induction n generalizing w with
  | zero => exact .pure hnil.symm
  | succ n ih =>
    rw [release]
    refine .read_bind ?_
    rcases w.slot.pending.get? (w.slot.lastSeq + 1) with _ | h
    · exact .pure hnil.symm
    · refine .modify_bind rfl ?_
      refine .bind (finishEvaluation_balances F cfg rules st h _) ?_
      intro ev _
      generalize (finishEvaluation F cfg rules h _).2 = t
      refine @Proc.Balances.modify_bind _ _ _ _ _ _ (out ev) _ _ _ ?_ ?_
      · have hmove := hkeep ev t.slot
        dsimp only [booked]
        omega
      · have hrest := ((ih ⟨keep ev t.slot, t.tally⟩).frame (out ev)).of_eq (zero_add _) (fun _ => rfl)
        refine .bind hrest ?_
        intro evs _
        exact .pure (by rw [hcons]; omega)

theorem complete_balances (h : Held V) (ms : List Mark) (w : SlotWork V) :
    Proc.Balances (booked st) 0 (fun ev => statusCount st [ev]) (complete F cfg rules h ms) w := by
  rw [complete]
  refine .modify_bind rfl ?_
  refine .bind (finishEvaluation_balances F cfg rules st { h with event := h.event.markAll ms } _) ?_
  intro ev _
  generalize (finishEvaluation F cfg rules _ _).2 = t
  split
  · refine .read_bind ?_
    have hrelease := @release_balances _ F cfg rules st (fun ev sl => { sl with ready := sl.ready ++ [ev] }) (fun _ => 0) (fun _ => 0) rfl (fun _ _ => rfl) (fun ev sl => by simp only [statusCount_append]; omega) t.slot.pending.size t
    refine .bind ((hrelease.frame (statusCount st [ev])).of_eq (zero_add _) (fun _ => zero_add _)) ?_
    intro evs _
    exact .pure rfl
  · exact .pure rfl

/-- The event takes an early exit of the second stage. -/
def Skips (sl : QualitySlot V) (ev : MarketEvent V) (seq : Int) : Prop :=
  sl.epochReset F cfg ev seq = false ∧ sl.doneWith cfg seq = true

instance (sl : QualitySlot V) (ev : MarketEvent V) (seq : Int) : Decidable (Skips F cfg sl ev seq) :=
  inferInstanceAs (Decidable (_ ∧ _))

theorem placed_balances (h : Held V) {p : Placement} (hp : ∀ ms, p ≠ .done ms) (w : SlotWork V) :
    Proc.Balances (booked st) 0 (fun r => statusCount st r.toList) (placed F cfg rules h p) w := by
  cases p with
  | held => exact .pure rfl
  | done ms => exact absurd rfl (hp ms)
  | goesOn ms =>
    refine .bind (complete_balances F cfg rules st h ms w) ?_
    intro ev _
    exact .pure rfl

theorem evaluateSequenced_balances (h : Held V) (seq : Int) (w : SlotWork V) :
    Proc.Balances (booked st) 0 (fun r => if Skips F cfg w.slot h.event seq then 0 else statusCount st r.toList)
      (evaluateSequenced F cfg rules h seq) w := by
  have hready : ((w.entered F cfg h seq).place F cfg seq (w.entering F cfg h seq)).2.ready = w.slot.ready := by
    have hplace := QualitySlot.place_held F cfg (w.entered F cfg h seq) seq (w.entering F cfg h seq)
    split at hplace
    · rw [hplace]
      exact entered_ready F cfg h seq w
    · exact hplace.2.2.trans (entered_ready F cfg h seq w)
  have hstart : ∀ t : Tally, t.counts = w.tally.counts →
      booked st ⟨((w.entered F cfg h seq).place F cfg seq (w.entering F cfg h seq)).2, t⟩ = booked st w := by
    intro t ht
    simp only [booked, hready, ht]
  intro r hr
  rw [evaluateSequenced_apply] at hr ⊢
  dsimp only
  by_cases hdone : (w.entered F cfg h seq).doneWith cfg seq = true
  · -- the early exits change nothing that counts
    have hskips : Skips F cfg w.slot h.event seq := by
      rcases hreset : w.slot.epochReset F cfg h.event seq with _ | _
      · exact ⟨hreset, (entered_of_not_reset hreset).2.1 ▸ hdone⟩
      · rw [entered_of_reset hreset] at hdone
        cases hdone
    rw [if_pos hskips, QualitySlot.place_of_doneWith F hdone]
    have hend := hstart ((w.tally.bump (epochMarks (w.slot.epochReset F cfg h.event seq))).bump
      ((w.entered F cfg h seq).doneMarks seq)) rfl
    exact congrArg (· + 0) hend
  · have hnot : ¬Skips F cfg w.slot h.event seq := by
      rintro ⟨hreset, hskip⟩
      exact hdone ((entered_of_not_reset hreset).2.1 ▸ hskip)
    rw [if_neg hnot, ← hstart (w.tally.bump (epochMarks (w.slot.epochReset F cfg h.event seq))) rfl]
    exact placed_balances F cfg rules st _ (QualitySlot.place_of_not_doneWith F hdone _) _ r hr

theorem drainSeqs_balances (seqs : List Int) (w : SlotWork V) :
    Proc.Balances (booked st) 0 (statusCount st) (drainSeqs F cfg rules seqs) w := by
  induction seqs generalizing w with
  | nil => exact .pure rfl
  | cons seq seqs ih =>
    rw [drainSeqs]
    refine .read_bind ?_
    rcases w.slot.pending.get? seq with _ | h
    · exact ih w
    · refine .modify_bind rfl ?_
      refine @Proc.Balances.modify_bind _ _ _ _ _ _ 0 _ _ _ ?_ ?_
      · simp only [booked, (skipTo_pending w.slot seq).2]
      · refine .bind (finishEvaluation_balances F cfg rules st _ _) ?_
        intro ev _
        generalize (finishEvaluation F cfg rules _ _).2 = t
        refine .read_bind ?_
        have hrelease := @release_balances _ F cfg rules st (fun _ sl => sl) (fun ev => statusCount st [ev]) _ rfl
          (fun ev evs => statusCount_cons st ev evs) (fun _ _ => rfl) t.slot.pending.size t
        refine .bind ((hrelease.frame (statusCount st [ev])).of_eq (zero_add _) (fun _ => rfl)) ?_
        intro next _
        refine .bind (((ih _).frame (statusCount st next + statusCount st [ev])).of_eq (zero_add _) (fun _ => rfl)) ?_
        intro evs _
        refine .pure ?_
        rw [List.cons_append, statusCount_cons st ev (next ++ evs), statusCount_append]
        omega

theorem drainSlot_balances (now : V) (force : Bool) (w : SlotWork V) :
    Proc.Balances (booked st) 0 (statusCount st) (drainSlot F cfg rules now force) w := by
  rw [drainSlot]
  refine .read_bind ?_
  refine @Proc.Balances.modify_bind _ _ _ _ _ _ (statusCount st w.slot.ready) _ _ _ ?_ ?_
  · simp only [booked, statusCount_nil]
    omega
  · refine .read_bind ?_
    refine .bind (((drainSeqs_balances F cfg rules st _ _).frame (statusCount st w.slot.ready)).of_eq (zero_add _) (fun _ => rfl)) ?_
    intro evs _
    exact .pure (by rw [statusCount_append]; omega)

end SlotWork

namespace QualityEngine

open SlotWork

/-- The events that are ready, in any slot. -/
def waiting (e : QualityEngine V) : List (MarketEvent V) := e.slots.items.flatMap (·.2.ready)

/-- What is counted under a status, but for the events that are ready. -/
def booked (st : QualityStatus) (e : QualityEngine V) : Int := e.tally.counts st - statusCount st e.waiting

variable (F : Floats V) (s : QualitySetup V) (st : QualityStatus)

/-- The events that are ready in the slot that goes to make room for a new one. -/
def dropped (e : QualityEngine V) (key : String × String) : List (MarketEvent V) :=
  if (e.slots.get? key).isNone ∧ e.slots.size ≥ s.maxTrackedInstruments then (e.slots.items.head?.map (·.2.ready)).getD [] else []

theorem onSlot_balances {α : Type} {key : String × String} {m : SlotM V α} {ρ : α → Int} {e : QualityEngine V} (he : e.Whole)
    {sl : QualitySlot V} (hget : e.slots.get? key = some sl) (hm : Proc.Balances (SlotWork.booked st) 0 ρ m ⟨sl, e.tally⟩) :
    Proc.Balances (booked st) 0 ρ (onSlot key m) e := by
  obtain ⟨l, r, hitems, hset, -⟩ := he.distinct.split hget
  intro a ha
  rw [onSlot_apply m hget] at ha ⊢
  have hslot : SlotWork.booked st (m ⟨sl, e.tally⟩).2 + 0 = SlotWork.booked st ⟨sl, e.tally⟩ + ρ a := hm a ha
  simp only [booked, waiting, hitems, hset, List.flatMap_append, List.flatMap_cons, statusCount_append]
  simp only [SlotWork.booked] at hslot
  omega

theorem getSlot_waiting {key : String × String} {window : Int} {e : QualityEngine V} {u : Unit}
    (hok : (getSlot F s key window e).1 = .ok u) :
    e.waiting = e.dropped s key ++ (getSlot F s key window e).2.waiting := by
  have hadd : ∀ {items : List ((String × String) × QualitySlot V)}, (Dict.mk items).get? key = none →
      ((Dict.mk items).set key (QualitySlot.new F window)).items.flatMap (·.2.ready) = items.flatMap (·.2.ready) := by
    intro items hnone
    rw [Dict.items_set_of_none hnone, List.flatMap_append]
    exact List.append_nil _
  unfold getSlot dropped at *
  rcases hget : e.slots.get? key with _ | sl
  · rw [hget] at hok
    by_cases hsize : e.slots.size ≥ s.maxTrackedInstruments
    · rcases hitems : e.slots.items with _ | ⟨kv, rest⟩
      · simp [hsize, hitems] at hok
      · have hrest : (Dict.mk rest).get? key = none := by
          rw [Dict.get?_eq_none_iff] at hget ⊢
          rw [hitems] at hget
          exact fun hmem => hget (List.mem_cons_of_mem _ hmem)
        simp [hsize, waiting, hitems, hadd hrest]
    · simp only [hsize, if_false, and_false, waiting, List.nil_append]
      exact (hadd hget).symm
  · simp

theorem getSlot_balances (key : String × String) (window : Int) (e : QualityEngine V) :
    Proc.Balances (booked st) 0 (fun _ => statusCount st (e.dropped s key)) (getSlot F s key window) e := by
  intro u hu
  have hwaiting := getSlot_waiting F s hu
  have htally : (getSlot F s key window e).2.tally = e.tally := by
    rcases getSlot_cases F s key window e with ⟨sl, -, happly⟩ | ⟨-, -, -, x, happly⟩ | ⟨items, happly, -⟩
    all_goals rw [happly]
  simp only [booked, htally, hwaiting, statusCount_append]
  omega

theorem evaluateUnsequenced_balances (cfg : QualityLimits V) (h : Held V) {e : QualityEngine V} (he : e.Whole) {sl : QualitySlot V}
    (hget : e.slots.get? (h.event.source, h.event.instrumentId) = some sl) :
    Proc.Balances (booked st) 0 (fun r => statusCount st r.toList) (evaluateUnsequenced F s cfg h) e := by
  unfold evaluateUnsequenced
  dsimp only
  split
  · refine .read_bind ?_
    refine .modify_bind rfl ?_
    refine .bind (onSlot_balances st ⟨he.distinct, he.slots⟩ hget (complete_balances F cfg s.userRules st h _ _)) ?_
    intro ev _
    exact .pure rfl
  · refine .bind (onSlot_balances st he hget (complete_balances F cfg s.userRules st h _ _)) ?_
    intro ev _
    exact .pure rfl

/-- A call of `evaluate` takes an early exit of the second stage. -/
def Skips (e : QualityEngine V) (ev : MarketEvent V) : Prop :=
  ev.eventType.isSome ∧ ∃ seq ∈ ev.sequenceNumber, 0 ≤ seq ∧
    SlotWork.Skips F (s.limits ev.instrumentId) (e.slotFor F s ev) ev seq

instance (e : QualityEngine V) (ev : MarketEvent V) : Decidable (Skips F s e ev) := inferInstanceAs (Decidable (_ ∧ _))

theorem evaluate_balances (now : V) (ev : MarketEvent V) {e : QualityEngine V} (he : e.Whole) :
    Proc.Balances (booked st) 0
      (fun r => statusCount st (e.dropped s (ev.source, ev.instrumentId)) + if Skips F s e ev then 0 else statusCount st r.toList)
      (evaluate F s now ev) e := by
  have hwhole := (getSlot_conserves F s ev.object (ev.source, ev.instrumentId) (s.limits ev.instrumentId).priceWindow he).inv
  have hunmarked := checked_unmarked F (s.limits ev.instrumentId) now ev
  have hsource := congrArg MarketEvent.source hunmarked
  have hinstrument := congrArg MarketEvent.instrumentId hunmarked
  simp only [MarketEvent.unmarked] at hsource hinstrument
  rw [evaluate]
  refine .bind (getSlot_balances F s st (ev.source, ev.instrumentId) (s.limits ev.instrumentId).priceWindow e) ?_
  intro u hok
  have hget := getSlot_get? F s e ev hok
  generalize (getSlot F s (ev.source, ev.instrumentId) (s.limits ev.instrumentId).priceWindow e).2 = t at hwhole hget ⊢
  generalize statusCount st (e.dropped s (ev.source, ev.instrumentId)) = gone
  by_cases htype : ev.eventType = none
  · rw [if_pos htype]
    have hnot : ¬Skips F s e ev := by
      rintro ⟨hsome, -⟩
      rw [htype] at hsome
      cases hsome
    -- an event of no type that is known is counted at once
    refine @Proc.Balances.modify_bind _ _ _ _ _ _ (gone + statusCount st [ev.mark (.invalid, .schemaViolation)]) _ _ _ ?_ ?_
    · dsimp only [booked, Tally.count, Tally.bump, statusCount, List.countP_cons, List.countP_nil]
      by_cases hst : st = (ev.mark (.invalid, .schemaViolation)).qualityStatus
      · simp [hst, waiting]
        omega
      · simp [hst, Ne.symm hst, waiting]
    · refine .pure ?_
      rw [if_neg hnot]
      rfl
  · rw [if_neg htype]
    refine .modify_bind rfl ?_
    have hunsequenced : ∀ e' : QualityEngine V, e'.Whole → e'.slots.get? (ev.source, ev.instrumentId) = some (e.slotFor F s ev) →
        ¬Skips F s e ev →
        Proc.Balances (booked st) gone (fun r => gone + if Skips F s e ev then 0 else statusCount st r.toList)
          (evaluateUnsequenced F s (s.limits ev.instrumentId) (checked F (s.limits ev.instrumentId) now ev)) e' := by
      intro e' he' hget' hnot
      have hunseq := evaluateUnsequenced_balances F s st (s.limits ev.instrumentId) (checked F (s.limits ev.instrumentId) now ev) he'
        (by rw [hsource, hinstrument]; exact hget')
      refine (hunseq.frame gone).of_eq (zero_add _) ?_
      intro r
      rw [if_neg hnot]
      exact add_comm _ _
    rcases hseq : ev.sequenceNumber with _ | seq
    · refine hunsequenced _ ⟨hwhole.distinct, hwhole.slots⟩ hget ?_
      rintro ⟨-, seq, hmem, -⟩
      rw [hseq] at hmem
      cases hmem
    · dsimp only
      by_cases hnonneg : 0 ≤ seq
      · rw [if_pos hnonneg]
        have hsequenced : ∀ tally : Tally, Proc.Balances (booked st) 0 _ _ { t with tally := tally } := fun tally =>
          onSlot_balances st ⟨hwhole.distinct, hwhole.slots⟩ hget
            (evaluateSequenced_balances F (s.limits ev.instrumentId) s.userRules st
              (checked F (s.limits ev.instrumentId) now ev) seq ⟨e.slotFor F s ev, tally⟩)
        refine ((hsequenced _).frame gone).of_eq (zero_add _) ?_
        intro r
        have hskips : SlotWork.Skips F (s.limits ev.instrumentId) (e.slotFor F s ev)
            (checked F (s.limits ev.instrumentId) now ev).event seq ↔ Skips F s e ev := by
          rw [SlotWork.Skips, epochReset_checked, Skips]
          simp only [hseq, Option.mem_def, Option.some.injEq, exists_eq_left', hnonneg, true_and]
          exact (and_iff_right (Option.isSome_iff_ne_none.mpr htype)).symm
        simp only [hskips]
        exact add_comm _ _
      · rw [if_neg hnonneg]
        refine hunsequenced _ ⟨hwhole.distinct, hwhole.slots⟩ hget ?_
        rintro ⟨-, seq', hmem, hnonneg', -⟩
        rw [hseq, Option.mem_def, Option.some.injEq] at hmem
        exact hnonneg (hmem ▸ hnonneg')

theorem drainSlots_balances (now : V) (force : Bool) (keys : List (String × String)) {e : QualityEngine V} (he : e.Whole)
    (hkeys : e.HasSlots keys) : Proc.Balances (booked st) 0 (statusCount st) (drainSlots F s now force keys) e := by
  induction keys generalizing e with
  | nil => exact .pure rfl
  | cons key keys ih =>
    obtain ⟨sl, hget⟩ := hkeys.get? List.mem_cons_self
    have hwhole : SlotWork.Whole ⟨sl, e.tally⟩ := he.slots _ (Dict.mem_of_get? hget)
    have hslots := (onSlot_conserves he hget (drainSlot_conserves F (s.limits key.2) s.userRules now force hwhole)).inv
    rw [drainSlots]
    refine .bind (onSlot_balances st he hget (drainSlot_balances F (s.limits key.2) s.userRules st now force ⟨sl, e.tally⟩)) ?_
    intro evs _
    have hkeys' : (onSlot key (drainSlot F (s.limits key.2) s.userRules now force) e).2.HasSlots keys := by
      intro key' hkey'
      rw [onSlot_keys _ hget]
      exact hkeys key' (List.mem_cons_of_mem _ hkey')
    refine .bind (((ih hslots hkeys').frame (statusCount st evs)).of_eq (zero_add _) (fun _ => rfl)) ?_
    intro rest _
    exact .pure (by rw [statusCount_append]; omega)

end QualityEngine

namespace QualityCall

open QualityEngine

variable (F : Floats V) (s : QualitySetup V)

/-- The call takes an early exit of the second stage. -/
def Skips (e : QualityEngine V) : QualityCall V → Prop
  | .evaluate _ ev => QualityEngine.Skips F s e ev
  | .drainExpired _ _ => False

/-- The ready events that a call drops with their slot. -/
def dropped (e : QualityEngine V) : QualityCall V → List (MarketEvent V)
  | .evaluate _ ev => e.dropped s (ev.source, ev.instrumentId)
  | .drainExpired _ _ => []

/-- The ready events that the calls of a run drop with their slots. -/
def allDropped : QualityEngine V → List (QualityCall V) → List (MarketEvent V)
  | _, [] => []
  | e, c :: cs => c.dropped s e ++ allDropped (step F s e c).2 cs

/-- The events a run releases: what its calls hand back, and what they have made ready and nobody has drained. -/
def released (e : QualityEngine V) (cs : List (QualityCall V)) : List (MarketEvent V) :=
  handed F s e cs ++ allDropped F s e cs ++ (runFrom (fun e c => (step F s e c).2) e cs).waiting

instance (e : QualityEngine V) (c : QualityCall V) : Decidable (Skips F s e c) :=
  match c with
  | .evaluate _ ev => inferInstanceAs (Decidable (QualityEngine.Skips F s e ev))
  | .drainExpired _ _ => inferInstanceAs (Decidable False)

/-- What the calls that take an early exit hand back. -/
def uncounted : QualityEngine V → List (QualityCall V) → List (MarketEvent V)
  | _, [] => []
  | e, c :: cs => (if c.Skips F s e then handedBack (step F s e c).1 else []) ++ uncounted (step F s e c).2 cs

variable {F s}

theorem run_balances (st : QualityStatus) (c : QualityCall V) {e : QualityEngine V} (he : e.Whole) :
    Proc.Balances (booked st) 0 (fun evs => statusCount st (c.dropped s e) + if c.Skips F s e then 0 else statusCount st evs)
      (c.run F s) e := by
  cases c with
  | evaluate now ev =>
    rw [run]
    refine .bind (evaluate_balances F s st now ev he) ?_
    intro r _
    exact .pure rfl
  | drainExpired now force =>
    have hdrain : Proc.Balances (booked st) 0 (statusCount st) (QualityEngine.drainExpired F s now force) e :=
      .read_bind (drainSlots_balances F s st now force _ he (fun _ h => h))
    refine hdrain.of_eq rfl ?_
    intro evs
    simp [dropped, Skips]

theorem handedBack_of_skips {e : QualityEngine V} {c : QualityCall V} (h : c.Skips F s e) : handedBack (step F s e c).1 ≠ [] := by
  cases c with
  | evaluate now ev =>
    obtain ⟨htype, seq, hseq, hnonneg, hreset, hdone⟩ := h
    have hok := evaluate_of_doneWith now htype hseq hnonneg hreset hdone
    rw [step, run, Proc.bind_apply]
    rcases hrun : QualityEngine.evaluate F s now ev e with ⟨x | r, t⟩
    · rw [hrun] at hok
      cases hok
    · rw [hrun] at hok
      cases hok
      exact List.cons_ne_nil _ _
  | drainExpired now force => exact h.elim

theorem uncounted_eq_nil {e : QualityEngine V} {cs : List (QualityCall V)} :
    uncounted F s e cs = [] ↔ Along (fun e c => (step F s e c).2) (fun e c => ¬c.Skips F s e) e cs := by
  induction cs generalizing e with
  | nil => exact ⟨fun _ => trivial, fun _ => rfl⟩
  | cons c cs ih =>
    rw [uncounted, List.append_eq_nil_iff, ih]
    refine and_congr_left' ?_
    by_cases hskips : c.Skips F s e
    · rw [if_pos hskips]
      exact ⟨fun hnil => absurd hnil (handedBack_of_skips hskips), fun hnot => absurd hskips hnot⟩
    · rw [if_neg hskips]
      exact ⟨fun _ => hskips, fun _ => rfl⟩

variable {P : V → Prop}

/-- Over a run, the counts grow by the events that are released, but for those of an early exit. -/
theorem runFrom_balances (hs : TameSetup F s P) (st : QualityStatus) {cs : List (QualityCall V)}
    (hcs : ∀ c ∈ cs, ∀ ev ∈ c.passed, ev.HasPrice P) {e : QualityEngine V} (he : e.Whole) (htame : Tame s P [] e) :
    (runFrom (fun e c => (step F s e c).2) e cs).booked st + statusCount st (uncounted F s e cs) =
      e.booked st + statusCount st (handed F s e cs) + statusCount st (allDropped F s e cs) := by
  induction cs generalizing e with
  | nil => simp [handed, outcomes, uncounted, allDropped]
  | cons c cs ih =>
    obtain ⟨⟨evs, hevs⟩, htame'⟩ := run_tame hs (hcs c List.mem_cons_self) e htame
    have hrest := ih (fun c' hc' => hcs c' (List.mem_cons_of_mem _ hc')) (run_conserves F s c he).inv htame'
    have hone : (step F s e c).2.booked st + 0 =
        e.booked st + (statusCount st (c.dropped s e) + if c.Skips F s e then 0 else statusCount st evs) :=
      run_balances st c he evs hevs
    have hback : handedBack (step F s e c).1 = evs := by
      rw [step, hevs]
      rfl
    rw [runFrom_cons, uncounted, allDropped, handed, outcomes, List.flatMap_cons, hback]
    simp only [statusCount_append]
    by_cases hskips : c.Skips F s e
    · rw [if_pos hskips] at hone ⊢
      rw [handed] at hrest
      simp only [step] at hone hrest ⊢
      omega
    · rw [if_neg hskips] at hone ⊢
      rw [handed] at hrest
      simp only [step, statusCount_nil] at hone hrest ⊢
      omega

end QualityCall

open QualityCall in
/-- In a run whose prices are in range, the counts are those of the events that were released exactly when no call takes an early exit
of the second stage. -/
theorem telemetry_exact (F : Floats V) (s : QualitySetup V) {P : V → Prop} (hs : QualityEngine.TameSetup F s P)
    (cs : List (QualityCall V)) (hcs : ∀ c ∈ cs, ∀ ev ∈ c.passed, ev.HasPrice P) :
    ((∀ st, (runFrom (fun e c => (QualityCall.step F s e c).2) .new cs).tally.counts st =
          (released F s .new cs).countP (fun ev => ev.qualityStatus = st)) ∧
        (runFrom (fun e c => (QualityCall.step F s e c).2) .new cs).tally.counts .valid +
            (runFrom (fun e c => (QualityCall.step F s e c).2) .new cs).tally.counts .suspicious +
            (runFrom (fun e c => (QualityCall.step F s e c).2) .new cs).tally.counts .invalid = (released F s .new cs).length) ↔
      Along (fun e c => (QualityCall.step F s e c).2) (fun e c => ¬c.Skips F s e) .new cs := by
  have hgap : ∀ st, ((runFrom (fun e c => (QualityCall.step F s e c).2) .new cs).tally.counts st : Int) + statusCount st (uncounted F s .new cs) =
      (released F s .new cs).countP (fun ev => ev.qualityStatus = st) := by
    intro st
    have hrun := runFrom_balances hs st hcs .new .new
    have hnew : (QualityEngine.new : QualityEngine V).booked st = 0 := rfl
    have hreleased : ((released F s .new cs).countP (fun ev => ev.qualityStatus = st) : Int) = statusCount st (released F s .new cs) := rfl
    rw [hreleased, released, statusCount_append, statusCount_append]
    rw [hnew, QualityEngine.booked] at hrun
    omega
  rw [← uncounted_eq_nil]
  constructor
  · rintro ⟨hcounts, -⟩
    refine eq_nil_of_statusCount ?_
    intro st
    have hst := hgap st
    rw [hcounts st] at hst
    omega
  · intro hnil
    have hcounts : ∀ st, (runFrom (fun e c => (QualityCall.step F s e c).2) .new cs).tally.counts st =
        (released F s .new cs).countP (fun ev => ev.qualityStatus = st) := by
      intro st
      have hst := hgap st
      rw [hnil, statusCount_nil] at hst
      omega
    refine ⟨hcounts, ?_⟩
    rw [hcounts, hcounts, hcounts]
    exact length_eq_counts _

/-- An event that is held back, the one it waits for, and one before them. -/
theorem telemetry_exact_four :
    (runFrom (fun e c => (QualityCall.step exactNumbers reordering e c).2) .new
      (evaluations [statusAt 0 1, statusAt 1 3, statusAt 2 2, statusAt 3 1])).tally.counts .invalid = 1 := by
  have hexact := telemetry_exact exactNumbers reordering reordering_tame
    (evaluations [statusAt 0 1, statusAt 1 3, statusAt 2 2, statusAt 3 1]) (fun _ _ _ _ _ _ => trivial)
  rw [(hexact.mpr (by decide +kernel)).1]
  decide +kernel

/-- The number of a status event is repeated from far behind: the event is handed back as invalid, and not counted. -/
theorem telemetry_exact_false :
    ¬∀ cs : List (QualityCall (Option ℚ)), ∀ st,
      (runFrom (fun e c => (QualityCall.step exactNumbers defaults e c).2) .new cs).tally.counts st =
        (QualityCall.released exactNumbers defaults .new cs).countP (fun ev => ev.qualityStatus = st) := by
  intro h
  have hcounts := h (evaluations [statusAt 0 200, statusAt 1 100, statusAt 2 100]) .invalid
  revert hcounts
  decide +kernel

end Mdrap
