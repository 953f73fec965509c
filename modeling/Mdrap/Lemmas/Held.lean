import Mdrap.Quality.Engine
import Mdrap.Lib.Ledger

/-!
# What the stages leave alone

The marks change the status and the reasons of an event and nothing else of it; the stages after the second one change the watermark
and the prices of a slot and nothing else of it.
-/

namespace Mdrap

open Lib

variable {V : Type}

namespace MarketEvent

/-- An event without its marks. -/
def unmarked (ev : MarketEvent V) : MarketEvent V := { ev with qualityStatus := .valid, reasons := [] }

@[simp] theorem unmarked_mark (ev : MarketEvent V) (m : Mark) : (ev.mark m).unmarked = ev.unmarked := rfl

@[simp] theorem unmarked_markAll (ev : MarketEvent V) (ms : List Mark) : (ev.markAll ms).unmarked = ev.unmarked := by
  induction ms generalizing ev with
  | nil => rfl
  | cons m ms ih => exact ih (ev.mark m)

theorem markAll_append (ev : MarketEvent V) (ms ms' : List Mark) : ev.markAll (ms ++ ms') = (ev.markAll ms).markAll ms' :=
  List.foldl_append

end MarketEvent

@[simp] theorem unmarked_evaluateUserRules (rules : List (UserRule V)) (ev : MarketEvent V) :
    (evaluateUserRules rules ev).unmarked = ev.unmarked := by
  induction rules generalizing ev with
  | nil => rfl
  | cons rule rules ih =>
    rw [evaluateUserRules, List.foldl_cons]
    rcases rule.func ev with _ | _ | _
    · exact ih _
    · exact ih _
    · exact ih _

namespace QualitySlot

/-- The slots differ in their watermarks and prices at most. -/
structure SameSequence (sl sl' : QualitySlot V) : Prop where
  lastSeq : sl'.lastSeq = sl.lastSeq
  hasSeq : sl'.hasSeq = sl.hasSeq
  seen : sl'.seen = sl.seen
  candPlus1 : sl'.candPlus1 = sl.candPlus1
  regressCount : sl'.regressCount = sl.regressCount
  staleSeen : sl'.staleSeen = sl.staleSeen
  sessionId : sl'.sessionId = sl.sessionId
  pending : sl'.pending = sl.pending
  ready : sl'.ready = sl.ready

theorem SameSequence.refl (sl : QualitySlot V) : SameSequence sl sl := ⟨rfl, rfl, rfl, rfl, rfl, rfl, rfl, rfl, rfl⟩

theorem SameSequence.prices {sl sl' : QualitySlot V} (h : SameSequence sl sl') (p : Prices V) :
    SameSequence sl { sl' with prices := p } :=
  ⟨h.lastSeq, h.hasSeq, h.seen, h.candPlus1, h.regressCount, h.staleSeen, h.sessionId, h.pending, h.ready⟩

theorem stageTime_sameSequence (F : Floats V) (cfg : QualityLimits V) (ev : MarketEvent V) (sl : QualitySlot V) :
    SameSequence sl (sl.stageTime F cfg ev).2 := by
  unfold stageTime
  split
  · dsimp only
    split
    · exact ⟨rfl, rfl, rfl, rfl, rfl, rfl, rfl, rfl, rfl⟩
    · exact .refl sl
  · exact .refl sl

end QualitySlot

namespace SlotWork

variable (F : Floats V) (cfg : QualityLimits V) (rules : List (UserRule V))

/-- The event of the first four stages. -/
def stamped (w : SlotWork V) (h : Held V) : MarketEvent V :=
  h.event.markAll ((w.slot.stageTime F cfg h.event).1 ++ crossedMarks F h)

/-- What becomes of an event from the third stage on. -/
structure Finishes (h : Held V) (w : SlotWork V) (r : Except PyError (MarketEvent V) × SlotWork V) : Prop where
  slot : w.slot.SameSequence r.2.slot
  event : ∀ ev, r.1 = .ok ev → ∃ ms, ev = evaluateUserRules rules ((w.stamped F cfg h).markAll ms)

/-- The event has a price that the fifth stage looks at. -/
def Priced (hasPrice : Bool) (ev : MarketEvent V) (px : V) : Prop :=
  ev.price = some px ∧ ev.qualityStatus ≠ .invalid ∧ hasPrice = true ∧ F.isFinite px = true

theorem stagePrice_of_priced {hasPrice : Bool} {ev : MarketEvent V} {px : V} (h : Priced F hasPrice ev px) (w : SlotWork V) :
    stagePrice F cfg hasPrice ev w =
      ((w.slot.prices.stage F cfg ev.venue px).2.1.map (fun _ => ev.markAll (w.slot.prices.stage F cfg ev.venue px).1),
        ⟨{ w.slot with prices := (w.slot.prices.stage F cfg ev.venue px).2.2 },
          w.tally.bump (w.slot.prices.stage F cfg ev.venue px).1⟩) := by
  obtain ⟨hpx, hclean⟩ := h
  rw [stagePrice, hpx]
  exact congrFun (if_pos hclean) w

theorem stagePrice_of_not {hasPrice : Bool} {ev : MarketEvent V} (h : ∀ px, ¬Priced F hasPrice ev px) :
    stagePrice F cfg hasPrice ev = pure ev := by
  rw [stagePrice]
  rcases hpx : ev.price with _ | px
  · rfl
  · have hnot : ¬(ev.qualityStatus ≠ .invalid ∧ hasPrice = true ∧ F.isFinite px = true) := fun hclean => h px ⟨hpx, hclean⟩
    exact if_neg hnot

theorem stagePrice_spec (hasPrice : Bool) (ev : MarketEvent V) (w : SlotWork V) :
    ∃ prices ms, (stagePrice F cfg hasPrice ev w).2.slot = { w.slot with prices := prices } ∧
      ∀ ev', (stagePrice F cfg hasPrice ev w).1 = .ok ev' → ev' = ev.markAll ms := by
  by_cases hpriced : ∃ px, Priced F hasPrice ev px
  · obtain ⟨px, hpx⟩ := hpriced
    rw [stagePrice_of_priced F cfg hpx]
    rcases w.slot.prices.stage F cfg ev.venue px with ⟨ms, result, prices⟩
    refine ⟨prices, ms, rfl, ?_⟩
    intro ev' hev
    cases result with
    | error e => cases hev
    | ok u =>
      cases hev
      rfl
  · rw [stagePrice_of_not F cfg (not_exists.mp hpriced)]
    refine ⟨w.slot.prices, [], rfl, ?_⟩
    intro ev' hev
    cases hev
    rfl

/-- The slot when the prices come. -/
def timed (w : SlotWork V) (h : Held V) : SlotWork V :=
  ⟨(w.slot.stageTime F cfg h.event).2, w.tally.bump ((w.slot.stageTime F cfg h.event).1 ++ crossedMarks F h)⟩

theorem finishEvaluation_apply (h : Held V) (w : SlotWork V) :
    finishEvaluation F cfg rules h w =
      match stagePrice F cfg h.hasPrice (w.stamped F cfg h) (w.timed F cfg h) with
      | (.ok ev, w') =>
        (.ok (evaluateUserRules rules ev), { w' with tally := w'.tally.count (evaluateUserRules rules ev).qualityStatus })
      | (.error e, w') => (.error e, w') := by
  simp only [finishEvaluation, tallied, Proc.bind_apply, Proc.read_apply, Proc.modify_apply, stamped, timed]
  generalize stagePrice F cfg h.hasPrice _ _ = r
  rcases r with ⟨e | ev, w'⟩
  · rfl
  · rfl

theorem finishEvaluation_finishes (h : Held V) (w : SlotWork V) :
    Finishes F cfg rules h w (finishEvaluation F cfg rules h w) := by
  have htime := w.slot.stageTime_sameSequence F cfg h.event
  obtain ⟨prices, ms, hslot, hevent⟩ := stagePrice_spec F cfg h.hasPrice (w.stamped F cfg h) (w.timed F cfg h)
  rw [finishEvaluation_apply]
  generalize stagePrice F cfg h.hasPrice (w.stamped F cfg h) (w.timed F cfg h) = r at hslot hevent
  rcases r with ⟨e | ev, w'⟩
  · dsimp only at hslot ⊢
    constructor
    · rw [hslot]
      exact htime.prices prices
    · intro ev' hev'
      cases hev'
  · refine ⟨?_, ?_⟩
    · show w.slot.SameSequence w'.slot
      rw [show w'.slot = _ from hslot]
      exact htime.prices prices
    · intro ev' hev'
      cases hev'
      exact ⟨ms, congrArg _ (hevent ev rfl)⟩

theorem Finishes.unmarked {h : Held V} {w : SlotWork V} {r : Except PyError (MarketEvent V) × SlotWork V}
    (hr : Finishes F cfg rules h w r) {ev : MarketEvent V} (hev : r.1 = .ok ev) : ev.unmarked = h.event.unmarked := by
  obtain ⟨ms, rfl⟩ := hr.event ev hev
  simp [stamped]

theorem complete_unmarked {h : Held V} {ms : List Mark} {w : SlotWork V} {ev : MarketEvent V}
    (hok : (complete F cfg rules h ms w).1 = .ok ev) : ev.unmarked = h.event.unmarked := by
  rw [complete, tallied, Proc.bind_apply, Proc.modify_apply] at hok
  dsimp only at hok
  obtain ⟨ev', hev', happly⟩ := Proc.bind_ok hok
  have hfinish := (finishEvaluation_finishes F cfg rules _ _).unmarked F cfg rules hev'
  rw [MarketEvent.unmarked_markAll] at hfinish
  rw [happly] at hok
  split at hok
  · rw [Proc.bind_apply, Proc.read_apply] at hok
    dsimp only at hok
    obtain ⟨evs, -, happly'⟩ := Proc.bind_ok hok
    rw [happly'] at hok
    cases hok
    exact hfinish
  · cases hok
    exact hfinish

end SlotWork

end Mdrap

/-!
## Where the events are

An event that was passed to the quality engine is in hand of a call, held back in a slot, or ready in one. The lemmas follow the
events through the procedures of the engine, as a multiset of event objects: what goes in comes out or is held. Three places give
events up: a new epoch, an event that is held under the number of another one, and a slot that goes to make room.
-/

namespace Mdrap

open Lib

variable {V : Type}

/-- The objects of some events. -/
def objectsOf (evs : List (MarketEvent V)) : Multiset Nat := (evs.map (·.object) : List Nat)

@[simp] theorem objectsOf_nil : objectsOf ([] : List (MarketEvent V)) = 0 := rfl

@[simp] theorem objectsOf_cons (ev : MarketEvent V) (evs : List (MarketEvent V)) :
    objectsOf (ev :: evs) = {ev.object} + objectsOf evs := by
  simp only [objectsOf, List.map_cons, ← Multiset.cons_coe, Multiset.singleton_add]

@[simp] theorem objectsOf_append (evs evs' : List (MarketEvent V)) : objectsOf (evs ++ evs') = objectsOf evs + objectsOf evs' := by
  simp [objectsOf, ← Multiset.coe_add]

theorem object_eq_of_unmarked {ev ev' : MarketEvent V} (h : ev.unmarked = ev'.unmarked) : ev.object = ev'.object := by
  have hobject := congrArg MarketEvent.object h
  exact hobject

namespace QualitySlot

/-- The events held back. -/
def pendingObjects (sl : QualitySlot V) : Multiset Nat := (sl.pending.items.map (·.2.event.object) : List Nat)

/-- The events in a slot. -/
def objects (sl : QualitySlot V) : Multiset Nat := sl.pendingObjects + objectsOf sl.ready

theorem pendingObjects_erase {sl : QualitySlot V} (hd : sl.pending.Distinct) {seq : Int} {h : Held V}
    (hget : sl.pending.get? seq = some h) :
    sl.pendingObjects = {h.event.object} + { sl with pending := sl.pending.erase seq }.pendingObjects := by
  obtain ⟨l, r, hitems, -, herase⟩ := hd.split hget
  simp only [pendingObjects, hitems, herase, List.map_append, List.map_cons, ← Multiset.coe_add, ← Multiset.cons_coe,
    ← Multiset.singleton_add]
  abel

theorem get?_of_erase {d : Dict Int (Held V)} {k seq : Int} {h : Held V} (hget : (d.erase k).get? seq = some h) :
    d.get? seq = some h := by
  rw [Dict.get?_erase] at hget
  split at hget
  · cases hget
  · exact hget

/-- What is held under a number already. -/
def overwritten (sl : QualitySlot V) (seq : Int) : List Nat := ((sl.pending.get? seq).map (·.event.object)).toList

theorem pendingObjects_set {sl : QualitySlot V} (hd : sl.pending.Distinct) (seq : Int) (h : Held V) :
    {h.event.object} + sl.pendingObjects =
      (sl.overwritten seq : Multiset Nat) + { sl with pending := sl.pending.set seq h }.pendingObjects := by
  rcases hget : sl.pending.get? seq with _ | o
  · simp only [pendingObjects, overwritten, hget, Dict.items_set_of_none hget, List.map_append, ← Multiset.coe_add, Option.map_none,
      Option.toList_none, Multiset.coe_nil, List.map_singleton, Multiset.coe_singleton]
    abel
  · obtain ⟨l, r, hitems, hset, -⟩ := hd.split hget
    simp only [pendingObjects, overwritten, hget, hitems, hset, List.map_append, List.map_cons, ← Multiset.coe_add,
      ← Multiset.cons_coe, ← Multiset.singleton_add, Option.map_some, Option.toList_some]
    abel

theorem objects_eq {sl sl' : QualitySlot V} (hpending : sl'.pending = sl.pending) (hready : sl'.ready = sl.ready) :
    sl'.objects = sl.objects := by
  rw [objects, objects, pendingObjects, pendingObjects, hpending, hready]

theorem objects_eq_zero {sl : QualitySlot V} (hpending : sl.pending.items = []) (hready : sl.ready = []) : sl.objects = 0 := by
  rw [objects, pendingObjects, hpending, hready]
  rfl

end QualitySlot

namespace SlotWork

/-- The events of the slot at work. -/
def objects (w : SlotWork V) : Multiset Nat := w.slot.objects

/-- No number is held twice. -/
def Whole (w : SlotWork V) : Prop := w.slot.pending.Distinct

variable (F : Floats V) (cfg : QualityLimits V) (rules : List (UserRule V))

theorem finishEvaluation_conserves (h : Held V) {w : SlotWork V} (hw : w.Whole) :
    Proc.Conserves Whole objects {h.event.object} (fun ev => {ev.object}) (finishEvaluation F cfg rules h) w := by
  have hr := finishEvaluation_finishes F cfg rules h w
  refine ⟨?_, ?_, ?_⟩
  · rw [Whole, hr.slot.pending]
    exact hw
  · intro ev hev
    rw [objects, objects, QualitySlot.objects_eq hr.slot.pending hr.slot.ready, object_eq_of_unmarked (hr.unmarked F cfg rules hev)]
  · intro e _
    rw [objects, objects, QualitySlot.objects_eq hr.slot.pending hr.slot.ready, Multiset.singleton_add]
    exact Multiset.lt_cons_self _ _

/-- What follows on is released: each event is kept in the slot or comes out, as told. -/
theorem release_conserves {keep : MarketEvent V → QualitySlot V → QualitySlot V} {out : MarketEvent V → Multiset Nat}
    {all : List (MarketEvent V) → Multiset Nat} (hnil : all [] = 0) (hcons : ∀ ev evs, all (ev :: evs) = out ev + all evs)
    (hpending : ∀ ev sl, (keep ev sl).pending = sl.pending)
    (hkeep : ∀ ev sl, {ev.object} + sl.objects = out ev + (keep ev sl).objects) (n : Nat) {w : SlotWork V} (hw : w.Whole) :
    Proc.Conserves Whole objects 0 all (release F cfg rules keep n) w := by
  induction n generalizing w with
  | zero => exact .pure hw hnil.symm
  | succ n ih =>
    rw [release]
    refine .read_bind ?_
    rcases hget : w.slot.pending.get? (w.slot.lastSeq + 1) with _ | h
    · exact .pure hw hnil.symm
    · have hmove : 0 + w.objects = {h.event.object} + w.slot.advance.objects := by
        have hp := QualitySlot.pendingObjects_erase hw hget
        simp only [objects, QualitySlot.objects, hp, QualitySlot.advance, zero_add]
        rw [add_assoc]
        rfl
      refine .modify_bind hmove ?_
      have hw' : Whole ⟨w.slot.advance, { w.tally with reorderRepaired := w.tally.reorderRepaired + 1 }⟩ :=
        Dict.Distinct.erase hw _
      refine .bind (finishEvaluation_conserves F cfg rules h hw') ?_
      intro ev t ht _ _
      refine .modify_bind (hkeep ev t.slot) ?_
      have hkept : Whole ⟨keep ev t.slot, t.tally⟩ := by
        rw [Whole, hpending]
        exact ht
      have hrest := ((ih hkept).frame (out ev)).of_eq (zero_add _) (fun _ => rfl)
      refine .bind hrest ?_
      intro evs u hu _ _
      exact .pure hu (by rw [hcons]; abel)

theorem complete_conserves (h : Held V) (ms : List Mark) {w : SlotWork V} (hw : w.Whole) :
    Proc.Conserves Whole objects {h.event.object} (fun ev => {ev.object}) (complete F cfg rules h ms) w := by
  have hobject : (h.event.markAll ms).object = h.event.object := object_eq_of_unmarked (h.event.unmarked_markAll ms)
  rw [complete]
  refine .modify_bind rfl ?_
  have hfinish := finishEvaluation_conserves F cfg rules { h with event := h.event.markAll ms }
    (show Whole ⟨w.slot, w.tally.bump ms⟩ from hw)
  refine .bind (hfinish.of_eq (by rw [hobject]) (fun _ => rfl)) ?_
  intro ev t ht _ _
  split
  · refine .read_bind ?_
    have hkeep : ∀ (ev : MarketEvent V) (sl : QualitySlot V),
        {ev.object} + sl.objects = 0 + QualitySlot.objects { sl with ready := sl.ready ++ [ev] } := by
      intro ev sl
      simp only [QualitySlot.objects, QualitySlot.pendingObjects, objectsOf_append, objectsOf_cons, objectsOf_nil]
      abel
    have hrelease : Proc.Conserves Whole objects 0 (fun _ => 0)
        (release F cfg rules (fun ev sl => { sl with ready := sl.ready ++ [ev] }) t.slot.pending.size) t := by
      refine release_conserves F cfg rules rfl ?_ ?_ hkeep _ ht
      · exact fun _ _ => (zero_add 0).symm
      · exact fun _ _ => rfl
    refine .bind ((hrelease.frame {ev.object}).of_eq (zero_add _) (fun _ => zero_add _)) ?_
    intro _ u hu _ _
    exact .pure hu rfl
  · exact .pure ht rfl

end SlotWork

namespace QualitySlot

/-- The events that a slot gives up when an event with a number comes: those held before a new epoch, and the one that is held
under the number. -/
def givenUp (F : Floats V) (cfg : QualityLimits V) (sl : QualitySlot V) (ev : MarketEvent V) (seq : Int) : List Nat :=
  if sl.epochReset F cfg ev seq then sl.pending.items.map (·.2.event.object)
  else if sl.hasSeq ∧ seq > sl.lastSeq ∧ sl.holds F cfg seq then sl.overwritten seq
  else []

theorem enter_objects (sl : QualitySlot V) (reset : Bool) (ev : MarketEvent V) :
    sl.objects = (if reset then sl.pendingObjects else 0) + (sl.enter reset ev).objects := by
  unfold enter objects pendingObjects
  rcases reset with _ | _
  · by_cases hsession : ev.sessionId.isSome <;> simp [hsession]
  · by_cases hsession : ev.sessionId.isSome <;> simp [hsession, clear, Dict.empty]

theorem enter_pending (sl : QualitySlot V) (reset : Bool) (ev : MarketEvent V) :
    (sl.enter reset ev).pending = if reset then .empty else sl.pending := by
  unfold enter
  rcases reset with _ | _
  · by_cases hsession : ev.sessionId.isSome <;> simp [hsession]
  · by_cases hsession : ev.sessionId.isSome <;> simp [hsession, clear]

theorem behind_held (cfg : QualityLimits V) (sl : QualitySlot V) (seq : Int) :
    (sl.behind cfg seq).1 ≠ .held ∧ (sl.behind cfg seq).2.pending = sl.pending ∧ (sl.behind cfg seq).2.ready = sl.ready := by
  unfold behind pushStale
  dsimp only
  split
  · split
    · exact ⟨nofun, rfl, rfl⟩
    · exact ⟨nofun, rfl, rfl⟩
  · split
    · exact ⟨nofun, rfl, rfl⟩
    · split
      · split
        · exact ⟨nofun, rfl, rfl⟩
        · exact ⟨nofun, rfl, rfl⟩
      · exact ⟨nofun, rfl, rfl⟩

/-- An event is held back where there is room, and nowhere else does the second stage touch what is held. -/
theorem place_held (F : Floats V) (cfg : QualityLimits V) (sl : QualitySlot V) (seq : Int) (h : Held V) :
    if sl.hasSeq ∧ seq > sl.lastSeq ∧ sl.holds F cfg seq then
      sl.place F cfg seq h = (.held, { sl with pending := sl.pending.set seq h })
    else (sl.place F cfg seq h).1 ≠ .held ∧ (sl.place F cfg seq h).2.pending = sl.pending ∧
      (sl.place F cfg seq h).2.ready = sl.ready := by
  unfold place
  rcases hseq : sl.hasSeq with _ | _
  · simp
  · by_cases hahead : seq > sl.lastSeq
    · by_cases hholds : sl.holds F cfg seq
      · simp [hahead, hholds, ahead, hseq]
      · simp only [hahead, hholds, ahead]
        split
        · simp at *
        · simp only [Bool.not_true, Bool.false_eq_true, if_false, if_true]
          split
          · split
            · exact ⟨nofun, rfl, rfl⟩
            · exact ⟨nofun, rfl, rfl⟩
          · exact ⟨nofun, rfl, rfl⟩
    · simp only [hahead, false_and, and_false, if_false, Bool.not_true, Bool.false_eq_true]
      exact sl.behind_held cfg seq

end QualitySlot

namespace SlotWork

variable (F : Floats V) (cfg : QualityLimits V) (rules : List (UserRule V))

/-- What a slot gives up, before and after the marks of a new epoch. -/
theorem givenUp_eq (sl : QualitySlot V) (h : Held V) (seq : Int) :
    let reset := sl.epochReset F cfg h.event seq
    let sl' := sl.enter reset (h.event.markAll (epochMarks reset))
    (sl.givenUp F cfg h.event seq : Multiset Nat) = (if reset then sl.pendingObjects else 0) +
      (if sl'.hasSeq ∧ seq > sl'.lastSeq ∧ sl'.holds F cfg seq then (sl'.overwritten seq : Multiset Nat) else 0) := by
  dsimp only
  rcases hreset : sl.epochReset F cfg h.event seq with _ | _
  · have henter : ∀ ev : MarketEvent V, sl.enter false ev = sl ∨ sl.enter false ev = { sl with sessionId := ev.sessionId } := by
      intro ev
      unfold QualitySlot.enter
      by_cases hsession : ev.sessionId.isSome
      · exact .inr (by simp [hsession])
      · exact .inl (by simp [hsession])
    rcases henter (h.event.markAll (epochMarks false)) with heq | heq
    · rw [heq]
      simp only [QualitySlot.givenUp, hreset, Bool.false_eq_true, if_false, zero_add]
      split <;> rfl
    · rw [heq]
      simp only [QualitySlot.givenUp, hreset, Bool.false_eq_true, if_false, zero_add]
      show _ = if sl.hasSeq ∧ seq > sl.lastSeq ∧ sl.holds F cfg seq then (sl.overwritten seq : Multiset Nat) else 0
      split <;> rfl
  · have hclear : (sl.enter true (h.event.markAll (epochMarks true))).hasSeq = false := by
      unfold QualitySlot.enter
      by_cases hsession : (h.event.markAll (epochMarks true)).sessionId.isSome <;> simp [hsession, QualitySlot.clear]
    simp [QualitySlot.givenUp, hreset, hclear, QualitySlot.pendingObjects]

/-- The event as it enters an epoch. -/
def entering (w : SlotWork V) (h : Held V) (seq : Int) : Held V :=
  { h with event := h.event.markAll (epochMarks (w.slot.epochReset F cfg h.event seq)) }

/-- The slot as the event enters it. -/
def entered (w : SlotWork V) (h : Held V) (seq : Int) : QualitySlot V :=
  w.slot.enter (w.slot.epochReset F cfg h.event seq) (w.entering F cfg h seq).event

/-- What is done with an event after the second stage. -/
def placed (h : Held V) : Placement → SlotM V (Option (MarketEvent V))
  | .held => return none
  | .done ms => do
    tallied ms
    return some (h.event.markAll ms)
  | .goesOn ms => do
    let ev ← complete F cfg rules h ms
    return some ev

theorem evaluateSequenced_apply (h : Held V) (seq : Int) (w : SlotWork V) :
    evaluateSequenced F cfg rules h seq w =
      placed F cfg rules (w.entering F cfg h seq) ((w.entered F cfg h seq).place F cfg seq (w.entering F cfg h seq)).1
        ⟨((w.entered F cfg h seq).place F cfg seq (w.entering F cfg h seq)).2,
          w.tally.bump (epochMarks (w.slot.epochReset F cfg h.event seq))⟩ := by
  simp only [evaluateSequenced, tallied, Proc.bind_apply, Proc.read_apply, Proc.modify_apply, entered, entering]
  generalize (QualitySlot.place F cfg _ seq _).1 = p
  cases p with
  | held => rfl
  | done ms => rfl
  | goesOn ms => rfl

theorem evaluateSequenced_conserves (h : Held V) (seq : Int) {w : SlotWork V} (hw : w.Whole) :
    Proc.Conserves Whole objects {h.event.object} (fun r => objectsOf r.toList + (w.slot.givenUp F cfg h.event seq : Multiset Nat))
      (evaluateSequenced F cfg rules h seq) w := by
  have hgiven := givenUp_eq F cfg w.slot h seq
  have hobject : (w.entering F cfg h seq).event.object = h.event.object := object_eq_of_unmarked (h.event.unmarked_markAll _)
  have henter : w.objects = _ + (w.entered F cfg h seq).objects := w.slot.enter_objects _ _
  have hwhole : (w.entered F cfg h seq).pending.Distinct := by
    rw [entered, QualitySlot.enter_pending]
    split
    · exact Dict.distinct_empty
    · exact hw
  have hplace := QualitySlot.place_held F cfg (w.entered F cfg h seq) seq (w.entering F cfg h seq)
  have happly := evaluateSequenced_apply F cfg rules h seq w
  change (w.slot.givenUp F cfg h.event seq : Multiset Nat) = _ +
    (if (w.entered F cfg h seq).hasSeq ∧ seq > (w.entered F cfg h seq).lastSeq ∧ (w.entered F cfg h seq).holds F cfg seq then
      ((w.entered F cfg h seq).overwritten seq : Multiset Nat) else 0) at hgiven
  by_cases hholds : (w.entered F cfg h seq).hasSeq ∧ seq > (w.entered F cfg h seq).lastSeq ∧
      (w.entered F cfg h seq).holds F cfg seq
  · rw [if_pos hholds] at hplace hgiven
    rw [hplace] at happly
    have hset := QualitySlot.pendingObjects_set hwhole seq (w.entering F cfg h seq)
    rw [hobject] at hset
    have hmove : {h.event.object} + w.objects = (w.slot.givenUp F cfg h.event seq : Multiset Nat) +
        QualitySlot.objects { w.entered F cfg h seq with
          pending := (w.entered F cfg h seq).pending.set seq (w.entering F cfg h seq) } := by
      have hsum : ∀ o r p q n p' : Multiset Nat, o + p = n + p' → o + (r + (p + q)) = r + n + (p' + q) := by
        intro o r p q n p' heq
        calc o + (r + (p + q)) = r + (o + p) + q := by abel
          _ = r + (n + p') + q := by rw [heq]
          _ = r + n + (p' + q) := by abel
      rw [hgiven, henter]
      exact hsum _ _ _ _ _ _ hset
    exact .of_apply happly hmove (.pure (Dict.Distinct.set hwhole _ _) (by simp))
  · rw [if_neg hholds] at hplace hgiven
    obtain ⟨hnot, hpending, hready⟩ := hplace
    have hmove : {h.event.object} + w.objects = {(w.entering F cfg h seq).event.object} +
        (w.slot.givenUp F cfg h.event seq : Multiset Nat) +
          ((w.entered F cfg h seq).place F cfg seq (w.entering F cfg h seq)).2.objects := by
      rw [hobject, hgiven, henter, QualitySlot.objects_eq hpending hready]
      abel
    refine .of_apply happly hmove ?_
    have hwhole' : Whole ⟨((w.entered F cfg h seq).place F cfg seq (w.entering F cfg h seq)).2,
        w.tally.bump (epochMarks (w.slot.epochReset F cfg h.event seq))⟩ := by
      rw [Whole, hpending]
      exact hwhole
    rcases hp : ((w.entered F cfg h seq).place F cfg seq (w.entering F cfg h seq)).1 with _ | ms | ms
    · exact absurd hp hnot
    · have hcomplete := complete_conserves F cfg rules (w.entering F cfg h seq) ms hwhole'
      refine .bind (hcomplete.frame _) ?_
      intro ev t ht _ _
      exact .pure ht (by simp)
    · refine .modify_bind rfl ?_
      refine .pure hwhole' ?_
      simp [object_eq_of_unmarked ((w.entering F cfg h seq).event.unmarked_markAll ms)]

/-! ## Draining -/

theorem release_out (n : Nat) {w : SlotWork V} (hw : w.Whole) :
    Proc.Conserves Whole objects 0 objectsOf (release F cfg rules (fun _ sl => sl) n) w :=
  release_conserves F cfg rules objectsOf_nil objectsOf_cons (fun _ _ => rfl) (fun _ _ => rfl) n hw

theorem skipTo_pending (sl : QualitySlot V) (seq : Int) :
    (sl.skipTo seq).pending = sl.pending.erase seq ∧ (sl.skipTo seq).ready = sl.ready := by
  unfold QualitySlot.skipTo
  dsimp only
  split
  · exact ⟨rfl, rfl⟩
  · exact ⟨rfl, rfl⟩

theorem skipTo_objects {sl : QualitySlot V} (hd : sl.pending.Distinct) {seq : Int} {h : Held V}
    (hget : sl.pending.get? seq = some h) : sl.objects = {h.event.object} + (sl.skipTo seq).objects := by
  obtain ⟨hpending, hready⟩ := skipTo_pending sl seq
  have hskip : (sl.skipTo seq).objects = { sl with pending := sl.pending.erase seq }.objects := QualitySlot.objects_eq hpending hready
  have herase := QualitySlot.pendingObjects_erase hd hget
  rw [hskip, QualitySlot.objects, QualitySlot.objects, herase, add_assoc]

theorem drainSeqs_conserves (seqs : List Int) {w : SlotWork V} (hw : w.Whole) :
    Proc.Conserves Whole objects 0 objectsOf (drainSeqs F cfg rules seqs) w := by
  induction seqs generalizing w with
  | nil => exact .pure hw rfl
  | cons seq seqs ih =>
    rw [drainSeqs]
    refine .read_bind ?_
    rcases hget : w.slot.pending.get? seq with _ | h
    · exact ih hw
    · refine .modify_bind rfl ?_
      have hmove : 0 + w.slot.objects = {h.event.object} + (w.slot.skipTo seq).objects := by
        rw [zero_add]
        exact skipTo_objects hw hget
      refine .modify_bind hmove ?_
      have hw' : (w.slot.skipTo seq).pending.Distinct := by
        rw [(skipTo_pending w.slot seq).1]
        exact Dict.Distinct.erase hw seq
      refine .bind (finishEvaluation_conserves F cfg rules { h with event := h.event.mark (.suspicious, .sequenceGap) } hw') ?_
      intro ev t ht _ _
      refine .read_bind ?_
      refine .bind (((release_out F cfg rules t.slot.pending.size ht).frame {ev.object}).of_eq (zero_add _) (fun _ => rfl)) ?_
      intro next u hu _ _
      refine .bind (((ih hu).frame (objectsOf next + {ev.object})).of_eq (zero_add _) (fun _ => rfl)) ?_
      intro evs v hv _ _
      refine .pure hv ?_
      rw [List.cons_append, objectsOf_cons, objectsOf_append]
      abel

theorem drainSlot_conserves (now : V) (force : Bool) {w : SlotWork V} (hw : w.Whole) :
    Proc.Conserves Whole objects 0 objectsOf (drainSlot F cfg rules now force) w := by
  rw [drainSlot]
  refine .read_bind ?_
  have hmove : 0 + w.slot.objects = objectsOf w.slot.ready + QualitySlot.objects { w.slot with ready := [] } := by
    simp only [QualitySlot.objects, QualitySlot.pendingObjects, objectsOf_nil]
    abel
  refine .modify_bind hmove ?_
  refine .read_bind ?_
  refine .bind (((drainSeqs_conserves F cfg rules _ (w := ⟨{ w.slot with ready := [] }, w.tally⟩) hw).frame
    (objectsOf w.slot.ready)).of_eq (zero_add _) (fun _ => rfl)) ?_
  intro evs t ht _ _
  refine .pure ht ?_
  rw [objectsOf_append]
  abel

/-! ## Nothing is left -/

section

variable {F cfg rules} {p : QualitySlot V → Prop} (hsame : ∀ sl sl', sl.SameSequence sl' → p sl → p sl')
  (hadvance : ∀ sl, p sl → p sl.advance) (hskip : ∀ sl seq, p sl → p (sl.skipTo seq))

include hsame

theorem finishEvaluation_leads (h : Held V) :
    Proc.Leads (fun w => p w.slot) (fun w => p w.slot) (finishEvaluation F cfg rules h) := fun w hw =>
  hsame _ _ (finishEvaluation_finishes F cfg rules h w).slot hw

include hadvance

theorem release_leads {keep : MarketEvent V → QualitySlot V → QualitySlot V} (hkeep : ∀ ev sl, p sl → p (keep ev sl)) (n : Nat) :
    Proc.Leads (fun w => p w.slot) (fun w => p w.slot) (release F cfg rules keep n) := by
  induction n with
  | zero => exact .pure (fun _ hw => hw) _
  | succ n ih =>
    rw [release]
    refine .read_bind ?_
    intro next
    cases next with
    | none => exact .pure (fun _ hw => hw) _
    | some h =>
      refine .modify_bind (r := fun w => p w.slot) (fun w hw => hadvance w.slot hw) ?_
      refine .seq (finishEvaluation_leads hsame h) ?_
      intro ev
      refine .modify_bind (r := fun w => p w.slot) (fun w hw => hkeep ev w.slot hw) ?_
      exact .seq ih (fun _ => .pure (fun _ hw => hw) _)

include hskip

theorem drainSeqs_leads (seqs : List Int) :
    Proc.Leads (fun w => p w.slot) (fun w => p w.slot) (drainSeqs F cfg rules seqs) := by
  induction seqs with
  | nil => exact .pure (fun _ hw => hw) _
  | cons seq seqs ih =>
    rw [drainSeqs]
    refine .read_bind ?_
    intro next
    cases next with
    | none => exact ih
    | some h =>
      refine .modify_bind (r := fun w => p w.slot) (fun _ hw => hw) ?_
      refine .modify_bind (r := fun w => p w.slot) (fun w hw => hskip w.slot seq hw) ?_
      refine .seq (finishEvaluation_leads hsame _) ?_
      intro ev
      refine .read_bind (fun held => ?_)
      refine .seq (release_leads hsame hadvance (fun _ _ hsl => hsl) held) ?_
      intro evs
      exact .seq ih (fun _ => .pure (fun _ hw => hw) _)

end

theorem absent_erase {d : Dict Int (Held V)} {seq : Int} (h : d.get? seq = none) (k : Int) : (d.erase k).get? seq = none := by
  rw [Dict.get?_erase, h]
  split <;> rfl

theorem absent_sameSequence (seq : Int) (sl sl' : QualitySlot V) (h : sl.SameSequence sl') (hp : sl.pending.get? seq = none) :
    sl'.pending.get? seq = none := by
  rw [h.pending]
  exact hp

/-- A number that is not held stays so. -/
theorem drainSeqs_absent (seq : Int) (seqs : List Int) :
    Proc.Leads (fun w => w.slot.pending.get? seq = none) (fun w => w.slot.pending.get? seq = none)
      (drainSeqs F cfg rules seqs) := by
  refine drainSeqs_leads (p := fun sl => sl.pending.get? seq = none) (absent_sameSequence seq) ?_ ?_ seqs
  · intro sl hp
    exact absent_erase hp _
  · intro sl k hp
    rw [(skipTo_pending sl k).1]
    exact absent_erase hp k

theorem drainSeqs_ready (seqs : List Int) :
    Proc.Leads (fun w => w.slot.ready = []) (fun w => w.slot.ready = []) (drainSeqs F cfg rules seqs) := by
  refine drainSeqs_leads (p := fun sl => sl.ready = []) ?_ ?_ ?_ seqs
  · intro sl sl' h hp
    rw [h.ready]
    exact hp
  · intro sl hp
    exact hp
  · intro sl k hp
    rw [(skipTo_pending sl k).2]
    exact hp

/-- The numbers that were drained are not held any more. -/
theorem drainSeqs_drained (seqs : List Int) {w : SlotWork V} {evs : List (MarketEvent V)}
    (hok : (drainSeqs F cfg rules seqs w).1 = .ok evs) {seq : Int} (hseq : seq ∈ seqs) :
    (drainSeqs F cfg rules seqs w).2.slot.pending.get? seq = none := by
  induction seqs generalizing w evs with
  | nil => cases hseq
  | cons k seqs ih =>
    -- the number itself is erased before the rest is drained; a later one is drained with the rest
    have hrest : ∀ u : SlotWork V, (k = seq → u.slot.pending.get? seq = none) → ∀ evs', (drainSeqs F cfg rules seqs u).1 = .ok evs' →
        (drainSeqs F cfg rules seqs u).2.slot.pending.get? seq = none := by
      intro u hu evs' hok'
      rcases List.mem_cons.mp hseq with rfl | hmem
      · exact drainSeqs_absent F cfg rules seq seqs u (hu rfl)
      · exact ih hok' hmem
    rw [drainSeqs, Proc.bind_apply, Proc.read_apply] at hok ⊢
    rcases hget : w.slot.pending.get? k with _ | h
    · simp only [hget] at hok ⊢
      exact hrest w (fun heq => heq ▸ hget) evs hok
    · simp only [hget, tallied] at hok ⊢
      rw [Proc.bind_apply, Proc.modify_apply] at hok ⊢
      dsimp only at hok ⊢
      rw [Proc.bind_apply, Proc.modify_apply] at hok ⊢
      dsimp only at hok ⊢
      obtain ⟨ev, -, happly⟩ := Proc.bind_ok hok
      rw [happly] at hok ⊢
      rw [Proc.bind_apply, Proc.read_apply] at hok ⊢
      dsimp only at hok ⊢
      obtain ⟨next, -, happly⟩ := Proc.bind_ok hok
      rw [happly] at hok ⊢
      obtain ⟨evs', hevs', happly⟩ := Proc.bind_ok hok
      rw [happly]
      refine hrest _ ?_ evs' hevs'
      rintro rfl
      -- neither the stages nor what is unlocked hold the number again
      refine release_leads (p := fun sl => sl.pending.get? k = none) (absent_sameSequence k) (fun _ hp => absent_erase hp _)
        (fun _ _ hp => hp) _ _ ?_
      refine finishEvaluation_leads (p := fun sl => sl.pending.get? k = none) (absent_sameSequence k) _ _ ?_
      show (w.slot.skipTo k).pending.get? k = none
      rw [(skipTo_pending w.slot k).1, Dict.get?_erase, if_pos rfl]

/-- By force, a slot is emptied. -/
theorem drainSlot_emptied (now : V) {w : SlotWork V} {evs : List (MarketEvent V)}
    (hok : (drainSlot F cfg rules now true w).1 = .ok evs) : (drainSlot F cfg rules now true w).2.objects = 0 := by
  rw [drainSlot] at hok ⊢
  rw [Proc.bind_apply, Proc.read_apply] at hok ⊢
  dsimp only at hok ⊢
  rw [Proc.bind_apply, Proc.modify_apply] at hok ⊢
  dsimp only at hok ⊢
  rw [Proc.bind_apply, Proc.read_apply] at hok ⊢
  dsimp only at hok ⊢
  obtain ⟨evs', hevs', happly⟩ := Proc.bind_ok hok
  rw [happly]
  have hready := drainSeqs_ready F cfg rules (QualitySlot.expired F cfg now true { w.slot with ready := [] })
    ⟨{ w.slot with ready := [] }, w.tally⟩ rfl
  have habsent : ∀ seq, (drainSeqs F cfg rules (QualitySlot.expired F cfg now true { w.slot with ready := [] })
      ⟨{ w.slot with ready := [] }, w.tally⟩).2.slot.pending.get? seq = none := by
    intro seq
    rcases hget : w.slot.pending.get? seq with _ | h
    · exact drainSeqs_absent F cfg rules seq _ _ hget
    · refine drainSeqs_drained F cfg rules _ hevs' ?_
      simp only [QualitySlot.expired, Bool.true_or, List.filter_true, List.mem_map, mem_sortBy]
      exact ⟨(seq, h), Dict.mem_of_get? hget, rfl⟩
  exact QualitySlot.objects_eq_zero (Dict.items_eq_nil habsent) hready

end SlotWork

end Mdrap
