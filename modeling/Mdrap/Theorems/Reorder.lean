import Mdrap.Lemmas.Tame

/-!
# Events that are held back

The quality engine may hold an event back until the numbers before it have come. Whatever is passed to `evaluate` comes back once, from
that call or from `drain_expired`, exactly when no call gives an event up: by a new epoch while events are held, by holding an event
under a number that is held already, or by making room at the expense of a slot that is not empty.
-/

namespace Mdrap

open Lib

variable {V : Type}

namespace QualityCall

open QualityEngine

variable (F : Floats V) (s : QualitySetup V)

/-- The events that a call gives up. -/
def givenUp (e : QualityEngine V) : QualityCall V → Multiset Nat
  | .evaluate now ev => e.givenUp F s now ev
  | .drainExpired _ _ => 0

/-- A call that gives nothing up. -/
def Keeps (e : QualityEngine V) (c : QualityCall V) : Prop := c.givenUp F s e = 0

instance (e : QualityEngine V) (c : QualityCall V) : Decidable (Keeps F s e c) := inferInstanceAs (Decidable (_ = _))

/-- The events that the calls of a run give up. -/
def lost : QualityEngine V → List (QualityCall V) → Multiset Nat
  | _, [] => 0
  | e, c :: cs => c.givenUp F s e + lost (step F s e c).2 cs

theorem run_conserves (c : QualityCall V) {e : QualityEngine V} (he : e.Whole) :
    Proc.Conserves Whole objects (objectsOf c.passed) (fun evs => objectsOf evs + c.givenUp F s e) (c.run F s) e := by
  cases c with
  | evaluate now ev =>
    rw [run]
    refine .bind ((evaluate_conserves F s now ev he).of_eq (by simp [passed]) (fun _ => rfl)) ?_
    intro r t ht _ _
    exact .pure ht rfl
  | drainExpired now force => exact (drainExpired_conserves F s now force he).of_eq rfl (fun _ => by simp [givenUp])

theorem lost_eq_zero {e : QualityEngine V} {cs : List (QualityCall V)} :
    lost F s e cs = 0 ↔ Along (fun e c => (step F s e c).2) (Keeps F s) e cs := by
  induction cs generalizing e with
  | nil => exact ⟨fun _ => trivial, fun _ => rfl⟩
  | cons c cs ih =>
    rw [lost, add_eq_zero_iff_of_nonneg (Multiset.zero_le _) (Multiset.zero_le _), ih]
    rfl

theorem lost_append_drain (e : QualityEngine V) (cs : List (QualityCall V)) (now : V) (force : Bool) :
    lost F s e (cs ++ [.drainExpired now force]) = lost F s e cs := by
  induction cs generalizing e with
  | nil => rfl
  | cons c cs ih => rw [List.cons_append, lost, lost, ih]

variable {F s} {P : V → Prop}

theorem handed_conserves (hs : TameSetup F s P) {cs : List (QualityCall V)}
    (hcs : ∀ c ∈ cs, ∀ ev ∈ c.passed, ev.HasPrice P) {e : QualityEngine V} (he : e.Whole) (htame : Tame s P [] e) :
    objectsOf (cs.flatMap passed) + e.objects =
      objectsOf (handed F s e cs) + lost F s e cs + (runFrom (fun e c => (step F s e c).2) e cs).objects := by
  induction cs generalizing e with
  | nil => simp [handed, outcomes, lost]
  | cons c cs ih =>
    have hconserves := run_conserves F s c he
    obtain ⟨⟨evs, hevs⟩, htame'⟩ := run_tame hs (hcs c List.mem_cons_self) e htame
    have hrest := ih (fun c' hc' => hcs c' (List.mem_cons_of_mem _ hc')) hconserves.inv htame'
    have hone := hconserves.ok evs hevs
    have hback : handedBack (step F s e c).1 = evs := by
      rw [step, hevs]
      rfl
    rw [List.flatMap_cons, objectsOf_append, runFrom_cons, lost, handed, outcomes, List.flatMap_cons, objectsOf_append, hback]
    calc objectsOf c.passed + objectsOf (cs.flatMap passed) + e.objects
        = objectsOf (cs.flatMap passed) + (objectsOf c.passed + e.objects) := by abel
      _ = objectsOf (cs.flatMap passed) + (c.run F s e).2.objects + (objectsOf evs + c.givenUp F s e) := by
          rw [hone]
          abel
      _ = _ := by
          rw [hrest, handed]
          simp only [step]
          abel

theorem runFrom_whole {e : QualityEngine V} (he : e.Whole) (cs : List (QualityCall V)) :
    (runFrom (fun e c => (step F s e c).2) e cs).Whole := by
  induction cs generalizing e with
  | nil => exact he
  | cons c cs ih => exact ih (run_conserves F s c he).inv

theorem runFrom_tame (hs : TameSetup F s P) {cs : List (QualityCall V)} (hcs : ∀ c ∈ cs, ∀ ev ∈ c.passed, ev.HasPrice P)
    {e : QualityEngine V} (he : Tame s P [] e) : Tame s P [] (runFrom (fun e c => (step F s e c).2) e cs) := by
  induction cs generalizing e with
  | nil => exact he
  | cons c cs ih =>
    exact ih (fun c' hc' => hcs c' (List.mem_cons_of_mem _ hc')) (run_tame hs (hcs c List.mem_cons_self) e he).2

theorem objects_after_drain (hs : TameSetup F s P) {cs : List (QualityCall V)} (hcs : ∀ c ∈ cs, ∀ ev ∈ c.passed, ev.HasPrice P)
    (now : V) : (runFrom (fun e c => (step F s e c).2) QualityEngine.new (cs ++ [.drainExpired now true])).objects = 0 := by
  rw [runFrom_append]
  obtain ⟨⟨evs, hevs⟩, -⟩ := drainExpired_tame hs now true _ (runFrom_tame hs hcs Tame.new)
  exact drainExpired_emptied F s now (runFrom_whole .new cs) hevs

end QualityCall

open QualityCall in
/-- A call of `evaluate` returns its own event or nothing, and each event that is passed comes back once, by the end, exactly when no
call gives an event up. -/
theorem reorder_hands_back (F : Floats V) (s : QualitySetup V) {P : V → Prop} (hs : QualityEngine.TameSetup F s P)
    (cs : List (QualityCall V)) (hcs : ∀ c ∈ cs, ∀ ev ∈ c.passed, ev.HasPrice P) (now : V) :
    (∀ e now ev ev', (QualityEngine.evaluate F s now ev e).1 = .ok (some ev') → ev'.object = ev.object) ∧
      (objectsOf (handed F s .new (cs ++ [.drainExpired now true])) = objectsOf (cs.flatMap passed) ↔
        Along (fun e c => (QualityCall.step F s e c).2) (QualityCall.Keeps F s) .new cs) := by
  refine ⟨?_, ?_⟩
  · intro e now ev ev' hok
    exact object_eq_of_unmarked (QualityEngine.evaluate_unmarked F s hok ev' rfl)
  · have hcs' : ∀ c ∈ cs ++ [QualityCall.drainExpired now true], ∀ ev ∈ c.passed, ev.HasPrice P := by
      intro c hc
      rcases List.mem_append.mp hc with hc | hc
      · exact hcs c hc
      · rw [List.mem_singleton.mp hc]
        simp [passed]
    have hpassed : (cs ++ [QualityCall.drainExpired now true]).flatMap passed = cs.flatMap passed := by simp [passed]
    have hsum := handed_conserves hs hcs' .new .new
    have hnone : (QualityEngine.new : QualityEngine V).objects = 0 := rfl
    rw [objects_after_drain hs hcs now, lost_append_drain, hpassed, hnone, add_zero, add_zero] at hsum
    rw [hsum, ← lost_eq_zero]
    exact ⟨fun h => left_eq_add.mp h, fun h => by rw [h, add_zero]⟩

/-- The defaults, with events held back for a second. -/
def reordering : QualitySetup (Option ℚ) := .of { QualityLimits.default exactNumbers with reorderWindow := some 1 }

theorem reordering_tame : QualityEngine.TameSetup exactNumbers reordering (fun _ => True) :=
  ⟨by decide, fun _ => .of_square (fun _ => rfl) (by decide : (0 : Int) < 50) _⟩

/-- A status event with a number. -/
def statusAt (object : Nat) (seq : Int) : MarketEvent (Option ℚ) where
  object := object
  source := "A"
  instrumentId := "X"
  eventType := some .status
  exchangeTimestamp := some 1
  receiveTimestamp := some 1
  sequenceNumber := some seq
  price := none
  quantity := none
  bidPrice := none
  askPrice := none
  bidSize := none
  askSize := none
  sessionId := none
  venue := ""
  qualityStatus := .valid
  reasons := []

/-- One call for each event. -/
def evaluations (evs : List (MarketEvent (Option ℚ))) : List (QualityCall (Option ℚ)) := evs.map (.evaluate (some 0))

theorem reorder_hands_back_four :
    objectsOf (QualityCall.handed exactNumbers reordering .new
      (evaluations [statusAt 0 1, statusAt 1 4, statusAt 2 3, statusAt 3 2] ++ [.drainExpired (some 0) true])) = ↑[0, 1, 2, 3] := by
  have hback := (reorder_hands_back exactNumbers reordering reordering_tame
    (evaluations [statusAt 0 1, statusAt 1 4, statusAt 2 3, statusAt 3 2]) (fun _ _ _ _ _ _ => trivial) (some 0)).2
  exact hback.mpr (by decide +kernel)

/-- An event is held under a number that is held already: the first one of the two never comes back. -/
theorem reorder_hands_back_false :
    ¬∀ cs : List (QualityCall (Option ℚ)),
      objectsOf (QualityCall.handed exactNumbers reordering .new (cs ++ [.drainExpired (some 0) true])) =
        objectsOf (cs.flatMap QualityCall.passed) := by
  intro h
  have hheld := h (evaluations [statusAt 0 1, statusAt 1 3, statusAt 2 3])
  revert hheld
  decide +kernel

end Mdrap
