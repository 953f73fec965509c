import Mathlib.Algebra.Order.Field.Rat
import Mdrap.Book.Bbo
import Mdrap.Lib.Runs

/-!
# A book without quotes

When the last quote of an instrument goes, its bytes are dropped and its best bid and offer is marked as stale. A query with a time
looks at that time alone and sets the mark anew, so that what was marked comes back; nothing comes back where there was nothing.
-/

namespace Mdrap

open Lib

variable {V : Type} (F : Floats V)

namespace BboEngine

variable {e e' : BboEngine V} {inst : String} {book : Dict String (BboEvent V)}

/-- An event leaves no quote in the book of its instrument. -/
def Empties (e : BboEngine V) (event : BboEvent V) (active : Bool) (stillActive : String → Bool) : Prop :=
  ¬Useless event ∧ ∃ book e', e.bookOf event.instrumentId = some (book, e') ∧
    (prune F e'.quoteTtlS event.exchangeTimestamp stillActive (takeQuote F active event book)).items = []

/-- What has no best bid and offer has none when room was made. -/
theorem makeRoom_none (h : e.makeRoom = some e') {i : String} :
    (e.currentBbos.get? i = none → e'.currentBbos.get? i = none) ∧ (e.cachedBboJson.get? i = none → e'.cachedBboJson.get? i = none) := by
  unfold makeRoom at h
  split at h
  · split at h
    · cases h
    · cases h
      simp only [dropInstrument, Dict.get?_erase]
      exact ⟨fun h => by rw [h]; exact ite_self _, fun h => by rw [h]; exact ite_self _⟩
  · cases h
    exact ⟨id, id⟩

theorem bookOf_none (h : e.bookOf inst = some (book, e')) {i : String} :
    (e.currentBbos.get? i = none → e'.currentBbos.get? i = none) ∧ (e.cachedBboJson.get? i = none → e'.cachedBboJson.get? i = none) := by
  unfold bookOf at h
  split at h
  · cases h
    exact ⟨id, id⟩
  · obtain ⟨e'', hroom, heq⟩ := Option.map_eq_some_iff.mp h
    cases heq
    exact makeRoom_none hroom

/-- The best bid and offer of an instrument is there when its book was found or made. -/
theorem bookOf_own (h : e.bookOf inst = some (book, e')) :
    e'.currentBbos.get? inst = e.currentBbos.get? inst ∧ e'.quoteTtlS = e.quoteTtlS := by
  unfold bookOf at h
  split at h
  · cases h
    exact ⟨rfl, rfl⟩
  · rename_i hnone
    obtain ⟨e'', hroom, heq⟩ := Option.map_eq_some_iff.mp h
    cases heq
    unfold makeRoom at hroom
    split at hroom
    · split at hroom
      · cases hroom
      · rename_i oldInst old rest hitems
        cases hroom
        have hne : inst ≠ oldInst := by
          rintro rfl
          exact Dict.get?_eq_none_iff.mp hnone (by rw [hitems]; exact List.mem_cons_self)
        exact ⟨(Dict.get?_erase ..).trans (if_neg hne), rfl⟩
    · cases hroom
      exact ⟨rfl, rfl⟩

/-- What `observe` comes to: nothing, no quote, or a best bid and offer of the quotes that are left. -/
inductive Observed (event : BboEvent V) (active : Bool) (stillActive : String → Bool) (e : BboEngine V) :
    BboOutcome V × BboEngine V → Prop
  | ignored (h : Useless event) : Observed event active stillActive e (.ignored, e)
  | raised (h : ¬Useless event) (hbook : e.bookOf event.instrumentId = none) : Observed event active stillActive e (.raised, e)
  | emptied {book kept : Dict String (BboEvent V)} {e' : BboEngine V} (h : ¬Useless event)
      (hbook : e.bookOf event.instrumentId = some (book, e'))
      (hkept : prune F e'.quoteTtlS event.exchangeTimestamp stillActive (takeQuote F active event book) = kept) (hnone : kept.items = []) :
      Observed event active stillActive e
        (.emptied, { e' with books := e'.books.set event.instrumentId kept }.markEmpty event.instrumentId)
  | bbo {book kept : Dict String (BboEvent V)} {e' : BboEngine V} (h : ¬Useless event)
      (hbook : e.bookOf event.instrumentId = some (book, e'))
      (hkept : prune F e'.quoteTtlS event.exchangeTimestamp stillActive (takeQuote F active event book) = kept) (hsome : kept.items ≠ []) :
      Observed event active stillActive e
        (.bbo (consolidate F event.instrumentId event.exchangeTimestamp (bestBidOf F kept) (bestAskOf F kept)),
          { e' with books := e'.books.set event.instrumentId kept }.publish
            (consolidate F event.instrumentId event.exchangeTimestamp (bestBidOf F kept) (bestAskOf F kept)))

theorem observe_observed (event : BboEvent V) (active : Bool) (stillActive : String → Bool) (e : BboEngine V) :
    Observed F event active stillActive e (e.observe F event active stillActive) := by
  unfold observe
  by_cases h : Useless event
  · rw [if_pos h]
    exact .ignored h
  · rw [if_neg h]
    rcases hbook : e.bookOf event.instrumentId with _ | ⟨book, e'⟩
    · exact .raised h hbook
    · dsimp only
      split
      · rename_i hnone
        exact .emptied h hbook rfl hnone
      · rename_i hsome
        exact .bbo h hbook rfl hsome

end BboEngine

/-! ## Runs -/

/-- An engine in use, and the instruments whose last event left no quote. -/
structure BboRun (V : Type) where
  engine : BboEngine V
  emptied : String → Bool

namespace BboRun

open BboEngine

/-- One call. -/
def step (r : BboRun V) : BboCall V → BboRun V
  | .observe event active stillActive =>
    let (outcome, e) := r.engine.observe F event active stillActive
    match outcome with
    | .emptied => ⟨e, Function.update r.emptied event.instrumentId true⟩
    | .bbo _ => ⟨e, Function.update r.emptied event.instrumentId false⟩
    | _ => ⟨e, r.emptied⟩
  | .currentBbo inst allowStale now => ⟨(r.engine.currentBbo F inst allowStale now).2, r.emptied⟩

/-- A run at its beginning. -/
def new (quoteTtlS : V) (maxInstruments : Int) : BboRun V := ⟨.new quoteTtlS maxInstruments, fun _ => false⟩

/-- An event that leaves no quote of an instrument finds no best bid and offer of it. -/
def EmptiesNothing (r : BboRun V) : BboCall V → Prop
  | .observe event active stillActive =>
    Empties F r.engine event active stillActive → r.engine.currentBbos.get? event.instrumentId = none
  | .currentBbo _ _ _ => True

theorem step_wire {r : BboRun V} (h : ∀ inst, r.emptied inst = true → r.engine.cachedBboJson.get? inst = none) (c : BboCall V) :
    ∀ inst, (r.step F c).emptied inst = true → (r.step F c).engine.cachedBboJson.get? inst = none := by
  cases c with
  | observe event active stillActive =>
    have hobserved := observe_observed F event active stillActive r.engine
    simp only [step]
    intro inst hinst
    generalize r.engine.observe F event active stillActive = result at *
    cases hobserved with
    | ignored => exact h inst hinst
    | raised => exact h inst hinst
    | emptied _ hbook =>
      simp only [markEmpty, Dict.get?_erase, Function.update_apply] at hinst ⊢
      by_cases heq : inst = event.instrumentId
      · rw [if_pos heq]
      · rw [if_neg heq] at hinst ⊢
        exact (bookOf_none hbook).2 (h inst hinst)
    | bbo _ hbook =>
      simp only [publish, consolidate, Dict.get?_set, Function.update_apply] at hinst ⊢
      by_cases heq : inst = event.instrumentId
      · rw [if_pos heq] at hinst
        cases hinst
      · rw [if_neg heq] at hinst ⊢
        exact (bookOf_none hbook).2 (h inst hinst)
  | currentBbo inst' allowStale now =>
    intro inst hinst
    simp only [step, currentBbo] at hinst ⊢
    split
    · exact h inst hinst
    · exact h inst hinst

theorem step_current {r : BboRun V} (h : ∀ inst, r.emptied inst = true → r.engine.currentBbos.get? inst = none) {c : BboCall V}
    (hc : r.EmptiesNothing F c) : ∀ inst, (r.step F c).emptied inst = true → (r.step F c).engine.currentBbos.get? inst = none := by
  cases c with
  | observe event active stillActive =>
    have hobserved := observe_observed F event active stillActive r.engine
    simp only [step]
    intro inst hinst
    generalize r.engine.observe F event active stillActive = result at *
    cases hobserved with
    | ignored => exact h inst hinst
    | raised => exact h inst hinst
    | emptied huseful hbook hkept hnone =>
      have hempties : Empties F r.engine event active stillActive := ⟨huseful, _, _, hbook, hkept ▸ hnone⟩
      have hgone := (bookOf_none hbook).1 (hc hempties)
      simp only [markEmpty, hgone, Function.update_apply] at hinst ⊢
      by_cases heq : inst = event.instrumentId
      · rw [heq]
        exact hgone
      · rw [if_neg heq] at hinst
        exact (bookOf_none hbook).1 (h inst hinst)
    | bbo _ hbook =>
      simp only [publish, consolidate, Dict.get?_set, Function.update_apply] at hinst ⊢
      by_cases heq : inst = event.instrumentId
      · rw [if_pos heq] at hinst
        cases hinst
      · rw [if_neg heq] at hinst ⊢
        exact (bookOf_none hbook).1 (h inst hinst)
  | currentBbo inst' allowStale now =>
    intro inst hinst
    simp only [step, currentBbo] at hinst ⊢
    split
    · exact h inst hinst
    · rename_i bbo hbbo
      have hne : inst ≠ inst' := by
        rintro rfl
        rw [h inst hinst] at hbbo
        cases hbbo
      simp only [Dict.get?_set_ne _ hne]
      exact h inst hinst

/-- What was there when an event left no quote comes back with a query of a time that is not too late. -/
theorem comes_back {r : BboRun V} {event : BboEvent V} {active : Bool} {stillActive : String → Bool}
    (h : ¬r.EmptiesNothing F (.observe event active stillActive)) :
    ∃ bbo, r.engine.currentBbos.get? event.instrumentId = some bbo ∧
      (r.step F (.observe event active stillActive)).emptied event.instrumentId = true ∧
      ∀ now, F.lt r.engine.quoteTtlS (F.sub now bbo.timestamp) = false →
        ((r.step F (.observe event active stillActive)).engine.currentBbo F event.instrumentId false (some now)).1 =
          some { bbo with isStale := false } := by
  simp only [EmptiesNothing, Classical.not_imp] at h
  obtain ⟨⟨huseful, book, e', hbook, hempty⟩, hthere⟩ := h
  obtain ⟨bbo, hbbo⟩ := Option.ne_none_iff_exists'.mp hthere
  obtain ⟨hown, httl⟩ := bookOf_own hbook
  have hobserved := observe_observed F event active stillActive r.engine
  refine ⟨bbo, hbbo, ?_⟩
  simp only [step]
  generalize r.engine.observe F event active stillActive = result at *
  cases hobserved with
  | ignored hno => exact absurd hno huseful
  | raised _ hno => cases hno.symm.trans hbook
  | emptied _ hbook' hkept hnone =>
    cases hbook.symm.trans hbook'
    refine ⟨Function.update_self .., fun now hnow => ?_⟩
    simp only [currentBbo, markEmpty, hown, hbbo, Dict.get?_set_self, httl, hnow]
    rfl
  | bbo _ hbook' hkept hsome =>
    cases hbook.symm.trans hbook'
    exact absurd (hkept ▸ hempty) hsome

end BboRun

/-- As long as no event that leaves no quote of an instrument finds a best bid and offer of it, no query that does not allow stale
ones gives one until there is a new one, whatever its time is; and there are never bytes. A best bid and offer that is found comes
back with every query of a time that is not too late for it. -/
theorem emptied_stays_stale (quoteTtlS : V) (maxInstruments : Int) (es : List (BboCall V)) :
    let r := BboRun.new quoteTtlS maxInstruments
    (∀ fs, fs <+: es → ∀ inst, (runFrom (BboRun.step F) r fs).emptied inst = true →
      (runFrom (BboRun.step F) r fs).engine.getBboWireBytes inst = none) ∧
    (Along (BboRun.step F) (BboRun.EmptiesNothing F) r es → ∀ fs, fs <+: es → ∀ inst,
      (runFrom (BboRun.step F) r fs).emptied inst = true →
      ∀ now, ((runFrom (BboRun.step F) r fs).engine.currentBbo F inst false now).1 = none) ∧
    ∀ event active stillActive, ¬(runFrom (BboRun.step F) r es).EmptiesNothing F (.observe event active stillActive) →
      ∃ bbo, (runFrom (BboRun.step F) r es).engine.currentBbos.get? event.instrumentId = some bbo ∧
        ∀ now, F.lt (runFrom (BboRun.step F) r es).engine.quoteTtlS (F.sub now bbo.timestamp) = false →
          (((runFrom (BboRun.step F) r es).step F (.observe event active stillActive)).engine.currentBbo F event.instrumentId false
            (some now)).1 = some { bbo with isStale := false } := by
  intro r
  refine ⟨?_, ?_, ?_⟩
  · intro fs hfs
    have hall : Along (BboRun.step F) (fun _ _ => True) r es := .of_forall (fun _ _ _ => trivial) _
    exact hall.inv_prefix (I := fun r => ∀ inst, r.emptied inst = true → r.engine.cachedBboJson.get? inst = none)
      (fun r c h _ => BboRun.step_wire F h c) (fun inst h => nomatch h) hfs
  · intro hall fs hfs inst hinst now
    have hnone := hall.inv_prefix (I := fun r => ∀ inst, r.emptied inst = true → r.engine.currentBbos.get? inst = none)
      (fun r c h hc => BboRun.step_current F h hc) (fun inst h => nomatch h) hfs inst hinst
    rw [BboEngine.currentBbo, hnone]
  · intro event active stillActive h
    obtain ⟨bbo, hbbo, -, hback⟩ := BboRun.comes_back F h
    exact ⟨bbo, hbbo, hback⟩

/-- Exact numbers for the tests. -/
def bboFloats : Floats (Option ℚ) := .exact id (fun _ => 0)

/-- A quote of feed A at a time. -/
def bboQuoteAt (time : ℚ) : BboEvent (Option ℚ) := ⟨"BTC/USD", some .quote, some time, "A", some (some 100), some (some 1), some (some 101), some (some 1), .valid⟩

/-- A feed quotes, and is not active any more with its next quote. -/
def quotedThenSilent : List (BboCall (Option ℚ)) :=
  [.observe (bboQuoteAt 1) true (fun _ => true), .observe (bboQuoteAt 2) false (fun _ => false)]

/-- The book of the instrument is empty, and its best bid and offer is given as not stale. -/
theorem emptied_stays_stale_false :
    let r := runFrom (BboRun.step bboFloats) (.new (some 2) 10) quotedThenSilent
    r.emptied "BTC/USD" = true ∧ (r.engine.currentBbo bboFloats "BTC/USD" false (some (some 2))).1.isSome = true := by
  decide +kernel

end Mdrap
