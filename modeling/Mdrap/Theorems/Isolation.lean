import Mdrap.Lib.Runs
import Mdrap.Engine.Exact
import Mdrap.Lemmas.OtherStep

/-!
# Streams beside each other

What an engine finds of the events of one source and one instrument does not depend on the other events, as long as these do not
share anything with the stream: a key of its dictionaries, a place in the window of fingerprints or in the gap manager, or a price
that makes the comparison of the feeds fail. Keys are joined of names with colons, and so two streams can have the same key.
-/

namespace Mdrap

open Lib

variable {V : Type}

/-- An event that is handed to `step`, with the time of the clock. -/
structure StepInput where
  raw : RawEvent
  now : Json
  offset : Option Int
  isReplay : Bool

/-- `step` on the state and the gap manager. -/
def stepOn (c : StepConfig V) (s : EngineState V × Option GapManager) (x : StepInput) :
    EngineDecision V × EngineState V × Option GapManager :=
  stepAlone c x.raw x.now x.offset x.isReplay s.1 s.2

/-- The event is of the source and names the instrument. -/
def StepInput.isOf (P : Py V) (source instrument : String) (x : StepInput) : Bool :=
  decide (x.raw.sourceText P = source) && isWord (x.raw.payload.get "instrument") instrument

/-- Nothing that the event does or meets is shared between the stream and the others. -/
structure SharesNothing (c : StepConfig V) (source instrument : String) (s : EngineState V × Option GapManager) (x : StepInput) :
    Prop where
  keys : x.isOf c.py source instrument = false → ∀ name, x.raw.payload.get "instrument" = .str name →
    ∀ i j, slotKey (streamKey (x.raw.sourceText c.py) name) i ≠ slotKey (streamKey source instrument) j
  window : x.raw.payload.get "sequence" = .null → s.1.KeepsWindow source instrument
  feeds : x.isOf c.py source instrument = true → ∀ f,
    stageSchemaValidation c.py x.raw 0 (x.raw.recvTs x.now) = .ok (.ok f) →
      ∀ p, fieldValue c.py x.raw.payload "price" = some p →
        ∃ away, disagree c.py f.exchTs (feedPrices s.1.reconciliationState instrument source (p, f.exchTs)) = .ok away
  gaps : (stepOn c s x).2.2.map GapManager.unrecoverableCount = s.2.map GapManager.unrecoverableCount

/-- The state and the manager of the second engine mirror the stream in the first one. -/
def MirrorsStream (source instrument : String) (s s' : EngineState V × Option GapManager) : Prop :=
  Mirrors source instrument s.1 s'.1 ∧ Option.Rel (GapManager.Shows source instrument) s.2 s'.2

theorem isWord_iff {j : Json} {word : String} : isWord j word = true ↔ j = .str word := by
  cases j with
  | str s => simp [isWord]
  | _ => simp [isWord]

theorem isOf_iff {P : Py V} {source instrument : String} {x : StepInput} :
    x.isOf P source instrument = true ↔ x.raw.sourceText P = source ∧ x.raw.payload.get "instrument" = .str instrument := by
  rw [StepInput.isOf, Bool.and_eq_true, decide_eq_true_iff, isWord_iff]

theorem validated_offset {P : Py V} {raw : RawEvent} {offset : Int} (offset' : Int) {recvTs : Json} {f : Fields V}
    (h : stageSchemaValidation P raw offset recvTs = .ok (.ok f)) : stageSchemaValidation P raw offset' recvTs = .ok (.ok f) := by
  have halike := stageSchemaValidation_alike P raw offset offset' recvTs
  rw [h] at halike
  rcases hother : stageSchemaValidation P raw offset' recvTs with e | x
  · rw [hother] at halike
    exact halike.elim
  · rw [hother] at halike
    cases halike
    rfl

/-- The manager has given up no gap, and the mirror shows the stream. -/
theorem shows_of_count {source instrument : String} {n : Nat} {g g' : Option GapManager}
    (h : Option.Rel (GapManager.ShowsAt source instrument n) g g') (hcount : ∀ m, g = some m → m.unrecoverableCount = n) :
    Option.Rel (GapManager.Shows source instrument) g g' := by
  cases h with
  | some h => exact .some (h.2 (hcount _ rfl))
  | none => exact .none

theorem exists_count (g : Option GapManager) : ∃ n, ∀ m, g = some m → m.unrecoverableCount = n := by
  cases g with
  | none => exact ⟨0, fun m hm => nomatch hm⟩
  | some g =>
    refine ⟨g.unrecoverableCount, ?_⟩
    rintro _ ⟨rfl⟩
    rfl

section Step

variable {c : StepConfig V} {source instrument : String} {s s' : EngineState V × Option GapManager} {x : StepInput}
  (hx : SharesNothing c source instrument s x)
include hx

theorem count_stepOn {n : Nat} (hn : ∀ m, s.2 = some m → m.unrecoverableCount = n) :
    ∀ m, (stepOn c s x).2.2 = some m → m.unrecoverableCount = n := by
  intro m hm
  have hcount := hx.gaps
  rw [hm] at hcount
  rcases hg : s.2 with _ | g
  · rw [hg] at hcount
    cases hcount
  · rw [hg] at hcount
    exact (Option.some.inj hcount).trans (hn g hg)

theorem MirrorsStream.own (hM : MirrorsStream source instrument s s') (hown : x.isOf c.py source instrument = true) :
    (stepOn c s x).1.streamOutcome = (stepOn c s' x).1.streamOutcome ∧
      MirrorsStream source instrument (stepOn c s x).2 (stepOn c s' x).2 := by
  obtain ⟨hsource, hinstrument⟩ := isOf_iff.mp hown
  obtain ⟨n, hn⟩ := exists_count s.2
  have hgaps : Option.Rel (fun g g' => g.unrecoverableCount = n ∧ g.Shows source instrument g') s.2 s'.2 := by
    obtain ⟨-, hshows⟩ := hM
    generalize s.2 = g at hshows hn
    generalize s'.2 = g' at hshows
    cases hshows with
    | some h => exact .some ⟨hn _ rfl, h⟩
    | none => exact .none
  have hmirrored : Mirrors source instrument (Work.mk s.1 [] s.2).state (Work.mk s'.1 [] s'.2).state := hM.1
  obtain ⟨houtcome, hmirrors, hshows⟩ := own_step hsource hinstrument x.now x.offset x.offset x.isReplay hmirrored hgaps hx.window
    (fun o f hf => hx.feeds hown f (validated_offset 0 hf))
  exact ⟨houtcome, hmirrors, shows_of_count hshows (count_stepOn hx hn)⟩

theorem MirrorsStream.other (hM : MirrorsStream source instrument s s') (hother : x.isOf c.py source instrument = false) :
    MirrorsStream source instrument (stepOn c s x).2 s' := by
  obtain ⟨n, hn⟩ := exists_count s.2
  have hkeys : OtherKeys c.py source instrument x.raw := by
    intro name hname
    refine ⟨?_, ?_⟩
    · rintro ⟨hsource, rfl⟩
      rw [isOf_iff.mpr ⟨hsource, hname⟩] at hother
      cases hother
    · rintro k ⟨i, rfl⟩ ⟨j, hj⟩
      exact hx.keys hother name hname i j hj
  have hgaps : Option.Rel (GapManager.ShowsAt source instrument n) s.2 s'.2 := by
    obtain ⟨-, hshows⟩ := hM
    generalize s.2 = g at hshows hn
    generalize s'.2 = g' at hshows
    cases hshows with
    | some h => exact .some ⟨(hn _ rfl).ge, fun _ => h⟩
    | none => exact .none
  obtain ⟨hmirrors, hshows⟩ := other_step (w := ⟨s.1, [], s.2⟩) hkeys x.now x.offset x.isReplay hM.1 hx.window hgaps
  exact ⟨hmirrors, shows_of_count hshows (count_stepOn hx hn)⟩

end Step

/-- In a run in which the stream shares nothing with the other events, the engine finds of the events of the stream what an engine
finds that is given no others. -/
theorem streams_isolated (c : StepConfig V) (source instrument : String) (threshold : V) (capacity : Option Nat)
    (xs : List StepInput)
    (h : Along (fun s x => (stepOn c s x).2) (SharesNothing c source instrument) (.initial threshold, capacity.map .new) xs) :
    (outcomesOf (·.isOf c.py source instrument) (stepOn c) (.initial threshold, capacity.map .new) xs).map
        EngineDecision.streamOutcome =
      (outcomes (stepOn c) (.initial threshold, capacity.map .new) (xs.filter (·.isOf c.py source instrument))).map
        EngineDecision.streamOutcome := by
  refine outcomesOf_eq (R := MirrorsStream source instrument) ?_ ?_ ?_ h
  · intro s t x hst hx hown
    exact MirrorsStream.own hx hst hown
  · intro s t x hst hx hother
    exact MirrorsStream.other hx hst hother
  · refine ⟨⟨fun _ _ => rfl, rfl, rfl, le_refl _, by simp [EngineState.initial], ?_⟩, ?_⟩
    · intro d hd
      cases hd
    · cases capacity with
      | none => exact .none
      | some m => exact .some ⟨rfl, rfl, Nat.zero_le _⟩

/-- A halt of an instrument, with a sequence number. -/
def haltOf (source instrument : String) (seq : Int) : StepInput :=
  ⟨⟨.str source, .obj [("instrument", .str instrument), ("event_type", .str "HALT"), ("sequence", .int seq)], .int 1, .null,
    .json .null, .null⟩, .int 1, none, false⟩

/-- The engine's configuration with this policy. -/
def exactConfig (policy : SessionPolicy) : StepConfig PyNum := { py := exactPy, sessionPolicy := policy }

theorem head?_slotKey (source instrument : String) (n : Nat) :
    (slotKey (streamKey source instrument) n).toList.head? = source.toList.head?.or (some ':') := by
  rw [slotKey, streamKey]
  split
  · rcases hsource : source.toList with _ | ⟨c, cs⟩ <;> simp [hsource]
  · rcases hsource : source.toList with _ | ⟨c, cs⟩ <;> simp [hsource]

/-- A halt shares nothing with a stream whose key begins with another letter. -/
theorem sharesNothing_haltOf {source : String} {seq : Int} {s : EngineState PyNum × Option GapManager} (hs : s.2.isNone)
    (hstep : (stepOn (exactConfig .strict) s (haltOf source "x" seq)).2.2.isNone)
    (hsource : source = "a" ∨ source.toList.head? = some 'b') :
    SharesNothing (exactConfig .strict) "a" "x" s (haltOf source "x" seq) where
  keys hne name hname i j := by
    cases hname
    rcases hsource with rfl | hb
    · have hown : (haltOf "a" "x" seq).isOf exactPy "a" "x" = true := isOf_iff.mpr ⟨rfl, rfl⟩
      exact absurd (hown.symm.trans hne) (by simp)
    · intro hkey
      have hhead := congrArg (fun k => k.toList.head?) hkey
      simp only [head?_slotKey] at hhead
      rw [show (haltOf source "x" seq).raw.sourceText (exactConfig .strict).py = source from rfl, hb] at hhead
      exact absurd hhead (by decide)
  window hseq := nomatch hseq
  feeds _ f _ p hp := nomatch hp
  gaps := by
    rw [Option.isNone_iff_eq_none.mp hs, Option.isNone_iff_eq_none.mp hstep]

/-- Two sources with an instrument each that share nothing. -/
theorem streams_isolated_two :
    Along (fun s x => (stepOn (exactConfig .strict) s x).2) (SharesNothing (exactConfig .strict) "a" "x")
        (.initial (exactPy.dec 5 0), none) [haltOf "a" "x" 1, haltOf "b" "x" 7, haltOf "a" "x" 2] ∧
      (outcomesOf (·.isOf exactPy "a" "x") (stepOn (exactConfig .strict)) (.initial (exactPy.dec 5 0), none)
          [haltOf "a" "x" 1, haltOf "b" "x" 7, haltOf "a" "x" 2]).map EngineDecision.streamOutcome =
        (outcomes (stepOn (exactConfig .strict)) (.initial (exactPy.dec 5 0), none) [haltOf "a" "x" 1, haltOf "a" "x" 2]).map
          EngineDecision.streamOutcome := by
  have halong : Along (fun s x => (stepOn (exactConfig .strict) s x).2) (SharesNothing (exactConfig .strict) "a" "x")
      (.initial (exactPy.dec 5 0), none) [haltOf "a" "x" 1, haltOf "b" "x" 7, haltOf "a" "x" 2] := by
    refine ⟨sharesNothing_haltOf rfl (by decide +kernel) (.inl rfl), sharesNothing_haltOf (by decide +kernel) (by decide +kernel)
      (.inr rfl), sharesNothing_haltOf (by decide +kernel) (by decide +kernel) (.inl rfl), trivial⟩
  exact ⟨halong, streams_isolated (exactConfig .strict) "a" "x" (exactPy.dec 5 0) none _ halong⟩

/-- The source `a:b` with the instrument `c` has the key of the source `a` with the instrument `b:c`. -/
theorem streams_isolated_false :
    ¬∀ (policy : SessionPolicy) (source instrument : String) (xs : List StepInput),
      (outcomesOf (·.isOf exactPy source instrument) (stepOn (exactConfig policy)) (.initial (exactPy.dec 5 0), none) xs).map
          EngineDecision.streamOutcome =
        (outcomes (stepOn (exactConfig policy)) (.initial (exactPy.dec 5 0), none)
          (xs.filter (·.isOf exactPy source instrument))).map EngineDecision.streamOutcome := by
  intro h
  have hfalse := h .strict "a" "b:c" [haltOf "a:b" "c" 5, haltOf "a" "b:c" 5]
  revert hfalse
  decide +kernel

end Mdrap
