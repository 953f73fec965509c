import Mdrap.Lib.Runs
import Mdrap.Engine.Exact
import Mdrap.Lemmas.Sequence

/-!
# Two engines, one sequence

The engine and the quality engine both place the sequence numbers of a stream. They remember numbers from before the window in a
list each, and the lists differ in length: the engine's holds sixty-four, the quality engine's thirty-two. A number that is in the
longer list and not in the shorter one is a duplicate to one of them and new to the other.
-/

namespace Mdrap

open Lib

variable {V : Type}

/-- An event with a sequence number, of a stream and without a session. -/
structure Sequenced (P : Py V) (source instrument : String) where
  raw : RawEvent
  fields : Fields V
  recvTs : Json
  seq : Int
  inRange : 0 ≤ seq ∧ seq < 2 ^ 63
  ofSource : raw.sourceText P = source
  ofInstrument : fields.instrument = instrument
  hasSeq : fields.seq = some seq
  noSession : sessionOf P raw = none

variable {P : Py V} {source instrument : String}

/-- The engine places an event: the stages of the epoch and of the sequence, with the policy `strict`. -/
def placeInEngine (w : Work V) (x : Sequenced P source instrument) : Except PyError (Option Verdict) × Work V :=
  (do
    let e ← stageSessionAndEpoch P .strict x.raw x.fields
    let found ← stageSequence P x.raw x.fields.instrument x.seq x.recvTs e false .valid (if e.reset then [.epochReset] else [])
    return some ⟨found.status, found.reasons⟩ : StepM V (Option Verdict)) w

/-- The quality engine places an event: its second stage, without reordering. -/
def placeInSlot (slots : Nat) (sl : SlotState V) (x : Sequenced P source instrument) :
    Except PyError (Option Verdict) × SlotState V :=
  match sl.place P (.inOrder slots) (.plain x.seq x.fields.exchTs) with
  | .ok (p, sl') => (.ok p.verdict, sl')
  | .error e => (.error e, sl)

/-- The engine and a slot know the same of a stream, but for the length of the list. -/
structure Alike (stream : String) (w : Work V) (sl : SlotState V) : Prop where
  track : sl.track = (w.state.track stream).shortened
  begun : sl.Begun
  noGaps : w.gaps = none
  noEpoch : w.state.epochState.get? stream = none

theorem placeInEngine_eq {w : Work V} (x : Sequenced P source instrument) (hgaps : w.gaps = none)
    (hepoch : w.state.epochState.get? (streamKey source instrument) = none) :
    let v := (w.state.track (streamKey source instrument)).place 64 x.seq
    (placeInEngine w x).1 = .ok (some v.1) ∧ (placeInEngine w x).2.state.track (streamKey source instrument) = v.2 ∧
      (placeInEngine w x).2.gaps = none ∧
      (placeInEngine w x).2.state.epochState.get? (streamKey source instrument) = none := by
  obtain ⟨raw, fields, recvTs, seq, hrange, rfl, rfl, hseq, hsession⟩ := x
  obtain ⟨hok, htrack, hgaps', hepoch'⟩ := stageSessionAndEpoch_strict P raw fields w hsession hepoch
  rcases hfirst : stageSessionAndEpoch P .strict raw fields w with ⟨y, w'⟩
  simp only [hfirst] at hok htrack hgaps' hepoch'
  subst hok
  have hnone : w'.gaps = none := hgaps'.trans hgaps
  obtain ⟨hok, htrack', hgaps'', hepoch'', -⟩ := stageSequence_track P raw fields.instrument seq recvTs
    ⟨0, streamKey (raw.sourceText P) fields.instrument, streamKey (raw.sourceText P) fields.instrument, none, false⟩
    false .valid [] w' hnone
  rcases hsecond : stageSequence P raw fields.instrument seq recvTs
    ⟨0, streamKey (raw.sourceText P) fields.instrument, streamKey (raw.sourceText P) fields.instrument, none, false⟩ false .valid
    [] w' with ⟨z, w''⟩
  simp only [hsecond, htrack] at hok htrack' hgaps'' hepoch''
  subst hok
  have hplace : placeInEngine w ⟨raw, fields, recvTs, seq, hrange, rfl, rfl, hseq, hsession⟩ =
      (.ok (some ((w.state.track (streamKey (raw.sourceText P) fields.instrument)).place 64 seq).1), w'') := by
    simp [placeInEngine, Proc.bind_apply, hfirst, hsecond, Verdict.finding]
  rw [hplace]
  refine ⟨rfl, htrack', hgaps'', ?_⟩
  rw [hepoch'', hepoch']
  exact hepoch

theorem placeInSlot_eq (slots : Nat) {sl : SlotState V} (hsl : sl.Begun) (x : Sequenced P source instrument) :
    (placeInSlot slots sl x).1 = .ok (some (sl.track.place 32 x.seq).1) ∧
      (placeInSlot slots sl x).2.track = (sl.track.place 32 x.seq).2 ∧ (placeInSlot slots sl x).2.Begun := by
  obtain ⟨r, hr, hverdict, htrack, hbegun⟩ := sl.place_track P slots hsl x.seq x.fields.exchTs
  have hplace : placeInSlot slots sl x = (.ok r.1.verdict, r.2) := by rw [placeInSlot, hr]
  rw [hplace]
  exact ⟨by rw [hverdict], htrack, hbegun⟩

/-- The engine keeps to thirty-two: a number from before the window that it has in its list is among the newest thirty-two of it. -/
def SettledIn (w : Work V) (x : Sequenced P source instrument) : Prop :=
  (w.state.track (streamKey source instrument)).Settled x.seq

instance (w : Work V) (x : Sequenced P source instrument) : Decidable (SettledIn w x) :=
  inferInstanceAs (Decidable (Track.Settled _ _))

theorem Alike.step {slots : Nat} {w : Work V} {sl : SlotState V} {x : Sequenced P source instrument}
    (h : Alike (streamKey source instrument) w sl) (hx : SettledIn w x) :
    (placeInEngine w x).1 = (placeInSlot slots sl x).1 ∧
      Alike (streamKey source instrument) (placeInEngine w x).2 (placeInSlot slots sl x).2 := by
  obtain ⟨hverdict, htrack, hgaps, hepoch⟩ := placeInEngine_eq x h.noGaps h.noEpoch
  obtain ⟨hverdict', htrack', hbegun⟩ := placeInSlot_eq slots h.begun x
  have hshort := (Track.place_shortened (w.state.track (streamKey source instrument)) x.seq).1 hx
  rw [h.track, hshort] at hverdict' htrack'
  refine ⟨hverdict.trans hverdict'.symm, ?_, hbegun, hgaps, hepoch⟩
  rw [htrack', htrack]

theorem Alike.settled {slots : Nat} {w : Work V} {sl : SlotState V} {x : Sequenced P source instrument}
    (h : Alike (streamKey source instrument) w sl) (heq : (placeInEngine w x).1 = (placeInSlot slots sl x).1) : SettledIn w x := by
  obtain ⟨hverdict, -⟩ := placeInEngine_eq x h.noGaps h.noEpoch
  obtain ⟨hverdict', -⟩ := placeInSlot_eq slots h.begun x
  rw [hverdict, hverdict', h.track, Except.ok.injEq, Option.some.injEq] at heq
  exact (Track.place_shortened (w.state.track (streamKey source instrument)) x.seq).2 heq

/-- Fed the events of one stream from the start, the two engines give the same verdicts exactly when no event repeats a number from
before the window that the engine still lists and that thirty-two others have followed. -/
theorem sequence_verdicts (slots : Nat) (threshold : V) (xs : List (Sequenced P source instrument)) :
    outcomes placeInEngine ⟨.initial threshold, [], none⟩ xs = outcomes (placeInSlot slots) .new xs ↔
      Along (fun w x => (placeInEngine w x).2) SettledIn ⟨.initial threshold, [], none⟩ xs := by
  refine outcomes_eq_iff (R := Alike (streamKey source instrument)) ?_ ?_ ?_ xs
  · intro w sl x h hx
    exact h.step hx
  · intro w sl x h heq
    exact h.settled heq
  · exact ⟨rfl, fun _ => ⟨rfl, rfl⟩, rfl, rfl⟩

/-- The halts of an instrument, with these numbers. -/
def halts (seqs : List (Fin (2 ^ 63))) : List (Sequenced exactPy "A" "X") :=
  seqs.map (fun seq =>
    { raw := ⟨.str "A", .obj [("instrument", .str "X"), ("event_type", .str "HALT"), ("sequence", .int seq.val)], .int 1, .null,
        .json .null, .null⟩
      fields := ⟨"X", .halt, some seq.val, exactPy.dec 1 0⟩
      recvTs := .int 1
      seq := seq.val
      inRange := ⟨by omega, by omega⟩
      ofSource := rfl
      ofInstrument := rfl
      hasSeq := rfl
      noSession := rfl })

/-- Thirty-three numbers from before the window, and the first of them again: a duplicate to the engine, which the quality engine has
forgotten. -/
theorem sequence_verdicts_false :
    ¬∀ xs : List (Sequenced exactPy "A" "X"),
      outcomes placeInEngine ⟨.initial (exactPy.dec 5 (-2)), [], none⟩ xs = outcomes (placeInSlot 32) .new xs := by
  intro h
  have hlast := congrArg List.getLast? (h (halts (2000 :: (List.range 33).map (fun i => Fin.ofNat _ (1001 + i)) ++ [1001])))
  revert hlast
  decide +kernel

end Mdrap
