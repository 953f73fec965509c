import Mdrap.Lemmas.Fields
import Mdrap.Lemmas.Step

/-!
# The lists of old numbers

A number from before the window goes into the list of its slot, unless it is in it, and the list is made where there is none. When the
sequence starts again, the lists of the slot and of the stream are emptied. No other stage changes the lists, and the journal does not
know them: a step leaves them as they were exactly where its event does not note an old number.
-/

namespace Mdrap

open Lib

variable {V : Type}

/-- The lists of old numbers are the same. -/
def SameOld (d d' : Dict String (List Int)) : Prop := ∀ k, d'.get? k = d.get? k

namespace EngineState

/-- The number is in the list of its slot, or the sequence starts again and has only empty lists. -/
def KnowsOld (s : EngineState V) (e : Epoch) (seq last : Int) : Prop :=
  ∃ old, s.sequenceStaleSeen.get? e.slot = some old ∧
    (seq ∈ old ∨ (old = [] ∧ last - seq > DEFAULT_SEQ_JUMP_LIMIT ∧ 1 ≤ (s.sequenceRegress.get? e.slot).getD 0 ∧
      ∀ other ∈ s.sequenceStaleSeen.get? e.stream, other = []))

/-- The event passes the checks with a number from before the window of its epoch that the lists do not know. -/
def NotesOld (s : EngineState V) (c : StepConfig V) (raw : RawEvent) (now : Json) (offset : Int) : Prop :=
  raw.payload.isObj = true ∧ ∃ f seq reset last, stageChecks c raw offset (raw.recvTs now) = .ok (.ok f) ∧ f.seq = some seq ∧
    s.resets c.py c.sessionPolicy raw f = .ok reset ∧
    s.sequenceState.get? (s.epochAt c.py raw f reset).slot = some last ∧ SEQUENCE_BITMAP_BITS ≤ last - seq ∧
    ¬s.KnowsOld (s.epochAt c.py raw f reset) seq last

end EngineState

/-- The list of a key, where there is one, is emptied. -/
def emptied (d : Dict String (List Int)) (k : String) : Dict String (List Int) := if d.contains k then d.set k [] else d

theorem get?_emptied (d : Dict String (List Int)) (k j : String) :
    (emptied d k).get? j = if j = k then (d.get? k).map (fun _ => []) else d.get? j := by
  unfold emptied Dict.contains
  rcases hk : d.get? k with _ | old
  · by_cases hj : j = k
    · simp [hj, hk]
    · simp [hj]
  · simp [Dict.get?_set]

/-- The lists of the slot and of the stream are emptied. -/
def emptiedAt (d : Dict String (List Int)) (e : Epoch) : Dict String (List Int) :=
  if e.slot ≠ e.stream then emptied (emptied d e.slot) e.stream else emptied d e.slot

theorem get?_emptiedAt (d : Dict String (List Int)) (e : Epoch) (k : String) :
    (emptiedAt d e).get? k = if k = e.slot ∨ k = e.stream then (d.get? k).map (fun _ => []) else d.get? k := by
  unfold emptiedAt
  rcases eq_or_ne e.slot e.stream with heq | hne
  · rw [if_neg (not_not.mpr heq), get?_emptied]
    simp only [← heq, or_self]
    split
    · rename_i hk
      rw [hk]
    · rfl
  · rw [if_pos hne, get?_emptied, get?_emptied, get?_emptied, if_neg hne.symm]
    by_cases hstream : k = e.stream
    · rw [if_pos hstream, if_pos (.inr hstream), hstream]
    · rw [if_neg hstream]
      by_cases hslot : k = e.slot
      · rw [if_pos hslot, if_pos (.inl hslot), hslot]
      · rw [if_neg hslot, if_neg (not_or.mpr ⟨hslot, hstream⟩)]

/-- The lists after a number from before the window. -/
def oldAfter (d : Dict String (List Int)) (e : Epoch) (seq dist : Int) (regress : Nat) : Dict String (List Int) :=
  let old := (d.get? e.slot).getD []
  let made := d.set e.slot old
  if seq ∈ old then made
  else if dist > DEFAULT_SEQ_JUMP_LIMIT ∧ 2 ≤ regress + 1 then emptiedAt made e
  else made.set e.slot (pushStale old seq)

theorem seqBehind_old (e : Epoch) (seq d : Int) (regress : Nat) (status : QualityStatus) (reasons : List Reason) (w : Work V) :
    (seqBehind e seq d regress status reasons w).2.state.sequenceStaleSeen =
      oldAfter w.state.sequenceStaleSeen e seq d regress := by
  simp only [seqBehind, look, update, Proc.bind_apply, Proc.read_apply, Proc.modify_apply, Dict.get?_set_self, Option.getD_some,
    oldAfter]
  by_cases hmem : seq ∈ (w.state.sequenceStaleSeen.get? e.slot).getD []
  · simp only [if_pos hmem]
    rfl
  simp only [if_neg hmem]
  by_cases hfar : d > DEFAULT_SEQ_JUMP_LIMIT
  · by_cases htwice : 2 ≤ regress + 1
    · simp only [if_pos hfar, if_pos htwice, if_pos (show _ ∧ _ from ⟨hfar, htwice⟩)]
      by_cases hslot : e.slot = e.stream
      · simp [seqResync, forSlots, recordSequence, record, update, Proc.bind_apply, hslot, emptiedAt, emptied]
      · simp [seqResync, forSlots, recordSequence, record, update, Proc.bind_apply, hslot, emptiedAt, emptied]
        rfl
    · simp only [if_pos hfar, if_neg htwice, if_neg (show ¬(_ ∧ _) from fun h => htwice h.2)]
      by_cases hslot : e.slot = e.stream
      · simp [seqStale, forSlots, record, update, Proc.bind_apply, hslot]
      · simp [seqStale, forSlots, record, update, Proc.bind_apply, hslot]
  · simp only [if_neg hfar, if_neg (show ¬(_ ∧ _) from fun h => hfar h.1)]
    by_cases hslot : e.slot = e.stream
    · simp [seqStale, forSlots, record, update, Proc.bind_apply, hslot]
    · simp [seqStale, forSlots, record, update, Proc.bind_apply, hslot]

/-- One more number is in the list, and it was not. -/
theorem pushStale_ne {old : List Int} {seq : Int} (h : seq ∉ old) : pushStale old seq ≠ old := by
  have hmem : seq ∈ pushStale old seq := by
    unfold pushStale
    dsimp only
    split
    · cases old with
      | nil => rename_i hlong; simp at hlong
      | cons a old => simp
    · simp
  intro heq
  rw [heq] at hmem
  exact h hmem

/-- A list that is there stays as it was when it is written anew. -/
theorem get?_set_same {d : Dict String (List Int)} {k : String} {old : List Int} (h : d.get? k = some old) (j : String) :
    (d.set k old).get? j = d.get? j := by
  rw [Dict.get?_set]
  split
  · rename_i hj
    rw [hj, h]
  · rfl

/-- A number from before the window leaves the lists as they were exactly where they know it. -/
theorem sameOld_oldAfter (s : EngineState V) (e : Epoch) (seq last : Int) :
    SameOld s.sequenceStaleSeen
        (oldAfter s.sequenceStaleSeen e seq (last - seq) ((s.sequenceRegress.get? e.slot).getD 0)) ↔ s.KnowsOld e seq last := by
  unfold oldAfter SameOld EngineState.KnowsOld
  rcases hold : s.sequenceStaleSeen.get? e.slot with _ | old
  · -- a list is made
    refine iff_of_false (fun h => ?_) (by rintro ⟨old, hnone, -⟩; cases hnone)
    have hslot := h e.slot
    rw [hold, Option.getD_none, if_neg List.not_mem_nil] at hslot
    split at hslot
    · rw [get?_emptiedAt, if_pos (.inl rfl), Dict.get?_set_self] at hslot
      cases hslot
    · rw [Dict.get?_set_self] at hslot
      cases hslot
  simp only [Option.getD_some, Option.some.injEq, exists_eq_left']
  by_cases hmem : seq ∈ old
  · rw [if_pos hmem]
    exact iff_of_true (get?_set_same hold) (.inl hmem)
  rw [if_neg hmem]
  by_cases hstart : last - seq > DEFAULT_SEQ_JUMP_LIMIT ∧ 2 ≤ (s.sequenceRegress.get? e.slot).getD 0 + 1
  · rw [if_pos hstart]
    have hregress : 1 ≤ (s.sequenceRegress.get? e.slot).getD 0 := by omega
    constructor
    · intro h
      have hown := h e.slot
      have hother := h e.stream
      rw [get?_emptiedAt, get?_set_same hold, if_pos (.inl rfl), hold, Option.map_some, Option.some_inj] at hown
      rw [get?_emptiedAt, get?_set_same hold, if_pos (.inr rfl)] at hother
      refine .inr ⟨hown.symm, hstart.1, hregress, fun other hin => ?_⟩
      rw [Option.mem_def.mp hin, Option.map_some, Option.some_inj] at hother
      exact hother.symm
    · rintro (hin | ⟨rfl, -, -, hempty⟩) k
      · exact absurd hin hmem
      rw [get?_emptiedAt, get?_set_same hold]
      split
      · rename_i hk
        rcases hother : s.sequenceStaleSeen.get? k with _ | other
        · rfl
        · rcases hk with rfl | rfl
          · rw [hold] at hother
            rw [← hother]
            rfl
          · rw [hempty other hother]
            rfl
      · rfl
  · rw [if_neg hstart]
    refine iff_of_false (fun h => ?_) ?_
    · have hslot := h e.slot
      rw [Dict.get?_set_self, hold, Option.some_inj] at hslot
      exact pushStale_ne hmem hslot
    · rintro (hin | ⟨-, hfar, hregress, -⟩)
      · exact hmem hin
      · exact hstart ⟨hfar, by omega⟩

/-- The stage of the sequence leaves the lists as they were, but for a number from before the window that they do not know. -/
theorem stageSequence_old (P : Py V) (raw : RawEvent) (instrument : String) (seq : Int) (recvTs : Json) (e : Epoch)
    (isReplay : Bool) (status : QualityStatus) (reasons : List Reason) (w : Work V) :
    SameOld w.state.sequenceStaleSeen
        (stageSequence P raw instrument seq recvTs e isReplay status reasons w).2.state.sequenceStaleSeen ↔
      ∀ last, w.state.sequenceState.get? e.slot = some last → SEQUENCE_BITMAP_BITS ≤ last - seq → w.state.KnowsOld e seq last := by
  obtain ⟨last, hlast, hfar, hbehind⟩ | ⟨hnear, hkeeps⟩ :=
    Keeps.stageSequence_cases P raw instrument seq recvTs e isReplay status reasons w
  · rw [hbehind, seqBehind_old, sameOld_oldAfter]
    constructor
    · intro hknows last' hlast' _
      rw [hlast, Option.some_inj] at hlast'
      exact hlast' ▸ hknows
    · exact fun h => h last hlast hfar
  · have hsame := hkeeps (g := fun v : Work V => v.state.sequenceStaleSeen) fun _ _ _ _ _ _ _ => rfl
    refine iff_of_true (fun k => congrArg (fun d : Dict String (List Int) => d.get? k) hsame) fun last hlast hfar => ?_
    have := hnear last hlast
    omega

/-! ## The step -/

/-- The lists of old numbers are kept. -/
abbrev KeepsOld (w w' : Work V) : Prop := Keeps (fun v => v.state.sequenceStaleSeen) w w'

theorem KeepsOld.sameOld {w w' : Work V} (h : KeepsOld w w') : SameOld w.state.sequenceStaleSeen w'.state.sequenceStaleSeen :=
  fun k => congrArg (fun d : Dict String (List Int) => d.get? k) h

theorem bumpCount_old (status : QualityStatus) : Proc.Frame KeepsOld (bumpCount status : StepM V Unit) := fun _ => rfl

theorem stageDedup_old (P : Py V) (raw : RawEvent) (f : Fields V) (status : QualityStatus) (reasons : List Reason) :
    Proc.Frame KeepsOld (stageDedup P raw f status reasons) :=
  .bind Keeps.trans (Keeps.look _) fun _ => Keeps.ite (Keeps.pure _) (Keeps.bind (Keeps.look _) fun _ =>
    Keeps.bind (Keeps.update fun _ => rfl) fun _ => Keeps.bind (Keeps.modify fun _ => rfl) fun _ => Keeps.pure _)

theorem laterStages_old (c : StepConfig V) (raw : RawEvent) (f : Fields V) (recvTs : Json) (e : Epoch) (order : Finding) :
    Proc.Frame KeepsOld (laterStages c raw f recvTs e order) :=
  Keeps.of_unpriced (Keeps.unpriced_laterStages c raw f recvTs e order) fun p => p.1.sequenceStaleSeen

/-- The stages leave the lists as they were, but for a number from before the window that they do not know. -/
theorem runStages_old (c : StepConfig V) (raw : RawEvent) (f : Fields V) (recvTs : Json) (isReplay : Bool) (w : Work V) :
    SameOld w.state.sequenceStaleSeen (runStages c raw f recvTs isReplay w).2.state.sequenceStaleSeen ↔
      ∀ seq reset last, f.seq = some seq → w.state.resets c.py c.sessionPolicy raw f = .ok reset →
        w.state.sequenceState.get? (w.state.epochAt c.py raw f reset).slot = some last → SEQUENCE_BITMAP_BITS ≤ last - seq →
          w.state.KnowsOld (w.state.epochAt c.py raw f reset) seq last := by
  rw [runStages_split]
  rcases hreset : w.state.resets c.py c.sessionPolicy raw f with err | reset
  · rw [Proc.bind_apply, stageSessionAndEpoch_error hreset]
    exact iff_of_true (fun _ => rfl) (fun _ _ _ _ h => by cases h)
  obtain ⟨js, sessions, times, hstage, -⟩ := stageSessionAndEpoch_ok hreset
  rw [Proc.bind_of_ok hstage, Keeps.after (g := fun v => v.state.sequenceStaleSeen) (fun order => laterStages_old c raw f recvTs _ order)]
  rcases hseq : f.seq with _ | seq
  · refine iff_of_true ?_ (fun _ _ _ h => by cases h)
    simp only [stageSequenceAndDedup, hseq]
    exact KeepsOld.sameOld (stageDedup_old c.py raw f .valid _ _)
  · simp only [stageSequenceAndDedup, hseq, Option.some.injEq, Except.ok.injEq]
    refine (stageSequence_old c.py raw f.instrument seq recvTs _ isReplay .valid _ _).trans ?_
    constructor
    · rintro h seq' reset' last rfl rfl
      exact h last
    · exact fun h last => h seq reset last rfl rfl

/-- A step up to its end, or to where it raises, leaves the lists as they were exactly where its event does not note an old number. -/
theorem judge_old (c : StepConfig V) (raw : RawEvent) (now : Json) (offset : Int) (isReplay : Bool) (w : Work V) :
    SameOld w.state.sequenceStaleSeen (judge c raw now offset isReplay w).2.state.sequenceStaleSeen ↔
      ¬w.state.NotesOld c raw now offset := by
  unfold judge EngineState.NotesOld
  cases hobj : raw.payload.isObj with
  | false =>
    exact iff_of_true (fun _ => rfl) (fun h => by cases h.1)
  | true =>
    simp only [if_true, true_and]
    rcases hchecks : stageChecks c raw offset (raw.recvTs now) with exc | d | f
    · exact iff_of_true (fun _ => rfl) (by rintro ⟨f, -, -, -, h, -⟩; cases h)
    · exact iff_of_true (fun _ => rfl) (by rintro ⟨f, -, -, -, h, -⟩; cases h)
    · rw [Proc.bind_of_ok (Proc.lift_apply _ w)]
      dsimp only
      rw [Keeps.after (g := fun v => v.state.sequenceStaleSeen) (fun found => Keeps.bind (bumpCount_old _) fun _ => Keeps.lift _),
        runStages_old]
      constructor
      · rintro h ⟨f', seq, reset, last, hf, hseq, hreset, hlast, hfar, hnot⟩
        cases hf
        exact hnot (h seq reset last hseq hreset hlast hfar)
      · intro h seq reset last hseq hreset hlast hfar
        by_contra hnot
        exact h ⟨f, seq, reset, last, rfl, hseq, hreset, hlast, hfar, hnot⟩

end Mdrap
