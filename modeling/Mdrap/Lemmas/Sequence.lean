import Mdrap.Lib.SeenBits
import Mdrap.Quality.Slot

/-!
# The sequence automaton

Both engines place a number by what they remember of its stream: the last number, a window of the numbers seen before it, the
first number of a jump ahead, how often the stream has gone far back, and a list of numbers from before the window. `Track.place`
says what they do, with the length of that list as a parameter. The engine keeps the parts under its keys, the quality engine in
a slot; `stageSequence_track` and `place_track` say that each of them is this automaton.
-/

namespace Mdrap

open Lib

variable {V : Type}

theorem shiftSeen_bits (seen : Nat) (jump : Int) : shiftSeen seen jump = shiftBits 64 seen jump := by
  have hmask : SEQUENCE_BITMAP_MASK = 2 ^ 64 - 1 := by decide
  rw [shiftSeen, shiftBits, hmask, Nat.and_two_pow_sub_one_eq_mod]
  rfl

/-- What is remembered of a stream. -/
structure Track where
  last : Option Int
  seen : Nat
  cand : Int
  regress : Nat
  stale : List Int
  deriving DecidableEq

/-- How a number is placed: the status it calls for, and the reasons. -/
structure Verdict where
  status : QualityStatus
  reasons : List Reason
  deriving DecidableEq

namespace Track

/-- A stream of which nothing was seen. -/
def new : Track := ⟨none, 0, 0, 0, []⟩

/-- One more number in a list that holds so many. -/
def push (cap : Nat) (stale : List Int) (seq : Int) : List Int :=
  if cap < (stale ++ [seq]).length then (stale ++ [seq]).tail else stale ++ [seq]

/-- A number ahead of the last one. -/
def ahead (t : Track) (last seq : Int) : Verdict × Track :=
  if seq - last > DEFAULT_SEQ_JUMP_LIMIT then
    (⟨.suspicious, [.sequenceGap]⟩,
      if t.cand ≠ 0 ∧ seq > t.cand - 1 ∧ seq - (t.cand - 1) ≤ DEFAULT_SEQ_JUMP_LIMIT then
        { t with last := some seq, seen := 1, cand := 0 }
      else { t with cand := seq + 1 })
  else
    (if seq - last > 1 then ⟨.suspicious, [.sequenceGap]⟩ else ⟨.valid, []⟩,
      { t with last := some seq, seen := shiftSeen t.seen (seq - last), cand := 0 })

/-- A number from before the window that is not in the list. -/
def farBehind (cap : Nat) (t : Track) (last seq : Int) : Track :=
  if last - seq > DEFAULT_SEQ_JUMP_LIMIT then
    if 2 ≤ t.regress + 1 then ⟨some seq, 1, 0, 0, []⟩ else { t with regress := t.regress + 1, stale := push cap t.stale seq }
  else { t with regress := 0, stale := push cap t.stale seq }

/-- The last number again, or one before it. -/
def behind (cap : Nat) (t : Track) (last seq : Int) : Verdict × Track :=
  if last - seq < SEQUENCE_BITMAP_BITS then
    if t.seen.testBit (last - seq).toNat then
      (⟨.invalid, .duplicate :: if last - seq > 0 then [.outOfOrder] else []⟩, t)
    else (⟨.suspicious, [.outOfOrder]⟩, { t with seen := t.seen ||| 1 <<< (last - seq).toNat })
  else if seq ∈ t.stale then (⟨.invalid, [.duplicate, .outOfOrder]⟩, t)
  else (⟨.suspicious, [.outOfOrder]⟩, t.farBehind cap last seq)

/-- A number is placed. -/
def place (cap : Nat) (t : Track) (seq : Int) : Verdict × Track :=
  match t.last with
  | none => (⟨.valid, []⟩, { t with last := some seq, seen := 1, cand := 0, regress := 0 })
  | some last => if seq > last then t.ahead last seq else t.behind cap last seq

end Track

/-! ## The engine -/

/-- What the engine remembers under a key. -/
def EngineState.track (s : EngineState V) (key : String) : Track :=
  ⟨s.sequenceState.get? key, (s.sequenceSeen.get? key).getD 0, (s.sequenceCand.get? key).getD 0,
    (s.sequenceRegress.get? key).getD 0, (s.sequenceStaleSeen.get? key).getD []⟩

@[simp] theorem QualityStatus.merge_valid (s : QualityStatus) : s.merge .valid = s := by cases s <;> rfl

@[simp] theorem QualityStatus.valid_merge (s : QualityStatus) : QualityStatus.merge .valid s = s := by cases s <;> rfl

/-- The finding for a verdict. -/
def Verdict.finding (v : Verdict) (status : QualityStatus) (reasons : List Reason) : Finding :=
  ⟨status.merge v.status, reasons ++ v.reasons, v.status = .invalid⟩

/-- Without a gap manager, the stage is the automaton with a list of sixty-four. -/
theorem stageSequence_track (P : Py V) (raw : RawEvent) (instrument : String) (seq : Int) (recvTs : Json) (e : Epoch)
    (isReplay : Bool) (status : QualityStatus) (reasons : List Reason) (w : Work V) (hw : w.gaps = none) :
    let r := stageSequence P raw instrument seq recvTs e isReplay status reasons w
    let v := (w.state.track e.slot).place 64 seq
    r.1 = .ok (v.1.finding status reasons) ∧ r.2.state.track e.slot = v.2 ∧ r.2.gaps = none ∧
      r.2.state.epochState = w.state.epochState ∧ r.2.state.sessionState = w.state.sessionState := by
  obtain ⟨epoch, stream, slot, session, reset⟩ := e
  intro r v
  have hr : r = stageSequence P raw instrument seq recvTs ⟨epoch, stream, slot, session, reset⟩ isReplay status reasons w := rfl
  have hv : v = (w.state.track slot).place 64 seq := rfl
  clear_value r v
  subst hr
  subst hv
  simp only [stageSequence, look, Proc.bind_apply, Proc.read_apply, Track.place, EngineState.track]
  rcases hlast : w.state.sequenceState.get? slot with _ | last
  · rcases eq_or_ne slot stream with rfl | he
    all_goals simp [seqFirst, forSlots, Dict.get?_set, Proc.bind_apply, recordSequence, record, update, Verdict.finding, *]
  · simp only
    split
    · simp only [Track.ahead]
      split
      · by_cases hnear : (w.state.sequenceCand.get? slot).getD 0 ≠ 0 ∧ seq > (w.state.sequenceCand.get? slot).getD 0 - 1 ∧
            seq - ((w.state.sequenceCand.get? slot).getD 0 - 1) ≤ DEFAULT_SEQ_JUMP_LIMIT
        · simp only [seqJump, if_pos hnear]
          rcases eq_or_ne slot stream with rfl | he
          all_goals simp [forSlots, Dict.get?_set, Proc.bind_apply, recordSequence, record, update, Verdict.finding, *]
        · simp only [seqJump, if_neg hnear]
          rcases eq_or_ne slot stream with rfl | he
          all_goals simp [forSlots, Dict.get?_set, Proc.bind_apply, record, update, Verdict.finding, *]
      · split <;> cases isReplay <;> rcases eq_or_ne slot stream with rfl | he
        all_goals
          simp [forSlots, Dict.get?_set, Proc.bind_apply, recordSequence, record, update, Verdict.finding, openGaps, seqAdvance, *]
    · simp only [Track.behind]
      split
      · split
        · simp [Verdict.finding, hw, hlast]
        · rcases eq_or_ne slot stream with rfl | he
          all_goals simp [fillGap, seqLate, forSlots, Dict.get?_set, Proc.bind_apply, record, update, Verdict.finding, *]
      · simp only [seqBehind, Proc.bind_apply, look, update, Proc.read_apply, Proc.modify_apply, Dict.get?_set_self, Option.getD_some]
        split
        · simp [Verdict.finding, hw, hlast]
        · simp only [Track.farBehind]
          split
          · split
            · rcases eq_or_ne slot stream with rfl | he
              · simp [seqResync, forSlots, Proc.bind_apply, recordSequence, record, update, Verdict.finding, Dict.contains, hw]
              · -- the list of the stream is emptied too, and is another one
                by_cases hstale : (w.state.sequenceStaleSeen.get? stream).isSome = true
                all_goals
                  simp [seqResync, forSlots, Dict.get?_set, Proc.bind_apply, recordSequence, record, update, Verdict.finding,
                    Dict.contains, he, he.symm, hstale, hw]
            · rcases eq_or_ne slot stream with rfl | he
              all_goals
                simp [seqStale, forSlots, Dict.get?_set, Proc.bind_apply, record, update, Verdict.finding, pushStale, Track.push, *]
          · rcases eq_or_ne slot stream with rfl | he
            all_goals simp [seqStale, forSlots, Dict.get?_set, Proc.bind_apply, record, update, Verdict.finding, pushStale, Track.push, *]

theorem noteSession_none (stream : String) (current : Option String) (epoch : Nat) :
    (stageSessionAndEpoch.noteSession stream none current epoch false : StepM V Unit) = pure () := rfl

/-- In a stream that has had no reset, an event without a session changes nothing that the sequence stage reads. -/
theorem stageSessionAndEpoch_strict (P : Py V) (raw : RawEvent) (f : Fields V) (w : Work V) (hsession : sessionOf P raw = none)
    (hepoch : w.state.epochState.get? (streamKey (raw.sourceText P) f.instrument) = none) :
    let stream := streamKey (raw.sourceText P) f.instrument
    let r := stageSessionAndEpoch P .strict raw f w
    r.1 = .ok ⟨0, stream, stream, none, false⟩ ∧ (∀ key, r.2.state.track key = w.state.track key) ∧ r.2.gaps = w.gaps ∧
      r.2.state.epochState = w.state.epochState := by
  intro stream r
  have hr : r = stageSessionAndEpoch P .strict raw f w := rfl
  clear_value r
  subst hr
  by_cases hts : (w.state.epochTs.get? (streamKey (raw.sourceText P) f.instrument)).any (fun ts => P.eq ts f.exchTs)
  · simp [stageSessionAndEpoch, noteSession_none, stageSessionAndEpoch.noteTs, look, Proc.bind_apply, hsession,
      hepoch, epochReset, slotKey, hts, stream]
  · simp [stageSessionAndEpoch, noteSession_none, stageSessionAndEpoch.noteTs, look, Proc.bind_apply, hsession,
      hepoch, epochReset, slotKey, hts, stream, record, update, EngineState.track]

/-! ## The quality engine -/

/-- What a slot remembers. -/
def SlotState.track (sl : SlotState V) : Track :=
  ⟨if sl.hasSeq then some sl.lastSeq else none, sl.seen, sl.candPlus1, sl.regressCount, sl.staleSeen⟩

/-- A slot that has seen no number has no jump and no regress in memory. -/
def SlotState.Begun (sl : SlotState V) : Prop := sl.hasSeq = false → sl.candPlus1 = 0 ∧ sl.regressCount = 0

/-- The verdict on an event that the stage lets through. -/
def Placed.verdict : Placed V → Option Verdict
  | .held => none
  | .goesOn ev => some ⟨ev.status, ev.reasons⟩
  | .done ev => some ⟨ev.status, ev.reasons⟩

/-- The limit of the engine, no reordering, and one session. -/
def QualityConfig.inOrder (slots : Nat) : QualityConfig := ⟨DEFAULT_SEQ_JUMP_LIMIT, false, slots, .strict⟩

/-- An event without a session and without marks. -/
def QualityEvent.plain (seq : Int) (ts : V) : QualityEvent V := ⟨seq, none, ts, .valid, []⟩

namespace SlotState

/-- A number ahead of the last one. -/
theorem ahead_track (slots : Nat) (sl : SlotState V) (hsl : sl.hasSeq = true) (seq : Int) (ts : V) :
    let r := sl.ahead (.inOrder slots) (.plain seq ts)
    let v := sl.track.ahead sl.lastSeq seq
    r.1.verdict = some v.1 ∧ r.2.track = v.2 ∧ r.2.hasSeq = true := by
  simp only [ahead, Track.ahead, QualityConfig.inOrder, QualityEvent.plain, Bool.false_eq_true, false_and, if_false]
  by_cases hjump : seq - sl.lastSeq > DEFAULT_SEQ_JUMP_LIMIT
  · by_cases hnear : sl.candPlus1 ≠ 0 ∧ seq > sl.candPlus1 - 1 ∧ seq - (sl.candPlus1 - 1) ≤ DEFAULT_SEQ_JUMP_LIMIT
    · simp only [hjump, hnear, track, if_true, ne_eq, not_false_eq_true, and_self]
      exact ⟨rfl, by simp [hsl], hsl⟩
    · simp only [hjump, hnear, track, if_true, if_false]
      exact ⟨rfl, trivial, hsl⟩
  · by_cases hgap : seq - sl.lastSeq > 1
    · simp only [hjump, hgap, if_true, if_false]
      exact ⟨rfl, by simp [track, hsl], hsl⟩
    · simp only [hjump, hgap, if_false]
      exact ⟨rfl, by simp [track, hsl], hsl⟩

/-- The last number again, or one before it. -/
theorem behind_track (slots : Nat) (sl : SlotState V) (hsl : sl.hasSeq = true) (seq : Int) (ts : V) :
    let r := sl.behind (.inOrder slots) (.plain seq ts)
    let v := sl.track.behind 32 sl.lastSeq seq
    r.1.verdict = some v.1 ∧ r.2.track = v.2 ∧ r.2.hasSeq = true := by
  simp only [behind, Track.behind, QualityConfig.inOrder, QualityEvent.plain, track]
  by_cases hwindow : sl.lastSeq - seq < SEQUENCE_BITMAP_BITS
  · by_cases hseen : sl.seen.testBit (sl.lastSeq - seq).toNat
    · by_cases hlast : sl.lastSeq - seq > 0
      · simp only [hwindow, hseen, hlast, if_true]
        exact ⟨rfl, trivial, hsl⟩
      · simp only [hwindow, hseen, hlast, if_true, if_false]
        exact ⟨rfl, trivial, hsl⟩
    · simp only [hwindow, hseen, if_true, Bool.false_eq_true, if_false]
      exact ⟨rfl, trivial, hsl⟩
  · by_cases hstale : seq ∈ sl.staleSeen
    · simp only [hwindow, hstale, if_true, if_false]
      exact ⟨rfl, trivial, hsl⟩
    · simp only [hwindow, hstale, if_false, Track.farBehind]
      by_cases hfar : sl.lastSeq - seq > DEFAULT_SEQ_JUMP_LIMIT
      · by_cases htwice : 2 ≤ sl.regressCount + 1
        · simp only [hfar, htwice, if_true]
          exact ⟨rfl, by simp [hsl], hsl⟩
        · simp only [hfar, htwice, if_true, if_false]
          exact ⟨rfl, rfl, hsl⟩
      · simp only [hfar, if_false]
        exact ⟨rfl, rfl, hsl⟩

theorem place_inOrder (P : Py V) (slots : Nat) (sl : SlotState V) (seq : Int) (ts : V) :
    sl.place P (.inOrder slots) (.plain seq ts) = .ok (
      if sl.hasSeq then
        if seq > sl.lastSeq then sl.ahead (.inOrder slots) (.plain seq ts) else sl.behind (.inOrder slots) (.plain seq ts)
      else (.goesOn (.plain seq ts), { sl with lastSeq := seq, seen := 1, hasSeq := true })) := by
  rcases hs : sl.hasSeq with _ | _
  · simp [place, epochReset, hs, bind, Except.bind, pure, Except.pure, QualityConfig.inOrder, QualityEvent.plain]
  · by_cases hahead : seq > sl.lastSeq
    · simp [place, epochReset, hs, hahead, bind, Except.bind, pure, Except.pure, QualityConfig.inOrder, QualityEvent.plain]
    · simp [place, epochReset, hs, hahead, bind, Except.bind, pure, Except.pure, QualityConfig.inOrder, QualityEvent.plain]

/-- Without reordering and sessions, the stage is the automaton with a list of thirty-two. -/
theorem place_track (P : Py V) (slots : Nat) (sl : SlotState V) (hsl : sl.Begun) (seq : Int) (ts : V) :
    ∃ r, sl.place P (.inOrder slots) (.plain seq ts) = .ok r ∧
      r.1.verdict = some (sl.track.place 32 seq).1 ∧ r.2.track = (sl.track.place 32 seq).2 ∧ r.2.Begun := by
  refine ⟨_, place_inOrder P slots sl seq ts, ?_⟩
  rcases hs : sl.hasSeq with _ | _
  · obtain ⟨hcand, hregress⟩ := hsl hs
    simp only [Bool.false_eq_true, if_false]
    refine ⟨?_, ?_, ?_⟩
    · simp [Placed.verdict, Track.place, track, hs, QualityEvent.plain]
    · simp [Track.place, track, hs, hcand, hregress]
    · intro h
      cases h
  · have hplace : sl.track.place 32 seq =
        if seq > sl.lastSeq then sl.track.ahead sl.lastSeq seq else sl.track.behind 32 sl.lastSeq seq := by
      simp [Track.place, track, hs]
    rw [hplace]
    by_cases hahead : seq > sl.lastSeq
    · obtain ⟨hverdict, htrack, hseq⟩ := ahead_track slots sl hs seq ts
      simp only [if_true, if_pos hahead]
      refine ⟨hverdict, htrack, ?_⟩
      intro h
      rw [hseq] at h
      cases h
    · obtain ⟨hverdict, htrack, hseq⟩ := behind_track slots sl hs seq ts
      simp only [if_true, if_neg hahead]
      refine ⟨hverdict, htrack, ?_⟩
      intro h
      rw [hseq] at h
      cases h

end SlotState

/-! ## A longer and a shorter list -/

namespace Track

/-- The newest numbers of a list. -/
def newest (n : Nat) (stale : List Int) : List Int := stale.drop (stale.length - n)

/-- The newest thirty-two of a list that is cut at sixty-four are those of a list that is cut at thirty-two. -/
theorem newest_push (stale : List Int) (seq : Int) : newest 32 (push 64 stale seq) = push 32 (newest 32 stale) seq := by
  have hlen : (newest 32 stale ++ [seq]).length = min stale.length 32 + 1 := by
    simp only [newest, List.length_append, List.length_drop, List.length_singleton]
    omega
  rw [push, push, hlen, List.length_append, List.length_singleton]
  by_cases hshort : stale.length < 32
  · rw [if_neg (by omega), if_neg (by omega)]
    have hall : stale.length - 32 = 0 := by omega
    have hall' : stale.length + 1 - 32 = 0 := by omega
    simp [newest, hall, hall']
  · rw [if_pos (by omega : 32 < min stale.length 32 + 1)]
    have hcut : (newest 32 stale ++ [seq]).tail = (stale ++ [seq]).drop (stale.length + 1 - 32) := by
      rw [newest, ← List.drop_append_of_le_length (by omega), List.tail_drop]
      congr 1
      omega
    rw [hcut]
    by_cases hfull : 64 < stale.length + 1
    · rw [if_pos hfull, newest, List.length_tail, ← List.drop_one, List.drop_drop, List.length_append, List.length_singleton]
      congr 1
      omega
    · rw [if_neg hfull, newest, List.length_append, List.length_singleton]

/-- The same stream, with the shorter list. -/
def shortened (t : Track) : Track := { t with stale := newest 32 t.stale }

/-- A number from before the window that is in the list is among the newest of it. -/
def Settled (t : Track) (seq : Int) : Prop :=
  ∀ last ∈ t.last, SEQUENCE_BITMAP_BITS ≤ last - seq → seq ∈ t.stale → seq ∈ newest 32 t.stale

instance (t : Track) (seq : Int) : Decidable (t.Settled seq) :=
  inferInstanceAs (Decidable (∀ last ∈ t.last, _ → _ → _))

theorem mem_of_mem_newest {n : Nat} {stale : List Int} {seq : Int} (h : seq ∈ newest n stale) : seq ∈ stale :=
  List.mem_of_mem_drop h

theorem farBehind_shortened (t : Track) (last seq : Int) :
    t.shortened.farBehind 32 last seq = (t.farBehind 64 last seq).shortened := by
  by_cases hfar : last - seq > DEFAULT_SEQ_JUMP_LIMIT
  · by_cases htwice : 2 ≤ t.regress + 1
    · simp only [farBehind, shortened, hfar, htwice, if_true]
      rfl
    · simp only [farBehind, shortened, hfar, htwice, if_true, if_false, newest_push]
  · simp only [farBehind, shortened, hfar, if_false, newest_push]

/-- The two lists make no difference to a settled number, and make one to any other. -/
theorem place_shortened (t : Track) (seq : Int) :
    (t.Settled seq → t.shortened.place 32 seq = ((t.place 64 seq).1, (t.place 64 seq).2.shortened)) ∧
      ((t.place 64 seq).1 = (t.shortened.place 32 seq).1 → t.Settled seq) := by
  rcases t with ⟨_ | last, seen, cand, regress, stale⟩
  · refine ⟨fun _ => rfl, ?_⟩
    intro _ last hlast
    cases hlast
  · simp only [place, shortened, Settled, Option.mem_def, Option.some.injEq, forall_eq']
    by_cases hahead : seq > last
    · simp only [hahead, if_true]
      refine ⟨?_, ?_⟩
      · intro _
        simp only [ahead]
        split
        · split <;> rfl
        · rfl
      · intro _ hfar
        simp only [SEQUENCE_BITMAP_BITS] at hfar
        omega
    · simp only [hahead, if_false, behind]
      by_cases hwindow : last - seq < SEQUENCE_BITMAP_BITS
      · simp only [hwindow, if_true]
        refine ⟨?_, ?_⟩
        · intro _
          split <;> rfl
        · intro _ hfar
          omega
      · simp only [hwindow, if_false]
        by_cases hstale : seq ∈ stale
        · by_cases hnew : seq ∈ newest 32 stale
          · simp [hstale, hnew]
          · simp [hstale, hnew]
            omega
        · have hnew : seq ∉ newest 32 stale := fun h => hstale (mem_of_mem_newest h)
          simp only [hstale, hnew, if_false]
          refine ⟨?_, fun _ _ h => h⟩
          intro _
          have := farBehind_shortened ⟨some last, seen, cand, regress, stale⟩ last seq
          simp only [shortened] at this
          rw [this]

end Track

end Mdrap
