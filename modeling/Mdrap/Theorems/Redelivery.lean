import Mdrap.Lemmas.Fields
import Mdrap.Lemmas.Sequence
import Mdrap.Lemmas.Step
import Mdrap.Engine.Exact

/-!
# The place of a number, and the step that gives it

With the policy `strict` and without a gap manager, a step places the number of its event by the automaton, under the key of the
epoch that the event belongs to; what comes after leaves this place alone. An event that has passed once can pass again, and is then
a duplicate exactly where the automaton says so.
-/

namespace Mdrap

open Lib

variable {V : Type}

/-! ## The automaton, twice -/

namespace Track

/-- A number beyond the limit of a jump that does not follow the candidate of an earlier jump. -/
def Unconfirmed (t : Track) (seq : Int) : Prop :=
  ∃ last ∈ t.last, seq - last > DEFAULT_SEQ_JUMP_LIMIT ∧
    ¬(t.cand ≠ 0 ∧ seq > t.cand - 1 ∧ seq - (t.cand - 1) ≤ DEFAULT_SEQ_JUMP_LIMIT)

instance (t : Track) (seq : Int) : Decidable (t.Unconfirmed seq) :=
  match h : t.last with
  | none => .isFalse (by simp [Unconfirmed, h])
  | some last => decidable_of_iff (seq - last > DEFAULT_SEQ_JUMP_LIMIT ∧
      ¬(t.cand ≠ 0 ∧ seq > t.cand - 1 ∧ seq - (t.cand - 1) ≤ DEFAULT_SEQ_JUMP_LIMIT)) (by simp [Unconfirmed, h])

/-- The last number of the stream is in its window. -/
theorem place_last {t : Track} {seq : Int} (hlast : t.last = some seq) (hseen : t.seen.testBit 0 = true) (cap : Nat) :
    (t.place cap seq).1.status = .invalid := by
  have hbits : (0 : Int) < SEQUENCE_BITMAP_BITS := by decide
  simp [place, behind, hlast, hseen, hbits]

theorem testBit_shiftSeen (seen : Nat) (jump : Int) : (shiftSeen seen jump).testBit 0 = true := by
  have hmask : SEQUENCE_BITMAP_MASK.testBit 0 = true := by decide
  unfold shiftSeen
  split
  · rw [Nat.testBit_and, Nat.testBit_or, hmask]
    simp
  · rfl

theorem mem_push (stale : List Int) (seq : Int) : seq ∈ push 64 stale seq := by
  unfold push
  split
  · rename_i hlen
    cases stale with
    | nil => simp at hlen
    | cons x xs => simp
  · simp

/-- A jump that is not believed leaves the stream where it was, and the second one is measured against itself. -/
theorem place_unconfirmed {t : Track} {seq : Int} (h : t.Unconfirmed seq) :
    ((t.place 64 seq).2.place 64 seq).1.status = .suspicious := by
  obtain ⟨last, hlast, hjump, hnear⟩ := h
  have hlast : t.last = some last := hlast
  have hpos : (0 : Int) < DEFAULT_SEQ_JUMP_LIMIT := by decide
  have hahead : seq > last := by omega
  have hfirst : (t.place 64 seq).2 = { t with cand := seq + 1 } := by
    simp only [place, hlast, if_pos hahead, ahead, if_pos hjump, if_neg hnear]
  rw [hfirst]
  simp only [place, hlast, if_pos hahead, ahead, if_pos hjump]

/-- Any other number that is not a duplicate is one at once. -/
theorem place_again {t : Track} {seq : Int} (h : ¬t.Unconfirmed seq) (hnew : (t.place 64 seq).1.status ≠ .invalid) :
    ((t.place 64 seq).2.place 64 seq).1.status = .invalid := by
  rcases hlast : t.last with _ | last
  · have hfirst : (t.place 64 seq).2 = { t with last := some seq, seen := 1, cand := 0, regress := 0 } := by
      simp only [place, hlast]
    rw [hfirst]
    exact place_last rfl (by simp) 64
  · by_cases hahead : seq > last
    · have hplace : t.place 64 seq = t.ahead last seq := by simp only [place, hlast, if_pos hahead]
      rw [hplace]
      unfold ahead
      split
      · rename_i hjump
        have hnear : t.cand ≠ 0 ∧ seq > t.cand - 1 ∧ seq - (t.cand - 1) ≤ DEFAULT_SEQ_JUMP_LIMIT := by
          by_contra hnear
          exact h ⟨last, hlast, hjump, hnear⟩
        rw [if_pos hnear]
        exact place_last rfl (by simp) 64
      · exact place_last rfl (testBit_shiftSeen _ _) 64
    · have hplace : t.place 64 seq = t.behind 64 last seq := by simp only [place, hlast, if_neg hahead]
      rw [hplace] at hnew ⊢
      unfold behind at hnew ⊢
      by_cases hwindow : last - seq < SEQUENCE_BITMAP_BITS
      · by_cases hseen : t.seen.testBit (last - seq).toNat = true
        · simp [hwindow, hseen] at hnew
        · have hbit : (t.seen ||| 1 <<< (last - seq).toNat).testBit (last - seq).toNat = true := by
            rw [Nat.testBit_or, Nat.testBit_shiftLeft]
            simp
          simp [hwindow, hseen, place, hlast, hahead, behind, hbit]
      · by_cases hstale : seq ∈ t.stale
        · simp [hwindow, hstale] at hnew
        · rw [if_neg hwindow, if_neg hstale]
          unfold farBehind
          have hmem := mem_push t.stale seq
          split
          · split
            · exact place_last rfl (by simp) 64
            · simp [place, hlast, hahead, behind, hwindow, hmem]
          · simp [place, hlast, hahead, behind, hwindow, hmem]

end Track

/-! ## The stages, twice -/

/-- With the policy `strict` an event begins an epoch where it names another session than the one its stream is in. -/
def EngineState.beginsEpoch (s : EngineState V) (P : Py V) (raw : RawEvent) (stream : String) : Bool :=
  (sessionOf P raw).isSome ∧ (s.sessionState.get? stream).isSome ∧ sessionOf P raw ≠ s.sessionState.get? stream

/-- The epoch of an event. -/
def EngineState.epochOf (s : EngineState V) (P : Py V) (raw : RawEvent) (stream : String) : Nat :=
  if s.beginsEpoch P raw stream then (s.epochState.get? stream).getD 0 + 1 else (s.epochState.get? stream).getD 0

/-- What is remembered under the key of an event's epoch. -/
def EngineState.trackOf (s : EngineState V) (P : Py V) (raw : RawEvent) (instrument : String) : Track :=
  s.track (slotKey (streamKey (raw.sourceText P) instrument) (s.epochOf P raw (streamKey (raw.sourceText P) instrument)))

/-- The epoch that an event belongs to is the current one of its stream. -/
structure EngineState.Settled (s : EngineState V) (P : Py V) (raw : RawEvent) (stream : String) (epoch : Nat) : Prop where
  epoch : (s.epochState.get? stream).getD 0 = epoch
  session : sessionOf P raw = none ∨ s.sessionState.get? stream = sessionOf P raw

theorem EngineState.Settled.epochOf {s : EngineState V} {P : Py V} {raw : RawEvent} {stream : String} {epoch : Nat}
    (h : s.Settled P raw stream epoch) : s.epochOf P raw stream = epoch := by
  have hnot : s.beginsEpoch P raw stream = false := by
    rcases h.session with hnone | hsame
    · simp [beginsEpoch, hnone]
    · simp [beginsEpoch, hsame]
  rw [EngineState.epochOf, hnot]
  exact h.epoch

/-- Where numbers are placed is the same. -/
structure SameOrder (w w' : Work V) : Prop where
  track : ∀ key, w'.state.track key = w.state.track key
  epochs : w'.state.epochState = w.state.epochState
  sessions : w'.state.sessionState = w.state.sessionState
  gaps : w'.gaps = w.gaps

namespace SameOrder

theorem refl (w : Work V) : SameOrder w w := ⟨fun _ => rfl, rfl, rfl, rfl⟩

theorem trans (w w' w'' : Work V) (h : SameOrder w w') (h' : SameOrder w' w'') : SameOrder w w'' :=
  ⟨fun key => (h'.track key).trans (h.track key), h'.epochs.trans h.epochs, h'.sessions.trans h.sessions, h'.gaps.trans h.gaps⟩

theorem trackOf {w w' : Work V} (h : SameOrder w w') (P : Py V) (raw : RawEvent) (instrument : String) :
    w'.state.trackOf P raw instrument = w.state.trackOf P raw instrument := by
  simp [EngineState.trackOf, EngineState.epochOf, EngineState.beginsEpoch, h.track, h.epochs, h.sessions]

variable {α β : Type}

theorem bind {m : StepM V α} {f : α → StepM V β} (hm : Proc.Frame SameOrder m) (hf : ∀ a, Proc.Frame SameOrder (f a)) :
    Proc.Frame SameOrder (m >>= f) := .bind trans hm hf

theorem ite {p : Prop} [Decidable p] {m n : StepM V α} (hm : Proc.Frame SameOrder m) (hn : Proc.Frame SameOrder n) :
    Proc.Frame SameOrder (if p then m else n) := by
  split
  · exact hm
  · exact hn

theorem pure (a : α) : Proc.Frame SameOrder (Pure.pure a : StepM V α) := .pure refl a

theorem lift (x : Except PyError α) : Proc.Frame SameOrder (Proc.lift x : StepM V α) := .lift refl x

theorem look (f : EngineState V → α) : Proc.Frame SameOrder (Mdrap.look f) := .read refl _

theorem record (a : EngineState V → UndoAction V) : Proc.Frame SameOrder (Mdrap.record a) :=
  .modify fun _ => ⟨fun _ => rfl, rfl, rfl, rfl⟩

/-- What changes the prices only. -/
theorem of_unpriced {m : StepM V α} (h : Proc.Frame SameUnpriced m) : Proc.Frame SameOrder m := by
  intro w
  have hstate : (m w).2.state.unpriced = w.state.unpriced := congrArg Prod.fst (h w)
  have htrack (key : String) : (m w).2.state.unpriced.track key = w.state.unpriced.track key := by rw [hstate]
  have hepoch : (m w).2.state.unpriced.epochState = w.state.unpriced.epochState := by rw [hstate]
  have hsession : (m w).2.state.unpriced.sessionState = w.state.unpriced.sessionState := by rw [hstate]
  exact ⟨htrack, hepoch, hsession, congrArg Prod.snd (h w)⟩

theorem bumpCount (status : QualityStatus) : Proc.Frame SameOrder (Mdrap.bumpCount status : StepM V Unit) :=
  fun _ => ⟨fun _ => rfl, rfl, rfl, rfl⟩

end SameOrder

/-- The epoch and the session are noted, and nothing else of the state. -/
theorem noteSession_eq (P : Py V) (raw : RawEvent) (stream : String) (w : Work V) :
    ∃ js epochs sessions, stageSessionAndEpoch.noteSession stream (sessionOf P raw) (w.state.sessionState.get? stream)
        (w.state.epochOf P raw stream) (w.state.beginsEpoch P raw stream) w =
      (.ok (), { w with state := { w.state with epochState := epochs, sessionState := sessions }, journal := js }) ∧
      (epochs.get? stream).getD 0 = w.state.epochOf P raw stream ∧
      (sessionOf P raw = none ∨ sessions.get? stream = sessionOf P raw) := by
  rcases hbegins : w.state.beginsEpoch P raw stream with _ | _
  · have hepoch : (w.state.epochState.get? stream).getD 0 = w.state.epochOf P raw stream := by
      simp [EngineState.epochOf, hbegins]
    rcases hsession : sessionOf P raw with _ | id
    · exact ⟨_, _, _, rfl, hepoch, .inl rfl⟩
    · rcases hcurrent : w.state.sessionState.get? stream with _ | current
      · exact ⟨_, _, _, rfl, hepoch, .inr (Dict.get?_set_self _ _ _)⟩
      · have hsame : id = current := by simpa [EngineState.beginsEpoch, hsession, hcurrent] using hbegins
        exact ⟨_, _, _, rfl, hepoch, .inr (by rw [hcurrent, hsame])⟩
  · rcases hsession : sessionOf P raw with _ | id
    · simp [EngineState.beginsEpoch, hsession] at hbegins
    · exact ⟨_, _, _, rfl, by simp, .inr (Dict.get?_set_self _ _ _)⟩

/-- The stage of the epoch finds the epoch of the event, and makes it the current one of the stream. -/
theorem stageSessionAndEpoch_settled (P : Py V) (raw : RawEvent) (f : Fields V) (w : Work V) :
    let stream := streamKey (raw.sourceText P) f.instrument
    let epoch := w.state.epochOf P raw stream
    ∃ w', stageSessionAndEpoch P .strict raw f w =
        (.ok ⟨epoch, stream, slotKey stream epoch, sessionOf P raw, w.state.beginsEpoch P raw stream⟩, w') ∧
      (∀ key, w'.state.track key = w.state.track key) ∧ w'.gaps = w.gaps ∧ w'.state.Settled P raw stream epoch := by
  intro stream epoch
  obtain ⟨js, epochs, sessions, hnote, hepoch, hsession⟩ := noteSession_eq P raw stream w
  obtain ⟨js', d, hts⟩ := noteTs_eq P stream f.exchTs (w.state.epochTs.get? stream) (w.state.beginsEpoch P raw stream)
    { w with state := { w.state with epochState := epochs, sessionState := sessions }, journal := js }
  have hreset (seq last : Option Int) (ts : Option V) :
      epochReset P .strict raw.payload (sessionOf P raw) (w.state.sessionState.get? stream)
        ((w.state.epochState.get? stream).getD 0) seq last f.exchTs ts = .ok (w.state.beginsEpoch P raw stream) := by
    simp only [epochReset, EngineState.beginsEpoch]
    split <;> simp_all
  refine ⟨⟨{ w.state with epochState := epochs, sessionState := sessions, epochTs := d }, js', w.gaps⟩, ?_, fun key => rfl, rfl,
    hepoch, hsession⟩
  simp only [stageSessionAndEpoch, look, Proc.bind_apply, Proc.read_apply, Proc.lift_apply]
  rw [hreset]
  dsimp only
  rw [show (if w.state.beginsEpoch P raw stream = true then (w.state.epochState.get? stream).getD 0 + 1
    else (w.state.epochState.get? stream).getD 0) = epoch from rfl, hnote]
  dsimp only
  rw [hts]
  rfl

section Stages

variable {c : StepConfig V} {raw : RawEvent} {f : Fields V} {recvTs : Json} {e : Epoch} {order : Finding}

theorem laterStages_order : Proc.Frame SameOrder (laterStages c raw f recvTs e order) :=
  SameOrder.of_unpriced (Keeps.unpriced_laterStages c raw f recvTs e order)

theorem laterStages_flagged :
    Proc.Returns (fun found => found.2.2.2.1 = order.flagged) (laterStages c raw f recvTs e order) := by
  refine .bind (.any _) fun threshold _ => .bind (.any _) fun _ _ => .bind (.any _) fun _ _ => .bind (.any _) fun feeds _ => ?_
  exact .pure rfl

/-- Whether the quotes can be kept does not depend on the state. -/
theorem keepQuotes_blind (P : Py V) (payload : Json) (instrument source : String) (w w' : Work V) :
    (keepQuotes P payload instrument source w).1 = (keepQuotes P payload instrument source w').1 := by
  have hside (g : String) (put : Quote V → V → Quote V) : Proc.Sim (fun (_ _ : Work V) => True)
      (keepQuotes.side P payload instrument source g put) (keepQuotes.side P payload instrument source g put) := by
    unfold keepQuotes.side
    split
    · exact .pure _
    · exact .bind (.lift _) fun _ => .modify fun _ _ _ => trivial
  have hsim : Proc.Sim (fun (_ _ : Work V) => True) (keepQuotes P payload instrument source)
      (keepQuotes P payload instrument source) := by
    unfold keepQuotes
    split
    · exact .pure _
    · refine .bind (.modify fun _ _ _ => trivial) fun _ => .bind (.modify fun _ _ _ => trivial) fun _ => ?_
      exact .bind (hside _ _) fun _ => hside _ _
  exact (hsim w w' trivial).1

/-- Stages that have returned have kept the quotes. -/
theorem laterStages_quotes {w : Work V} {found : Epoch × QualityStatus × List Reason × Bool × Bool}
    (h : (laterStages c raw f recvTs e order w).1 = .ok found) (w' : Work V) :
    (keepQuotes c.py raw.payload f.instrument (raw.sourceText c.py) w').1 = .ok () := by
  obtain ⟨threshold, -, h₁⟩ := Proc.bind_ok h
  rw [laterStages, h₁] at h
  obtain ⟨⟨status, reasons⟩, -, h₂⟩ := Proc.bind_ok h
  rw [h₂] at h
  dsimp only at h
  obtain ⟨⟨status', reasons'⟩, -, h₃⟩ := Proc.bind_ok h
  rw [h₃] at h
  dsimp only at h
  obtain ⟨feeds, hfeeds, -⟩ := Proc.bind_ok h
  obtain ⟨_, hquotes, -⟩ := Proc.bind_ok hfeeds
  rw [keepQuotes_blind _ _ _ _ w']
  exact hquotes

theorem stageQuoteAndStaleness_invalid (P : Py V) (payload : Json) (f : Fields V) (recvTs : Json) (threshold : V)
    (reasons : List Reason) :
    ∃ reasons', stageQuoteAndStaleness P payload f recvTs threshold .invalid reasons = .ok (.invalid, reasons') := by
  have hstale : stageQuoteAndStaleness.staleness P f recvTs threshold .invalid reasons = .ok (.invalid, reasons) := by
    simp [stageQuoteAndStaleness.staleness]
  unfold stageQuoteAndStaleness
  rw [hstale]
  simp only [bind, Except.bind]
  split
  · split
    · exact ⟨_, rfl⟩
    · exact ⟨_, rfl⟩
  · exact ⟨_, rfl⟩

/-- Nothing more is asked of an event that is invalid by then than its quotes. -/
theorem laterStages_of_invalid {w : Work V} {reasons : List Reason}
    (h : stageQuoteAndStaleness c.py raw.payload f recvTs w.state.stalenessThresholdS order.status order.reasons =
      .ok (.invalid, reasons)) :
    laterStages c raw f recvTs e order w = (keepQuotes c.py raw.payload f.instrument (raw.sourceText c.py) >>= fun _ =>
      pure (e, .invalid, reasons, order.flagged, false)) w := by
  have hprice : stagePriceCorridor c.py e.slot (fieldValue c.py raw.payload "price") .invalid reasons =
      pure (.invalid, reasons) := by
    cases fieldValue c.py raw.payload "price" <;> rfl
  have hfeeds : stageBboAndReconciliation c.py raw f (fieldValue c.py raw.payload "price") .invalid reasons =
      keepQuotes c.py raw.payload f.instrument (raw.sourceText c.py) >>= fun _ => pure ⟨.invalid, reasons, false⟩ := by
    unfold stageBboAndReconciliation
    cases fieldValue c.py raw.payload "price" <;> rfl
  unfold laterStages
  rw [Proc.bind_of_ok (rfl : look EngineState.stalenessThresholdS w = _), h, Proc.bind_of_ok (rfl : Proc.lift _ w = _)]
  dsimp only
  rw [hprice, Proc.bind_of_ok (Proc.pure_apply _ w)]
  dsimp only
  rw [hfeeds, Proc.bind_apply, Proc.bind_apply, Proc.bind_apply]
  rcases keepQuotes c.py raw.payload f.instrument (raw.sourceText c.py) w with ⟨_ | _, _⟩ <;> rfl

/-- An event that is invalid by its number stays so. -/
theorem laterStages_invalid (horder : order.status = .invalid)
    (hquotes : ∀ w, (keepQuotes c.py raw.payload f.instrument (raw.sourceText c.py) w).1 = .ok ()) (w : Work V) :
    ∃ reasons, laterStages c raw f recvTs e order w = (.ok (e, .invalid, reasons, order.flagged, false),
      (keepQuotes c.py raw.payload f.instrument (raw.sourceText c.py) w).2) := by
  obtain ⟨reasons, hstale⟩ :=
    stageQuoteAndStaleness_invalid c.py raw.payload f recvTs w.state.stalenessThresholdS order.reasons
  have hkept : keepQuotes c.py raw.payload f.instrument (raw.sourceText c.py) w =
      (.ok (), (keepQuotes c.py raw.payload f.instrument (raw.sourceText c.py) w).2) := Prod.ext (hquotes w) rfl
  refine ⟨reasons, ?_⟩
  rw [laterStages_of_invalid (by rw [horder]; exact hstale), Proc.bind_of_ok hkept]
  rfl

end Stages

/-- The number is placed by the automaton, and the later stages start from there. -/
theorem runStages_eq {c : StepConfig V} (hc : c.sessionPolicy = .strict) (raw : RawEvent) {f : Fields V} (recvTs : Json)
    (isReplay : Bool) {seq : Int} (hseq : f.seq = some seq) {w : Work V} (hgaps : w.gaps = none) :
    let v := (w.state.trackOf c.py raw f.instrument).place 64 seq
    ∃ e reasons w', runStages c raw f recvTs isReplay w = laterStages c raw f recvTs e (v.1.finding .valid reasons) w' ∧
      w'.gaps = none ∧ w'.state.trackOf c.py raw f.instrument = v.2 := by
  intro v
  obtain ⟨w₁, hepoch, htrack, hgaps₁, hsettled⟩ := stageSessionAndEpoch_settled c.py raw f w
  rw [← hc] at hepoch
  have hnone : w₁.gaps = none := hgaps₁.trans hgaps
  generalize he : (⟨_, _, _, _, _⟩ : Epoch) = e at hepoch
  have hslot : e.slot = slotKey (streamKey (raw.sourceText c.py) f.instrument)
      (w.state.epochOf c.py raw (streamKey (raw.sourceText c.py) f.instrument)) := by rw [← he]
  generalize hreasons : (if e.reset then [Reason.epochReset] else []) = reasons
  obtain ⟨hok, htrack', hgaps', hepochs, hsessions⟩ :=
    stageSequence_track c.py raw f.instrument seq recvTs e isReplay .valid reasons w₁ hnone
  rw [htrack, hslot] at hok htrack'
  refine ⟨e, reasons, (stageSequence c.py raw f.instrument seq recvTs e isReplay .valid reasons w₁).2, ?_, hgaps', ?_⟩
  · have hplace : stageSequenceAndDedup c.py raw f recvTs e isReplay .valid reasons w₁ = (.ok (v.1.finding .valid reasons),
        (stageSequence c.py raw f.instrument seq recvTs e isReplay .valid reasons w₁).2) := by
      unfold stageSequenceAndDedup
      rw [hseq]
      exact Prod.ext hok rfl
    unfold runStages
    rw [Proc.bind_of_ok hepoch, hreasons, Proc.bind_of_ok hplace]
    rfl
  · have hsettled' : (stageSequence c.py raw f.instrument seq recvTs e isReplay .valid reasons w₁).2.state.Settled c.py raw
        (streamKey (raw.sourceText c.py) f.instrument)
        (w.state.epochOf c.py raw (streamKey (raw.sourceText c.py) f.instrument)) := by
      refine ⟨?_, ?_⟩
      · rw [hepochs]
        exact hsettled.epoch
      · rw [hsessions]
        exact hsettled.session
    rw [EngineState.trackOf, hsettled'.epochOf]
    exact htrack'

/-! ## The step, twice -/

/-- The checks take the instrument and the number as the event has them, and what they let through they let through again; only the
time can be another one. -/
theorem stageSchemaValidation_passed {P : Py V} {raw : RawEvent} {offset : Int} {recvTs : Json} {f : Fields V}
    (h : stageSchemaValidation P raw offset recvTs = .ok (.ok f)) :
    raw.payload.get "instrument" = .str f.instrument ∧
      stageSchemaValidation.seqOf (raw.payload.get "sequence") = some f.seq ∧
      ∀ offset' recvTs' x, P.float recvTs' = .ok x →
        ∃ exchTs, stageSchemaValidation P raw offset' recvTs' = .ok (.ok { f with exchTs := exchTs }) := by
  simp only [stageSchemaValidation] at h ⊢
  -- what is left of the checks after the failing ones is the branch that makes the fields, with or without a time of its own
  repeat' split at h
  all_goals try cases h
  · rcases hts : P.float recvTs with _ | y
    · simp [hts, bind, Except.bind] at h
    · simp only [hts, bind, Except.bind, pure, Except.pure, Except.ok.injEq] at h
      subst h
      refine ⟨by assumption, by assumption, ?_⟩
      intro offset' recvTs' x hx
      exact ⟨x, by simp [*, bind, Except.bind, pure, Except.pure]⟩
  · rcases hts : P.float (raw.payload.get "exchange_ts") with _ | y
    · simp [hts, bind, Except.bind] at h
    · simp only [hts, bind, Except.bind, pure, Except.pure, Except.ok.injEq] at h
      subst h
      refine ⟨by assumption, by assumption, ?_⟩
      intro offset' recvTs' x hx
      have hfinite : isFiniteNum (raw.payload.get "exchange_ts") = true := by simp_all
      exact ⟨y, by simp [*, bind, Except.bind, pure, Except.pure]⟩

/-- The security object lets through again what it has let through. -/
theorem stageSecurityEnvelope_passed {P : Py V} {security : Option Security} {raw : RawEvent} {offset : Int} {recvTs : Json}
    (h : stageSecurityEnvelope P security raw offset recvTs = .ok none) (offset' : Int) (recvTs' : Json) :
    stageSecurityEnvelope P security raw offset' recvTs' = .ok none := by
  cases security with
  | none => rfl
  | some security =>
    simp only [stageSecurityEnvelope] at h ⊢
    rcases hclean : security.sanitizePayload raw.payload with exc | (_ | err)
    · simp [hclean, bind, Except.bind] at h
    · rcases hrequired : security.hmacRequired raw.source with exc | required
      · simp [hclean, hrequired, bind, Except.bind] at h
      · simp only [hclean, hrequired, bind, Except.bind, pure, Except.pure] at h ⊢
        split at h
        · rename_i hsigned
          rw [if_pos hsigned]
          split at h
          · rename_i htruthy
            rw [if_pos htruthy]
            rcases hverified : security.verifyPayload raw.source raw.payload (raw.payload.get "signature") with exc | good
            · simp [hverified] at h
            · simp only [hverified] at h ⊢
              split at h
              · rename_i hgood
                rw [if_pos hgood]
              · cases h
          · cases h
        · rename_i hsigned
          rw [if_neg hsigned]
    · simp [hclean, bind, Except.bind, pure, Except.pure] at h

/-- What the first two stages let through they let through again; only the time can be another one. -/
theorem stageChecks_again {c : StepConfig V} {raw : RawEvent} {offset : Int} {recvTs : Json} {f : Fields V}
    (h : stageChecks c raw offset recvTs = .ok (.ok f)) (offset' : Int) {recvTs' : Json} {x : V} (hx : c.py.float recvTs' = .ok x) :
    ∃ exchTs, stageChecks c raw offset' recvTs' = .ok (.ok { f with exchTs := exchTs }) := by
  obtain ⟨hsecurity, hschema⟩ := stageChecks_passed h
  obtain ⟨-, -, hagain⟩ := stageSchemaValidation_passed hschema
  obtain ⟨exchTs, hpass⟩ := hagain offset' recvTs' x hx
  exact ⟨exchTs, by rw [stageChecks_eq (stageSecurityEnvelope_passed hsecurity offset' recvTs'), hpass]⟩

/-- The decision on an event that has passed the stages. -/
theorem package_found {P : Py V} {raw : RawEvent} {f : Fields V} {offset : Int} {recvTs now : Json}
    {found : Epoch × QualityStatus × List Reason × Bool × Bool} {d : EngineDecision V}
    (h : package P raw f offset recvTs now found = .ok d) : d.isDuplicate = found.2.2.2.1 ∧ d.qualityStatus = found.2.1 ∧
      (found.2.1 = .invalid ∨ ∃ x, P.float recvTs = .ok x) := by
  obtain ⟨e, status, reasons, isDuplicate, disagreement⟩ := found
  simp only [package] at h
  split at h
  · rename_i hstatus
    cases h
    exact ⟨rfl, rfl, .inl hstatus⟩
  · rcases hrecv : P.float recvTs with _ | x
    · simp [hrecv, bind, Except.bind] at h
    · rcases hnow : P.float now with _ | y
      · simp [hrecv, hnow, bind, Except.bind] at h
      · simp only [hrecv, hnow, bind, Except.bind, pure, Except.pure, Except.ok.injEq] at h
        subst h
        exact ⟨rfl, rfl, .inr ⟨x, rfl⟩⟩

/-- What is left of the judgement on an event that passes the checks. -/
theorem judge_eq {c : StepConfig V} {raw : RawEvent} {now : Json} {offset : Int} {f : Fields V} (hobj : raw.payload.isObj = true)
    (hcheck : stageChecks c raw offset (raw.recvTs now) = .ok (.ok f)) (isReplay : Bool) :
    judge c raw now offset isReplay = runStages c raw f (raw.recvTs now) isReplay >>= fun found =>
      bumpCount found.2.1 >>= fun _ => Proc.lift (package c.py raw f offset (raw.recvTs now) now found) := by
  unfold judge
  rw [if_pos hobj, hcheck]
  rfl

/-- An event that is not invalid has passed the checks and the stages. -/
theorem judge_passed {c : StepConfig V} {raw : RawEvent} {now : Json} {offset : Int} {isReplay : Bool} {w : Work V}
    {d : EngineDecision V} (h : (judge c raw now offset isReplay w).1 = .ok d) (hd : d.qualityStatus ≠ .invalid) :
    ∃ f found, raw.payload.isObj = true ∧ stageChecks c raw offset (raw.recvTs now) = .ok (.ok f) ∧
      (runStages c raw f (raw.recvTs now) isReplay w).1 = .ok found ∧ found.2.1 = d.qualityStatus ∧
      (∃ x, c.py.float (raw.recvTs now) = .ok x) ∧
      SameOrder (runStages c raw f (raw.recvTs now) isReplay w).2 (judge c raw now offset isReplay w).2 := by
  by_cases hobj : raw.payload.isObj = true
  · rcases hcheck : stageChecks c raw offset (raw.recvTs now) with x | d' | f
    · simp [judge, hobj, hcheck, Proc.bind_apply] at h
    · obtain ⟨-, -, hinvalid, -⟩ := stageChecks_quarantined hcheck
      unfold judge at h
      rw [if_pos hobj, hcheck] at h
      have hsame : d' = d := Except.ok.inj h
      rw [hsame] at hinvalid
      exact absurd hinvalid hd
    · rw [judge_eq hobj hcheck] at h ⊢
      obtain ⟨found, hfound, hnext⟩ := Proc.bind_ok h
      rw [hnext] at h ⊢
      have hpackage : package c.py raw f offset (raw.recvTs now) now found = .ok d := h
      obtain ⟨-, hstatus, hfloat⟩ := package_found hpackage
      refine ⟨f, found, hobj, rfl, hfound, hstatus.symm, ?_, ?_⟩
      · rcases hfloat with hinvalid | hfloat
        · exact absurd (hstatus.trans hinvalid) hd
        · exact hfloat
      · exact SameOrder.bind (SameOrder.bumpCount _) (fun _ => SameOrder.lift _) _
  · unfold judge at h
    rw [if_neg hobj] at h
    have hsame : EngineDecision.quarantined offset .schemaViolation (notADict c.py raw offset (raw.recvTs now)) = d :=
      Except.ok.inj h
    rw [← hsame] at hd
    exact absurd rfl hd

/-- The instrument of an event. -/
def RawEvent.instrument (raw : RawEvent) : String :=
  match raw.payload.get "instrument" with
  | .str name => name
  | _ => ""

/-- A jump ahead beyond the limit, in the epoch the event belongs to, that no earlier jump has announced. -/
def EngineState.FarJump (s : EngineState V) (P : Py V) (raw : RawEvent) (seq : Int) : Prop :=
  (s.trackOf P raw raw.instrument).Unconfirmed seq

instance (s : EngineState V) (P : Py V) (raw : RawEvent) (seq : Int) : Decidable (s.FarJump P raw seq) :=
  inferInstanceAs (Decidable (Track.Unconfirmed _ _))

theorem RawEvent.instrument_eq {raw : RawEvent} {name : String} (h : raw.payload.get "instrument" = .str name) :
    raw.instrument = name := by simp [instrument, h]

theorem seqOf_int {seq : Int} {s : Option Int} (h : stageSchemaValidation.seqOf (.int seq) = some s) : s = some seq := by
  unfold stageSchemaValidation.seqOf at h
  split at h <;> simp_all

theorem trackOf_begun (w : Work V) (offset : Int) (P : Py V) (raw : RawEvent) (instrument : String) :
    (w.begun offset).state.trackOf P raw instrument = w.state.trackOf P raw instrument := rfl

/-- An event with a number that the checks let through, and whose quotes are numbers. -/
structure Passable (c : StepConfig V) (raw : RawEvent) (seq : Int) (now : Json) : Prop where
  obj : raw.payload.isObj = true
  fields : ∀ offset, ∃ f, stageChecks c raw offset (raw.recvTs now) = .ok (.ok f) ∧ f.instrument = raw.instrument ∧
    f.seq = some seq
  quotes : ∀ w, (keepQuotes c.py raw.payload raw.instrument (raw.sourceText c.py) w).1 = .ok ()

/-- A step that does not make its event invalid places the number, and the event can pass again. -/
theorem step_passed {c : StepConfig V} (hc : c.sessionPolicy = .strict) {raw : RawEvent} {now : Json} {offset : Option Int}
    {isReplay : Bool} {w : Work V} (hgaps : w.gaps = none) {seq : Int} (hseq : raw.payload.get "sequence" = .int seq)
    (hvalid : (step c raw now offset isReplay w).1.qualityStatus ≠ .invalid) :
    let v := (w.state.trackOf c.py raw raw.instrument).place 64 seq
    v.1.status ≠ .invalid ∧ (step c raw now offset isReplay w).2.gaps = none ∧
      (step c raw now offset isReplay w).2.state.trackOf c.py raw raw.instrument = v.2 ∧
      ∀ now' x, c.py.float now' = .ok x → Passable c raw seq now' := by
  intro v
  rcases hrun : stepInternal c raw now (offset.getD w.state.eventCount) isReplay w with ⟨exc | d, w'⟩
  · simp only [step, hrun] at hvalid
    exact absurd rfl hvalid
  simp only [step, hrun] at hvalid ⊢
  rw [stepInternal_eq] at hrun
  have hok : (judge c raw now (offset.getD w.state.eventCount) isReplay (w.begun (offset.getD w.state.eventCount))).1 = .ok d := by
    rw [hrun]
  obtain ⟨f, found, hobj, hcheck, hfound, hstatus, ⟨x, hx⟩, hsame⟩ := judge_passed hok hvalid
  obtain ⟨hname, hseqOf, -⟩ := stageSchemaValidation_passed (stageChecks_passed hcheck).2
  have hinstrument : f.instrument = raw.instrument := (RawEvent.instrument_eq hname).symm
  rw [hseq] at hseqOf
  have hfseq : f.seq = some seq := seqOf_int hseqOf
  obtain ⟨e, reasons, w₁, hlater, hgaps₁, htrack₁⟩ :=
    runStages_eq hc raw (raw.recvTs now) isReplay hfseq (w := w.begun (offset.getD w.state.eventCount)) hgaps
  rw [trackOf_begun] at hlater htrack₁
  rw [hlater] at hfound
  have hquotes := laterStages_quotes hfound
  have hsame' : SameOrder w₁ w' := by
    rw [hlater, hrun] at hsame
    exact (@laterStages_order V c raw f (raw.recvTs now) e _ w₁).trans _ _ _ hsame
  rw [hinstrument] at hquotes htrack₁
  refine ⟨?_, ?_, ?_, ?_⟩
  · intro hinvalid
    have horder : (((w.state.trackOf c.py raw f.instrument).place 64 seq).1.finding .valid reasons).status = .invalid := by
      rw [hinstrument]
      simpa [Verdict.finding] using hinvalid
    rw [← hinstrument] at hquotes
    obtain ⟨rs, hrun₂⟩ := @laterStages_invalid V c raw f (raw.recvTs now) e _ horder hquotes w₁
    rw [hrun₂, Except.ok.injEq] at hfound
    rw [← hstatus, ← hfound] at hvalid
    exact hvalid rfl
  · rw [hsame'.gaps]
    exact hgaps₁
  · rw [hsame'.trackOf]
    exact htrack₁
  · intro now' y hy
    refine ⟨hobj, ?_, hquotes⟩
    intro offset'
    have hrecv : ∃ z, c.py.float (raw.recvTs now') = .ok z := by
      unfold RawEvent.recvTs at hx ⊢
      split
      · rename_i htruthy
        rw [if_pos htruthy] at hx
        exact ⟨x, hx⟩
      · exact ⟨y, hy⟩
    obtain ⟨z, hz⟩ := hrecv
    obtain ⟨exchTs, hpass⟩ := stageChecks_again hcheck offset' hz
    exact ⟨_, hpass, hinstrument, hfseq⟩

/-- The step on an event that can pass: it is a duplicate exactly where its number is placed as one. -/
theorem step_duplicate {c : StepConfig V} (hc : c.sessionPolicy = .strict) {raw : RawEvent} {now : Json} {seq : Int}
    (h : Passable c raw seq now) (offset : Option Int) (isReplay : Bool) {w : Work V} (hgaps : w.gaps = none) :
    (step c raw now offset isReplay w).1.isDuplicate = true ∧ (step c raw now offset isReplay w).1.qualityStatus = .invalid ↔
      ((w.state.trackOf c.py raw raw.instrument).place 64 seq).1.status = .invalid := by
  generalize hoffset : offset.getD w.state.eventCount = o
  obtain ⟨f, hcheck, hinstrument, hfseq⟩ := h.fields o
  obtain ⟨e, reasons, w₁, hlater, -, -⟩ := runStages_eq hc raw (raw.recvTs now) isReplay hfseq (w := w.begun o) hgaps
  rw [trackOf_begun, hinstrument] at hlater
  constructor
  · rintro ⟨hdup, -⟩
    rcases hrun : stepInternal c raw now o isReplay w with ⟨exc | d, w'⟩
    · simp only [step, hoffset, hrun] at hdup
      cases hdup
    · simp only [step, hoffset, hrun] at hdup
      rw [stepInternal_eq, judge_eq h.obj hcheck] at hrun
      have hok := congrArg Prod.fst hrun
      obtain ⟨found, hfound, hnext⟩ := Proc.bind_ok hok
      rw [hnext] at hok
      have hpackage : package c.py raw f o (raw.recvTs now) now found = .ok d := hok
      obtain ⟨hflag, -, -⟩ := package_found hpackage
      rw [hlater] at hfound
      rw [hflag, laterStages_flagged w₁ found hfound] at hdup
      simpa [Verdict.finding] using hdup
  · intro hinvalid
    have horder : (((w.state.trackOf c.py raw raw.instrument).place 64 seq).1.finding .valid reasons).status = .invalid := by
      simpa [Verdict.finding] using hinvalid
    have hquotes := h.quotes
    rw [← hinstrument] at hquotes
    obtain ⟨rs, hrun₂⟩ := @laterStages_invalid V c raw f (raw.recvTs now) e _ horder hquotes w₁
    have hrun : ∃ d w', stepInternal c raw now o isReplay w = (.ok d, w') ∧ d.isDuplicate = true ∧ d.qualityStatus = .invalid := by
      rw [stepInternal_eq, judge_eq h.obj hcheck, Proc.bind_of_ok (hlater.trans hrun₂)]
      refine ⟨_, _, rfl, ?_, rfl⟩
      simp [Verdict.finding, hinvalid]
    obtain ⟨d, w', hstep, hdup, hstatus⟩ := hrun
    simp only [step, hoffset, hstep]
    exact ⟨hdup, hstatus⟩

end Mdrap

/-!
## An event that comes twice

An event with a sequence number that is delivered again at once is a duplicate, since the first delivery has left its number where
the second one looks for it: as the last number, in the window of the numbers before it, or in the list of old numbers. A jump ahead
beyond the limit that is not believed leaves its number as a candidate only, which is compared with larger numbers and not with
itself; such an event is taken in as often as it comes.
-/

namespace Mdrap

open Lib

variable {V : Type}

/-- An event with a sequence number that is not invalid is found to be a duplicate when it comes again at once, unless it was a jump
ahead beyond the limit that no earlier jump had announced. -/
theorem redelivery_detected_iff {c : StepConfig V} (hc : c.sessionPolicy = .strict) {raw : RawEvent} {seq : Int}
    (hseq : raw.payload.get "sequence" = .int seq) {w : Work V} (hgaps : w.gaps = none) {now now' : Json}
    {offset offset' : Option Int} {isReplay isReplay' : Bool}
    (hvalid : (step c raw now offset isReplay w).1.qualityStatus ≠ .invalid) {x : V} (hnow : c.py.float now' = .ok x) :
    let again := (step c raw now' offset' isReplay' (step c raw now offset isReplay w).2).1
    again.isDuplicate = true ∧ again.qualityStatus = .invalid ↔ ¬w.state.FarJump c.py raw seq := by
  obtain ⟨hnew, hgaps', htrack, hpass⟩ := step_passed hc hgaps hseq hvalid
  refine (step_duplicate hc (hpass now' x hnow) offset' isReplay' hgaps').trans ?_
  rw [htrack]
  constructor
  · intro hinvalid hfar
    rw [Track.place_unconfirmed hfar] at hinvalid
    cases hinvalid
  · exact fun hfar => Track.place_again hfar hnew

/-- A halt of an instrument, with this number. -/
def haltEvent (seq : Int) : RawEvent :=
  ⟨.str "A", .obj [("instrument", .str "X"), ("event_type", .str "HALT"), ("sequence", .int seq)], .int 1, .null, .json .null, .null⟩

def strictConfig : StepConfig PyNum := { py := exactPy, sessionPolicy := .strict }

/-- The work of an engine after the halt with the number one. -/
def afterOne : Work PyNum := (step strictConfig (haltEvent 1) (.int 1) none false ⟨.initial (exactPy.dec 5 (-2)), [], none⟩).2

/-- The number two comes in order, and its second delivery is a duplicate. -/
theorem redelivery_two :
    let again := (step strictConfig (haltEvent 2) (.int 1) none false (step strictConfig (haltEvent 2) (.int 1) none false afterOne).2).1
    again.isDuplicate = true ∧ again.qualityStatus = .invalid := by
  have hnow : strictConfig.py.float (.int 1) = .ok (.float (.fin 1)) := by decide +kernel
  have hnear : ¬afterOne.state.FarJump strictConfig.py (haltEvent 2) 2 := by decide +kernel
  exact (redelivery_detected_iff rfl rfl (by decide +kernel) (by decide +kernel) hnow).mpr hnear

/-- The work of an engine without a gap manager, after any steps; a transaction ends with an empty journal. -/
inductive Reached (c : StepConfig V) (threshold : V) : Work V → Prop where
  | initial : Reached c threshold ⟨.initial threshold, [], none⟩
  | step {w : Work V} (raw : RawEvent) (now : Json) (offset : Option Int) (isReplay : Bool) :
    Reached c threshold w → Reached c threshold (Mdrap.step c raw now offset isReplay w).2
  | commit {w : Work V} : Reached c threshold w → Reached c threshold { w with journal := [] }

/-- After the number one, the number two thousand is suspicious each time it comes. -/
theorem redelivery_detected_false :
    ¬∀ (w : Work PyNum) (raw : RawEvent) (seq : Int), Reached strictConfig (exactPy.dec 5 (-2)) w →
      raw.payload.get "sequence" = .int seq → (step strictConfig raw (.int 1) none false w).1.qualityStatus ≠ .invalid →
        (step strictConfig raw (.int 1) none false (step strictConfig raw (.int 1) none false w).2).1.isDuplicate = true ∧
        (step strictConfig raw (.int 1) none false (step strictConfig raw (.int 1) none false w).2).1.qualityStatus = .invalid := by
  intro h
  have hagain := h afterOne (haltEvent 2000) 2000 (.step _ _ _ _ .initial) rfl (by decide +kernel)
  revert hagain
  decide +kernel

end Mdrap
