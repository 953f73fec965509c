import Mdrap.Lemmas.OwnStep

/-!
# A step on an event of another stream

Such a step leaves the stream's part of the engine as it is, as long as its keys are not those of the stream, and also when it
raises: what the journal undoes is of the other stream, and the window of fingerprints is put back exactly.
-/

namespace Mdrap

open Lib

variable {V : Type}

/-- The window of fingerprints before an entry of the journal. -/
def UndoAction.windowBefore : UndoAction V → List (Fingerprint V) → List (Fingerprint V)
  | .dedup _ none, window => window.dropLast
  | .dedup _ (some e), window => e :: window.dropLast
  | _, window => window

theorem undo_dedupWindow (P : Py V) (a : UndoAction V) (s : EngineState V) :
    (a.undo P s).dedupWindow = a.windowBefore s.dedupWindow := by
  cases a with
  | dedup added evicted => cases evicted <;> rfl
  | _ => rfl

section

variable (P : Py V) (source instrument : String)

/-- Undoing the entry leaves the stream as it is. -/
structure Leaves (a : UndoAction V) : Prop where
  cell : ∀ s k, streamKeys source instrument k → (a.undo P s).cell k = s.cell k
  threshold : ∀ s, (a.undo P s).stalenessThresholdS = s.stalenessThresholdS
  dedupSet : ∀ s, (a.undo P s).dedupSet.filter (Fingerprint.isOf source instrument) =
    s.dedupSet.filter (Fingerprint.isOf source instrument)

/-- The stream's part of the engine is as it was, and the journal has grown by entries of other streams that tell the window. -/
structure Aside (w w' : Work V) : Prop where
  cell : ∀ k, streamKeys source instrument k → w'.state.cell k = w.state.cell k
  threshold : w'.state.stalenessThresholdS = w.state.stalenessThresholdS
  dedupSet : w'.state.dedupSet.filter (Fingerprint.isOf source instrument) =
    w.state.dedupSet.filter (Fingerprint.isOf source instrument)
  window : w'.state.dedupWindow.filter (Fingerprint.isOf source instrument) =
    w.state.dedupWindow.filter (Fingerprint.isOf source instrument)
  bounded : w.state.dedupWindow.length ≤ DEFAULT_DEDUP_WINDOW_SIZE → w'.state.dedupWindow.length ≤ DEFAULT_DEDUP_WINDOW_SIZE
  gaps : ∀ n g, Option.Rel (GapManager.ShowsAt source instrument n) w.gaps g →
    Option.Rel (GapManager.ShowsAt source instrument n) w'.gaps g
  journal : ∃ js, w'.journal = js ++ w.journal ∧ (∀ a ∈ js, Leaves P source instrument a) ∧
    js.foldl (fun window a => a.windowBefore window) w'.state.dedupWindow = w.state.dedupWindow

end

variable {P : Py V} {source instrument : String}

/-- The entry for a fingerprint of another stream, which has pushed out none of the stream. -/
theorem Leaves.dedup {x : Fingerprint V} (hx : x.isOf source instrument = false) {evicted : Option (Fingerprint V)}
    (h : ∀ y, evicted = some y → y.isOf source instrument = false) : Leaves P source instrument (.dedup x evicted) := by
  have hset (set : List (Fingerprint V)) : (set.filter (fun z => !z.same P x)).filter (Fingerprint.isOf source instrument) =
      set.filter (Fingerprint.isOf source instrument) := by
    rw [List.filter_filter]
    refine List.filter_congr ?_
    intro z _
    rcases hz : z.isOf source instrument with _ | _
    · rfl
    · rcases hsame : z.same P x with _ | _
      · rfl
      · have hisOf := isOf_of_same source instrument hsame
        rw [hz, hx] at hisOf
        cases hisOf
  cases evicted with
  | none => exact ⟨fun _ _ _ => rfl, fun _ => rfl, fun s => hset s.dedupSet⟩
  | some y =>
    refine ⟨fun _ _ _ => rfl, fun _ => rfl, fun s => ?_⟩
    simp only [UndoAction.undo, List.filter_append, hset]
    simp [h y rfl]

namespace Aside

theorem refl (w : Work V) : Aside P source instrument w w :=
  ⟨fun _ _ => rfl, rfl, rfl, rfl, id, fun _ _ h => h, [], rfl, by simp, rfl⟩

theorem trans (w w' w'' : Work V) (h : Aside P source instrument w w') (h' : Aside P source instrument w' w'') :
    Aside P source instrument w w'' := by
  obtain ⟨js, hj, hjs, hwindow⟩ := h.journal
  obtain ⟨js', hj', hjs', hwindow'⟩ := h'.journal
  refine ⟨fun k hk => (h'.cell k hk).trans (h.cell k hk), h'.threshold.trans h.threshold, h'.dedupSet.trans h.dedupSet,
    h'.window.trans h.window, fun hb => h'.bounded (h.bounded hb), fun n g hg => h'.gaps n g (h.gaps n g hg), js' ++ js, ?_, ?_, ?_⟩
  · rw [hj', hj, List.append_assoc]
  · intro a ha
    rcases List.mem_append.mp ha with ha | ha
    · exact hjs' a ha
    · exact hjs a ha
  · rw [List.foldl_append, hwindow', hwindow]

/-- A change of what is of no stream. -/
theorem update {f : EngineState V → EngineState V} (hcell : ∀ s k, (f s).cell k = s.cell k)
    (hthreshold : ∀ s, (f s).stalenessThresholdS = s.stalenessThresholdS) (hset : ∀ s, (f s).dedupSet = s.dedupSet)
    (hwindow : ∀ s, (f s).dedupWindow = s.dedupWindow) : Proc.Frame (Aside P source instrument) (Mdrap.update f) := by
  refine .modify ?_
  intro w
  refine ⟨fun k _ => hcell w.state k, hthreshold w.state, by rw [hset], by rw [hwindow], by rw [hwindow]; exact id,
    fun _ _ h => h, [], rfl, by simp, hwindow w.state⟩

/-- An entry for what is of no stream. -/
theorem record {a : EngineState V → UndoAction V} (h : ∀ s, Leaves P source instrument (a s))
    (hwindow : ∀ s window, (a s).windowBefore window = window) : Proc.Frame (Aside P source instrument) (Mdrap.record a) := by
  refine .modify ?_
  intro w
  refine ⟨fun _ _ => rfl, rfl, rfl, rfl, id, fun _ _ h => h, [a w.state], rfl, ?_, hwindow w.state _⟩
  intro b hb
  rw [List.mem_singleton.mp hb]
  exact h w.state

theorem ite {α : Type} {p : Prop} [Decidable p] {m n : StepM V α} (hm : Proc.Frame (Aside P source instrument) m)
    (hn : Proc.Frame (Aside P source instrument) n) : Proc.Frame (Aside P source instrument) (if p then m else n) := by
  split
  · exact hm
  · exact hn

theorem bind {α β : Type} {m : StepM V α} {f : α → StepM V β} (hm : Proc.Frame (Aside P source instrument) m)
    (hf : ∀ a, Proc.Frame (Aside P source instrument) (f a)) : Proc.Frame (Aside P source instrument) (m >>= f) :=
  .bind trans hm hf

theorem recordEventCount : Proc.Frame (Aside P source instrument) Mdrap.recordEventCount :=
  bind (record (fun _ => ⟨fun _ _ _ => rfl, fun _ => rfl, fun _ => rfl⟩) fun _ _ => rfl) fun _ =>
    bind (record (fun _ => ⟨fun _ _ _ => rfl, fun _ => rfl, fun _ => rfl⟩) fun _ _ => rfl) fun _ =>
      record (fun _ => ⟨fun _ _ _ => rfl, fun _ => rfl, fun _ => rfl⟩) fun _ _ => rfl

theorem recordCount (status : QualityStatus) : Proc.Frame (Aside P source instrument) (Mdrap.recordCount status) :=
  record (fun _ => ⟨fun _ _ _ => rfl, fun _ => rfl, fun _ => rfl⟩) fun _ _ => rfl

theorem bumpCount (status : QualityStatus) : Proc.Frame (Aside P source instrument) (Mdrap.bumpCount status) :=
  bind (recordCount status) fun _ => update (fun _ _ => rfl) (fun _ => rfl) (fun _ => rfl) fun _ => rfl

theorem countUnhandled (m : Nat) : Proc.Frame (Aside P source instrument) (Mdrap.countUnhandled m) :=
  bind recordEventCount fun _ => bind (recordCount _) fun _ => update (fun _ _ => rfl) (fun _ => rfl) (fun _ => rfl) fun _ => rfl

theorem stageBboAndReconciliation (raw : RawEvent) (f : Fields V) (price : Option V) (status : QualityStatus)
    (reasons : List Reason) :
    Proc.Frame (Aside P source instrument) (Mdrap.stageBboAndReconciliation P raw f price status reasons) := by
  have hside (k : String) (put : Quote V → V → Quote V) : Proc.Frame (Aside P source instrument)
      (keepQuotes.side P raw.payload f.instrument (raw.sourceText P) k put) :=
    ite (.pure refl _) (bind (.lift refl _) fun _ => update (fun _ _ => rfl) (fun _ => rfl) (fun _ => rfl) fun _ => rfl)
  refine bind (ite (.pure refl _) (bind (record (fun _ => ⟨fun _ _ _ => rfl, fun _ => rfl, fun _ => rfl⟩) fun _ _ => rfl) fun _ =>
    bind (update (fun _ _ => rfl) (fun _ => rfl) (fun _ => rfl) fun _ => rfl) fun _ => bind (hside _ _) fun _ => hside _ _)) ?_
  intro _
  cases price with
  | none => exact .pure refl _
  | some price =>
    refine ite (.pure refl _) (bind (record (fun _ => ⟨fun _ _ _ => rfl, fun _ => rfl, fun _ => rfl⟩) fun _ _ => rfl) fun _ =>
      bind (update (fun _ _ => rfl) (fun _ => rfl) (fun _ => rfl) fun _ => rfl) fun _ => bind (.read refl _) fun recent => ?_)
    exact bind (.lift refl _) fun _ => ite (.pure refl _) (.pure refl _)

theorem openGaps {source' instrument' : String} (hother : ¬(source' = source ∧ instrument' = instrument)) (last seq : Int)
    (epoch : Nat) (recvTs : Json) (isReplay : Bool) :
    Proc.Frame (Aside P source instrument) (Mdrap.openGaps source' instrument' last seq epoch recvTs isReplay) := by
  refine ite (.pure refl _) (.modify ?_)
  intro w
  refine ⟨fun _ _ => rfl, rfl, rfl, rfl, id, ?_, [], rfl, by simp, rfl⟩
  obtain ⟨s, j, g⟩ := w
  intro n g' hg
  cases hg with
  | some h => exact .some (h.recordGap_other hother _ _ _ _)
  | none => exact .none

theorem fillGap {source' instrument' : String} (hother : ¬(source' = source ∧ instrument' = instrument)) (seq : Int) (epoch : Nat) :
    Proc.Frame (Aside P source instrument) (Mdrap.fillGap source' instrument' seq epoch) := by
  refine bind (.read refl _) fun filled => bind (.modify ?_) fun _ => .pure refl _
  intro w
  refine ⟨fun _ _ => rfl, rfl, rfl, rfl, id, ?_, [], rfl, by simp, rfl⟩
  obtain ⟨s, j, g⟩ := w
  intro n g' hg
  cases hg with
  | @some g _ h =>
    have hcount := g.tryFill_count source' instrument' seq epoch
    exact .some ⟨h.1.trans_eq hcount.symm, fun hn => (h.2 (hcount.symm.trans hn)).tryFill_other hother seq epoch⟩
  | none => exact .none

/-- A fingerprint of another stream. -/
theorem stageDedup {raw : RawEvent} {f : Fields V} (hother : ¬(raw.sourceText P = source ∧ f.instrument = instrument))
    (status : QualityStatus) (reasons : List Reason) {w : Work V}
    (hbounded : w.state.dedupWindow.length ≤ DEFAULT_DEDUP_WINDOW_SIZE) (hkeeps : w.state.KeepsWindow source instrument) :
    Aside P source instrument w (Mdrap.stageDedup P raw f status reasons w).2 := by
  rcases hknown : w.state.dedupSet.any (Fingerprint.same P (fingerprint P raw f)) with _ | _
  · rw [stageDedup_new hknown]
    have hx : (fingerprint P raw f).isOf source instrument = false := by
      rw [isOf_fingerprint]
      exact decide_eq_false hother
    obtain ⟨hset, hwindow, hbounded'⟩ := filter_push (P := P) (x := fingerprint P raw f) hbounded hkeeps
    refine ⟨fun _ _ => rfl, rfl, ?_, ?_, fun _ => hbounded', fun _ _ h => h, [_], rfl, ?_, ?_⟩
    · rw [hset]
      simp [hx]
    · rw [hwindow]
      simp [hx]
    · intro a ha
      rw [List.mem_singleton.mp ha]
      exact .dedup hx fun y hy => not_isOf_of_evicted hbounded hkeeps hy
    · rcases hev : w.state.evicted (fingerprint P raw f) with _ | y
      · simp [EngineState.push, hev, UndoAction.windowBefore]
      · obtain ⟨-, rest, hw⟩ := evicted_eq_some hbounded hev
        simp [EngineState.push, hev, UndoAction.windowBefore, hw]
  · rw [stageDedup_known hknown]
    exact refl w

section Other

variable {source' instrument' : String} (hkeys : ∀ k, streamKeys source' instrument' k → ¬streamKeys source instrument k)
include hkeys

/-- What works on the keys of another stream. -/
theorem onKeys {α : Type} {m : StepM V α} (h : OnKeys P (streamKeys source' instrument') m) :
    Proc.Frame (Aside P source instrument) m := by
  intro w
  have hconfined := h.confined w
  obtain ⟨js, hj, hjs⟩ := hconfined.journal
  have hrest := hconfined.rest
  have hset : (m w).2.state.dedupSet = w.state.dedupSet := congrArg Rest.dedupSet hrest
  have hwindow : (m w).2.state.dedupWindow = w.state.dedupWindow := congrArg Rest.dedupWindow hrest
  refine ⟨?_, congrArg Rest.stalenessThresholdS hrest, by rw [hset], by rw [hwindow], by rw [hwindow]; exact id,
    by rw [hconfined.gaps]; exact fun _ _ h => h, js, hj, ?_, ?_⟩
  · exact fun k hk => hconfined.cell k fun hk' => hkeys k hk' hk
  · intro a ha
    obtain ⟨k, hk, hwrites⟩ := hjs a ha
    refine ⟨?_, fun s => congrArg Rest.stalenessThresholdS (hwrites.rest s), fun s => ?_⟩
    · intro s j hj
      refine hwrites.frame s j ?_
      rintro rfl
      exact hkeys j hk hj
    · rw [show (a.undo P s).dedupSet = s.dedupSet from congrArg Rest.dedupSet (hwrites.rest s)]
  · rw [hwindow]
    -- an entry under a key does not touch the window
    have hsame : ∀ a ∈ js, ∀ window, a.windowBefore window = window := by
      intro a ha window
      obtain ⟨k, -, hwrites⟩ := hjs a ha
      have hundo := congrArg Rest.dedupWindow (hwrites.rest { w.state with dedupWindow := window })
      exact (undo_dedupWindow P a { w.state with dedupWindow := window }).symm.trans hundo
    clear hj hjs
    induction js with
    | nil => rfl
    | cons a js ih =>
      rw [List.foldl_cons, hsame a List.mem_cons_self]
      exact ih fun a ha => hsame a (List.mem_cons_of_mem _ ha)

theorem stageSequence {raw : RawEvent} (hsource : raw.sourceText P = source')
    (hother : ¬(source' = source ∧ instrument' = instrument)) (seq : Int) (recvTs : Json) {e : Epoch}
    (hslot : streamKeys source' instrument' e.slot) (hstream : streamKeys source' instrument' e.stream) (isReplay : Bool)
    (status : QualityStatus) (reasons : List Reason) :
    Proc.Frame (Aside P source instrument) (Mdrap.stageSequence P raw instrument' seq recvTs e isReplay status reasons) := by
  subst hsource
  refine bind (.read refl _) fun last => bind (.read refl _) fun seen => bind (.read refl _) fun cand =>
    bind (.read refl _) fun regress => ?_
  cases last with
  | none => exact bind (onKeys hkeys (.seqFirst hslot hstream seq)) fun _ => .pure refl _
  | some last =>
    refine ite (ite ?_ (ite ?_ ?_)) (ite (ite (.pure refl _) ?_) ?_)
    · exact bind (onKeys hkeys (.seqJump hslot hstream seq cand)) fun _ => .pure refl _
    · exact bind (openGaps hother _ _ _ _ _) fun _ => bind (onKeys hkeys (.seqAdvance hslot hstream seq _)) fun _ => .pure refl _
    · exact bind (onKeys hkeys (.seqAdvance hslot hstream seq _)) fun _ => .pure refl _
    · refine bind (fillGap hother _ _) fun filled => bind (onKeys hkeys (.seqLate hslot hstream seen _)) fun _ => ?_
      exact ite (.pure refl _) (.pure refl _)
    · exact onKeys hkeys (.seqBehind hslot hstream seq _ regress status reasons)

/-- The stages of a step on an event of another stream. -/
theorem runStages {c : StepConfig V} {raw : RawEvent} {f : Fields V} (hsource : raw.sourceText c.py = source')
    (hinstrument : f.instrument = instrument') (hother : ¬(source' = source ∧ instrument' = instrument)) (recvTs : Json)
    (isReplay : Bool) {w : Work V} (hbounded : w.state.dedupWindow.length ≤ DEFAULT_DEDUP_WINDOW_SIZE) :
    Proc.Leads (fun v => Aside c.py source instrument w v ∧ (f.seq = none → v.state.KeepsWindow source instrument))
      (Aside c.py source instrument w) (Mdrap.runStages c raw f recvTs isReplay) := by
  have hsession : OnKeys c.py (streamKeys source' instrument') (stageSessionAndEpoch c.py c.sessionPolicy raw f) := by
    refine .stageSessionAndEpoch _ _ _ ?_
    rw [hsource, hinstrument]
    exact fun n => ⟨n, rfl⟩
  have hfirst : Proc.Leads
      (fun v => Aside c.py source instrument w v ∧ (f.seq = none → v.state.KeepsWindow source instrument))
      (fun v => Aside c.py source instrument w v ∧ (f.seq = none → v.state.KeepsWindow source instrument))
      (stageSessionAndEpoch c.py c.sessionPolicy raw f) := by
    rintro v ⟨hv, hwindow⟩
    refine ⟨trans w v _ hv (onKeys hkeys hsession v), fun hseq => ?_⟩
    have hsame := congrArg Rest.dedupWindow (hsession.confined v).rest
    rw [EngineState.KeepsWindow, show ((stageSessionAndEpoch c.py c.sessionPolicy raw f) v).2.state.dedupWindow =
      v.state.dedupWindow from hsame]
    exact hwindow hseq
  refine .bind hfirst (stageSessionAndEpoch_keys c.py c.sessionPolicy raw f) (fun v hv => hv.1) ?_
  rintro e ⟨hslot, hstream⟩
  rw [hsource, hinstrument] at hslot hstream
  have hsecond : Proc.Leads
      (fun v => Aside c.py source instrument w v ∧ (f.seq = none → v.state.KeepsWindow source instrument))
      (Aside c.py source instrument w)
      (stageSequenceAndDedup c.py raw f recvTs e isReplay .valid (if e.reset then [.epochReset] else [])) := by
    rintro v ⟨hv, hwindow⟩
    refine trans w v _ hv ?_
    generalize (if e.reset then [.epochReset] else [] : List Reason) = reasons
    rcases hseq : f.seq with _ | seq
    · simp only [stageSequenceAndDedup, hseq]
      exact stageDedup (by rwa [hsource, hinstrument]) _ _ (hv.bounded hbounded) (hwindow hseq)
    · simp only [stageSequenceAndDedup, hseq, hinstrument]
      exact stageSequence hkeys hsource hother _ _ hslot hstream _ _ _ v
  refine .bind hsecond (fun _ _ _ => trivial) (fun _ hv => hv) fun order _ => ?_
  refine Proc.Frame.leads trans (bind (.read refl _) fun threshold => bind (.lift refl _) ?_) w
  rintro ⟨status, reasons⟩
  refine bind (onKeys hkeys (.stagePriceCorridor hslot _ _ _)) ?_
  rintro ⟨status, reasons⟩
  exact bind (stageBboAndReconciliation _ _ _ _ _) fun _ => .pure refl _

end Other

end Aside

/-- What the checks need of an event of another stream: its keys are not those of the stream. -/
def OtherKeys (P : Py V) (source instrument : String) (raw : RawEvent) : Prop :=
  ∀ name, raw.payload.get "instrument" = .str name →
    ¬(raw.sourceText P = source ∧ name = instrument) ∧
      ∀ k, streamKeys (raw.sourceText P) name k → ¬streamKeys source instrument k

theorem Aside.judge {c : StepConfig V} {raw : RawEvent} (hother : OtherKeys c.py source instrument raw) (now : Json) (offset : Int)
    (isReplay : Bool) {w : Work V} (hbounded : w.state.dedupWindow.length ≤ DEFAULT_DEDUP_WINDOW_SIZE) :
    Proc.Leads (fun v => Aside c.py source instrument w v ∧
        (raw.payload.get "sequence" = .null → v.state.KeepsWindow source instrument))
      (Aside c.py source instrument w) (Mdrap.judge c raw now offset isReplay) := by
  have hbump (d : EngineDecision V) : Proc.Leads (fun v => Aside c.py source instrument w v ∧
        (raw.payload.get "sequence" = .null → v.state.KeepsWindow source instrument))
      (Aside c.py source instrument w) (Mdrap.bumpCount .invalid >>= fun _ => pure d) := by
    rintro v ⟨hv, -⟩
    exact trans w v _ hv (bind (bumpCount _) (fun _ => .pure refl _) v)
  rw [Mdrap.judge]
  split
  · refine Proc.Leads.bind (q := fun v => Aside c.py source instrument w v ∧
        (raw.payload.get "sequence" = .null → v.state.KeepsWindow source instrument))
      (Q := fun checked => stageChecks c raw offset (raw.recvTs now) = .ok checked)
      (fun v hv => hv) (fun _ _ h => h) (fun v hv => hv.1) ?_
    intro checked hchecked
    cases checked with
    | error d => exact hbump d
    | ok f =>
      obtain ⟨hname, hseqOf⟩ := of_validated (stageChecks_passed hchecked).2
      obtain ⟨hne, hkeys⟩ := hother f.instrument hname
      rintro v ⟨hv, hwindow⟩
      refine Proc.Leads.bind (runStages hkeys rfl rfl hne (raw.recvTs now) isReplay hbounded) (fun _ _ _ => trivial)
        (fun _ h => h) ?_ v ⟨hv, fun hseq => hwindow (seqOf_eq_none (hseq ▸ hseqOf))⟩
      intro found _
      exact Proc.Frame.leads trans (bind (bumpCount _) fun _ => .lift refl _) w
  · exact hbump _

/-- A mirror of the stream still mirrors it. -/
theorem Aside.mirrors {w v : Work V} (h : Aside P source instrument w v) {s : EngineState V}
    (hM : Mirrors source instrument w.state s) : Mirrors source instrument v.state s where
  cell k hk := (h.cell k hk).trans (hM.cell k hk)
  threshold := h.threshold.trans hM.threshold
  dedupSet := by rw [h.dedupSet, hM.dedupSet]
  window := by rw [h.window]; exact hM.window
  bounded := h.bounded hM.bounded
  lone := hM.lone

/-- Undoing entries of other streams. -/
theorem undo_leaves {js : List (UndoAction V)} (h : ∀ a ∈ js, Leaves P source instrument a) (s : EngineState V) :
    (∀ k, streamKeys source instrument k → (js.foldl (fun s a => a.undo P s) s).cell k = s.cell k) ∧
      (js.foldl (fun s a => a.undo P s) s).stalenessThresholdS = s.stalenessThresholdS ∧
      (js.foldl (fun s a => a.undo P s) s).dedupSet.filter (Fingerprint.isOf source instrument) =
        s.dedupSet.filter (Fingerprint.isOf source instrument) ∧
      (js.foldl (fun s a => a.undo P s) s).dedupWindow =
        js.foldl (fun window a => a.windowBefore window) s.dedupWindow := by
  induction js generalizing s with
  | nil => exact ⟨fun _ _ => rfl, rfl, rfl, rfl⟩
  | cons a js ih =>
    have ha := h a List.mem_cons_self
    obtain ⟨hcell, hthreshold, hset, hwindow⟩ := ih (fun b hb => h b (List.mem_cons_of_mem _ hb)) (a.undo P s)
    simp only [List.foldl_cons]
    refine ⟨fun k hk => (hcell k hk).trans (ha.cell s k hk), hthreshold.trans (ha.threshold s), hset.trans (ha.dedupSet s), ?_⟩
    rw [hwindow, undo_dedupWindow]

/-- A step that has raised is undone, and the stream is as it was. -/
theorem Aside.rollback {w v : Work V} (h : Aside P source instrument w v) {s : EngineState V}
    (hM : Mirrors source instrument w.state s) : Mirrors source instrument (v.rollbackTo P w.journal.length).state s := by
  obtain ⟨js, hj, hjs, hwindow⟩ := h.journal
  have hundone : (v.rollbackTo P w.journal.length).state = js.foldl (fun s a => a.undo P s) v.state := by
    simp [Work.rollbackTo, hj]
  obtain ⟨hcell, hthreshold, hset, hback⟩ := undo_leaves hjs v.state
  rw [hwindow] at hback
  rw [hundone]
  refine ⟨fun k hk => (hcell k hk).trans ((h.cell k hk).trans (hM.cell k hk)), hthreshold.trans (h.threshold.trans hM.threshold),
    ?_, ?_, ?_, hM.lone⟩
  · rw [hset, h.dedupSet, hM.dedupSet]
  · rw [hback]
    exact hM.window
  · rw [hback]
    exact hM.bounded

/-- A step on an event of another stream leaves the stream's part of the engine as it is. -/
theorem other_step {c : StepConfig V} {raw : RawEvent} (hother : OtherKeys c.py source instrument raw) (now : Json)
    (offset : Option Int) (isReplay : Bool) {w : Work V} {s : EngineState V} (hM : Mirrors source instrument w.state s)
    (hwindow : raw.payload.get "sequence" = .null → w.state.KeepsWindow source instrument) {n : Nat} {g : Option GapManager}
    (hgaps : Option.Rel (GapManager.ShowsAt source instrument n) w.gaps g) :
    Mirrors source instrument (step c raw now offset isReplay w).2.state s ∧
      Option.Rel (GapManager.ShowsAt source instrument n) (step c raw now offset isReplay w).2.gaps g := by
  have hbegun : Aside c.py source instrument w (w.begun (offset.getD w.state.eventCount)) :=
    Aside.bind Aside.recordEventCount (fun _ => Aside.update
      (f := fun s => { s with eventCount := s.eventCount + 1, lastAppliedOffset := offset.getD w.state.eventCount })
      (fun _ _ => rfl) (fun _ => rfl) (fun _ => rfl) fun _ => rfl) w
  have haside := Aside.judge hother now (offset.getD w.state.eventCount) isReplay hM.bounded _ ⟨hbegun, hwindow⟩
  rw [← stepInternal_eq] at haside
  simp only [step]
  rcases hres : stepInternal c raw now (offset.getD w.state.eventCount) isReplay w with ⟨err | d, v⟩
  · rw [hres] at haside
    have hcounted : Aside c.py source instrument (v.rollbackTo c.py w.journal.length) _ :=
      Aside.countUnhandled (w.state.eventCount + 1) (v.rollbackTo c.py w.journal.length)
    exact ⟨hcounted.mirrors (haside.rollback hM), hcounted.gaps n g (haside.gaps n g hgaps)⟩
  · rw [hres] at haside
    exact ⟨haside.mirrors hM, haside.gaps n g hgaps⟩

end Mdrap
