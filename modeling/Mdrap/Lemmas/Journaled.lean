import Mdrap.Lemmas.Undo

/-!
# What is in the journal before it is changed

A stage may change a part of a cell when the journal has an entry for it. Which parts have one is a mask; a record makes the mask
larger, and a change within the mask is taken back (`Journaled`). The stages are gone through statement by statement.
-/

namespace Mdrap

open Lib

variable {V : Type} {P : Py V}

/-! ## Masks -/

/-- A part of a cell. -/
inductive Part where
  | seqState
  | seqSeen
  | seqCand
  | seqRegress
  | stale
  | prices
  | stats
  | anom
  | epoch
  | epochTs
  | session
  deriving DecidableEq

/-- The cells have the same there. -/
def Part.Agree (p : Part) (c c' : Cell V) : Prop :=
  match p with
  | .seqState => c.seqState = c'.seqState
  | .seqSeen => c.seqSeen = c'.seqSeen
  | .seqCand => c.seqCand = c'.seqCand
  | .seqRegress => c.seqRegress = c'.seqRegress
  | .stale => c.stale = c'.stale
  | .prices => c.prices = c'.prices
  | .stats => c.stats = c'.stats
  | .anom => c.anom = c'.anom
  | .epoch => c.epoch = c'.epoch
  | .epochTs => c.epochTs = c'.epochTs
  | .session => c.session = c'.session

/-- The cells are the same but for some parts. -/
def Cell.AgreeBut (N : Part → Prop) (c c' : Cell V) : Prop := ∀ p, ¬N p → p.Agree c c'

/-- What undoing an entry puts back. -/
def UndoAction.saves : UndoAction V → Option (String × Part)
  | .sequenceState k _ => some (k, .seqState)
  | .sequenceSeen k _ => some (k, .seqSeen)
  | .sequenceCand k _ => some (k, .seqCand)
  | .sequenceRegress k _ => some (k, .seqRegress)
  | .priceWindow k _ => some (k, .prices)
  | .priceAnom k _ => some (k, .anom)
  | .priceStats k _ => some (k, .stats)
  | .epochState k _ => some (k, .epoch)
  | .epochTs k _ => some (k, .epochTs)
  | .sessionState k _ => some (k, .session)
  | _ => none

/-- Which parts of which cells are in the journal. -/
abbrev Mask : Type := String → Part → Prop

namespace Mask

/-- Nothing; the lists of old numbers are left out of account. -/
def start : Mask := fun _ p => p = .stale

/-- Some parts of a cell more. -/
def add (M : Mask) (k : String) (ps : List Part) : Mask := fun j p => M j p ∨ (j = k ∧ p ∈ ps)

/-- Some parts more of the cells of an epoch and of its stream. -/
def addSlots (M : Mask) (e : Epoch) (ps : List Part) : Mask := (M.add e.slot ps).add e.stream ps

end Mask

theorem putAt_of_ne {a : UndoAction V} {k j : String} {p : Part} (h : a.saves = some (k, p)) (hj : j ≠ k) (c : Cell V) :
    a.putAt j c = c := by
  cases a with
  | dedup | eventCount | observedCount | lastAppliedOffset | count | bbo | recon => cases h
  | _ =>
    cases h
    exact if_neg hj

/-- Undoing an entry makes cells the same in the part that it puts back. -/
theorem agreeBut_putAt {a : UndoAction V} {k : String} {p : Part} (h : a.saves = some (k, p)) {N : Part → Prop} {c c' : Cell V}
    (hc : c.AgreeBut (fun q => N q ∨ q = p) c') : (a.putAt k c).AgreeBut N (a.putAt k c') := by
  intro q hq
  by_cases hp : q = p
  · subst hp
    cases a with
    | dedup | eventCount | observedCount | lastAppliedOffset | count | bbo | recon => cases h
    | _ =>
      cases h
      simp [UndoAction.putAt, UndoAction.put?, Part.Agree]
  · have hagree := hc q (by simp [hq, hp])
    cases a with
    | dedup | eventCount | observedCount | lastAppliedOffset | count | bbo | recon => cases h
    | _ =>
      cases h
      cases q <;> first | exact absurd rfl hp | simpa [UndoAction.putAt, UndoAction.put?, Part.Agree] using hagree

theorem put?_isSome {a : UndoAction V} {k : String} {p : Part} (h : a.saves = some (k, p)) : a.put?.isSome = true := by
  cases a with
  | dedup | eventCount | observedCount | lastAppliedOffset | count | bbo | recon => cases h
  | _ => rfl

/-! ## Journaled work -/

/-- The entries since a mark are for cells, take these back, and put back whatever the mask has. -/
structure Journaled (w₀ : Work V) (M : Mask) (w : Work V) : Prop where
  journal : ∃ js, w.journal = js ++ w₀.journal ∧ (∀ a ∈ js, a.put?.isSome = true) ∧
    (∀ k, (js.foldl (fun c (a : UndoAction V) => a.putAt k c) (w.state.cell k)).logged = (w₀.state.cell k).logged) ∧
    ∀ (k : String) (c c' : Cell V), c.AgreeBut (M k) c' →
      (js.foldl (fun c (a : UndoAction V) => a.putAt k c) c).logged = (js.foldl (fun c a => a.putAt k c) c').logged
  rest : w.state.rest = w₀.state.rest

namespace Journaled

variable {w₀ : Work V} {M M' : Mask}

theorem start (w : Work V) : Journaled w Mask.start w := by
  refine ⟨⟨[], rfl, by simp, fun _ => rfl, ?_⟩, rfl⟩
  intro k c c' h
  have hagree := fun p (hp : p ≠ Part.stale) => h p hp
  obtain ⟨⟩ := c
  obtain ⟨⟩ := c'
  simp only [List.foldl_nil, Cell.logged, Cell.mk.injEq, true_and]
  exact ⟨hagree .seqState nofun, hagree .seqSeen nofun, hagree .seqCand nofun, hagree .seqRegress nofun, hagree .prices nofun,
    hagree .stats nofun, hagree .anom nofun, hagree .epoch nofun, hagree .epochTs nofun, hagree .session nofun⟩

theorem logged {w : Work V} (h : Journaled w₀ M w) : Logged P w₀ w := by
  obtain ⟨⟨js, hj, hkeys, hcell, -⟩, hrest⟩ := h
  exact .of_cells js hj hkeys hrest hcell

/-- A smaller mask says less. -/
theorem mono {w : Work V} (h : Journaled w₀ M w) (hsub : ∀ k p, M' k p → M k p) : Journaled w₀ M' w := by
  obtain ⟨⟨js, hj, hkeys, hcell, hfree⟩, hrest⟩ := h
  exact ⟨⟨js, hj, hkeys, hcell, fun k c c' hc => hfree k c c' fun p hp => hc p fun hp' => hp (hsub k p hp')⟩, hrest⟩

/-- An entry for what is there now. -/
theorem record {a : EngineState V → UndoAction V} {k : String} {p : Part} (hsaves : ∀ s, (a s).saves = some (k, p))
    (hcurrent : ∀ s, (a s).putAt k (s.cell k) = s.cell k) :
    Proc.Ensures (Journaled w₀ M) (Journaled w₀ (M.add k [p])) (Mdrap.record a) := by
  refine .modify ?_
  rintro w ⟨⟨js, hj, hkeys, hcell, hfree⟩, hrest⟩
  have hsame : ∀ j, (a w.state).putAt j (w.state.cell j) = w.state.cell j := by
    intro j
    rcases eq_or_ne j k with rfl | hjk
    · exact hcurrent _
    · exact putAt_of_ne (hsaves _) hjk _
  refine ⟨⟨a w.state :: js, by simp [hj], ?_, ?_, ?_⟩, hrest⟩
  · exact List.forall_mem_cons.mpr ⟨put?_isSome (hsaves _), hkeys⟩
  · intro j
    simp only [List.foldl_cons, hsame]
    exact hcell j
  · intro j c c' hc
    rw [List.foldl_cons, List.foldl_cons]
    refine hfree j _ _ ?_
    rcases eq_or_ne j k with rfl | hjk
    · exact agreeBut_putAt (hsaves _) fun q hq => hc q (by simpa [Mask.add] using hq)
    · rw [putAt_of_ne (hsaves _) hjk, putAt_of_ne (hsaves _) hjk]
      exact fun q hq => hc q (by simpa [Mask.add, hjk] using hq)

/-- A change under one key, of parts that are in the journal. -/
theorem update {f : EngineState V → EngineState V} (k : String) (ps : List Part) (hps : ∀ p ∈ ps, M k p)
    (hother : ∀ s j, j ≠ k → (f s).cell j = s.cell j) (hkeep : ∀ s p, p ∉ ps → p.Agree ((f s).cell k) (s.cell k))
    (hrest : ∀ s, (f s).rest = s.rest) : Proc.Ensures (Journaled w₀ M) (Journaled w₀ M) (Mdrap.update f) := by
  refine .modify ?_
  rintro w ⟨⟨js, hj, hkeys, hcell, hfree⟩, hrest₀⟩
  refine ⟨⟨js, hj, hkeys, ?_, hfree⟩, (hrest _).trans hrest₀⟩
  intro j
  rcases eq_or_ne j k with rfl | hjk
  · exact (hfree j _ _ fun p hp => hkeep w.state p fun hmem => hp (hps p hmem)).trans (hcell j)
  · simp only [hother _ _ hjk]
    exact hcell j

/-- The last stretch of a stage. -/
theorem done {α : Type} {m : StepM V α} (h : Proc.Leads (Journaled w₀ M) (Journaled w₀ M') m) :
    Proc.Leads (Journaled w₀ M) (Logged P w₀) m := fun w hw => (h w hw).logged

/-- A stage that begins with nothing in the journal. -/
theorem frame {α : Type} {m : StepM V α} (h : ∀ w₀, Proc.Leads (Journaled w₀ Mask.start) (Logged P w₀) m) :
    Proc.Frame (Logged P) m := fun w => h w w (start w)

/-! ## Entries -/

theorem recordSequence (k : String) : Proc.Ensures (Journaled w₀ M)
    (Journaled w₀ (M.add k [.seqState, .seqSeen, .seqCand, .seqRegress])) (Mdrap.recordSequence k) := by
  refine .mono (.bind (record (k := k) (p := .seqState) (fun _ => rfl) ?_) fun _ =>
    .bind (record (k := k) (p := .seqSeen) (fun _ => rfl) ?_) fun _ =>
      .bind (record (k := k) (p := .seqCand) (fun _ => rfl) ?_) fun _ =>
        record (k := k) (p := .seqRegress) (fun _ => rfl) ?_) (fun _ h => h) ?_
  · simp [UndoAction.putAt, UndoAction.put?, EngineState.cell]
  · simp [UndoAction.putAt, UndoAction.put?, EngineState.cell]
  · simp [UndoAction.putAt, UndoAction.put?, EngineState.cell]
  · simp [UndoAction.putAt, UndoAction.put?, EngineState.cell]
  · intro w h
    refine h.mono fun j p hp => ?_
    simp only [Mask.add, List.mem_cons, List.not_mem_nil, or_false] at hp ⊢
    tauto

theorem recordPriceWindow (k : String) : Proc.Ensures (Journaled w₀ M)
    (Journaled w₀ (M.add k [.prices, .anom, .stats])) (Mdrap.recordPriceWindow k) := by
  refine .mono (.bind (record (k := k) (p := .prices) (fun _ => rfl) ?_) fun _ =>
    .bind (record (k := k) (p := .anom) (fun _ => rfl) ?_) fun _ =>
      record (k := k) (p := .stats) (fun _ => rfl) ?_) (fun _ h => h) ?_
  · simp [UndoAction.putAt, UndoAction.put?, EngineState.cell]
  · simp [UndoAction.putAt, UndoAction.put?, EngineState.cell]
  · simp [UndoAction.putAt, UndoAction.put?, EngineState.cell]
  · intro w h
    refine h.mono fun j p hp => ?_
    simp only [Mask.add, List.mem_cons, List.not_mem_nil, or_false] at hp ⊢
    tauto

theorem recordEpoch (k : String) : Proc.Ensures (Journaled w₀ M)
    (Journaled w₀ (M.add k [.epoch, .epochTs, .session])) (Mdrap.recordEpoch k) := by
  refine .mono (.bind (record (k := k) (p := .epoch) (fun _ => rfl) ?_) fun _ =>
    .bind (record (k := k) (p := .epochTs) (fun _ => rfl) ?_) fun _ =>
      record (k := k) (p := .session) (fun _ => rfl) ?_) (fun _ h => h) ?_
  · simp [UndoAction.putAt, UndoAction.put?, EngineState.cell]
  · simp [UndoAction.putAt, UndoAction.put?, EngineState.cell]
  · simp [UndoAction.putAt, UndoAction.put?, EngineState.cell]
  · intro w h
    refine h.mono fun j p hp => ?_
    simp only [Mask.add, List.mem_cons, List.not_mem_nil, or_false] at hp ⊢
    tauto

/-! ## The sequence -/

section Sequence

variable {e : Epoch}

theorem forSlots_record {ps : List Part} {m : String → StepM V Unit}
    (h : ∀ k (M : Mask), Proc.Ensures (Journaled w₀ M) (Journaled w₀ (M.add k ps)) (m k)) :
    Proc.Ensures (Journaled w₀ M) (Journaled w₀ (M.addSlots e ps)) (forSlots e m) := by
  refine .bind (h e.slot M) ?_
  intro _
  split
  · exact h e.stream _
  · rename_i heq
    rw [not_ne_iff] at heq
    refine .pure (fun w hw => hw.mono ?_) ()
    intro k p hp
    simp only [Mask.addSlots, Mask.add, heq] at hp ⊢
    tauto

theorem forSlots_update {m : String → StepM V Unit}
    (h : ∀ k, k = e.slot ∨ k = e.stream → Proc.Ensures (Journaled w₀ M) (Journaled w₀ M) (m k)) :
    Proc.Ensures (Journaled w₀ M) (Journaled w₀ M) (forSlots e m) := by
  refine .bind (h e.slot (.inl rfl)) ?_
  intro _
  split
  · exact h e.stream (.inr rfl)
  · exact .pure (fun _ hw => hw) ()

theorem mem_addSlots {ps : List Part} {k : String} (hk : k = e.slot ∨ k = e.stream) :
    ∀ p ∈ .stale :: ps, Mask.start.addSlots e ps k p := by
  intro p hp
  rcases List.mem_cons.mp hp with rfl | hmem
  · exact .inl (.inl rfl)
  · rcases hk with rfl | rfl
    · exact .inl (.inr ⟨rfl, hmem⟩)
    · exact .inr ⟨rfl, hmem⟩

/-- A stage that writes parts of both cells into the journal and then changes them. -/
theorem slots {ps : List Part} {m u : String → StepM V Unit}
    (hm : ∀ w₀ k (M : Mask), Proc.Ensures (Journaled w₀ M) (Journaled w₀ (M.add k ps)) (m k))
    (hu : ∀ w₀ k (M : Mask), (∀ p ∈ .stale :: ps, M k p) → Proc.Ensures (Journaled w₀ M) (Journaled w₀ M) (u k)) :
    Proc.Frame (Logged P) (forSlots e m >>= fun _ => forSlots e u) :=
  frame fun w₀ => (forSlots_record (hm w₀)).leads_bind fun _ =>
    done (Proc.Ensures.leads (forSlots_update fun k hk => hu w₀ k _ (mem_addSlots hk)))

end Sequence

end Journaled

namespace Logged

section Sequence

variable (e : Epoch) (seq : Int)

theorem seqFirst : Proc.Frame (Logged P) (Mdrap.seqFirst e seq : StepM V Unit) := by
  refine Journaled.slots (fun w₀ k M => Journaled.recordSequence k) fun w₀ k M hM => Journaled.update k _ hM ?_ ?_ fun s => rfl
  · exact fun s j hj => by simp [EngineState.cell, Dict.get?_set_ne _ hj]
  · exact fun s p hp => by cases p <;> first | rfl | simp at hp

theorem seqAdvance (seen : Nat) : Proc.Frame (Logged P) (Mdrap.seqAdvance e seq seen : StepM V Unit) := by
  refine Journaled.slots (fun w₀ k M => Journaled.recordSequence k) fun w₀ k M hM => Journaled.update k _ hM ?_ ?_ fun s => rfl
  · exact fun s j hj => by simp [EngineState.cell, Dict.get?_set_ne _ hj]
  · exact fun s p hp => by cases p <;> first | rfl | simp at hp

theorem seqJump (cand : Int) : Proc.Frame (Logged P) (Mdrap.seqJump e seq cand : StepM V Unit) := by
  refine ite (seqAdvance e seq 1) ?_
  refine @Journaled.slots _ _ _ [.seqCand] _ _ (fun w₀ k M => Journaled.record (fun _ => rfl) ?_) fun w₀ k M hM =>
    Journaled.update k _ hM ?_ ?_ fun s => rfl
  · simp [UndoAction.putAt, UndoAction.put?, EngineState.cell]
  · exact fun s j hj => by simp [EngineState.cell, Dict.get?_set_ne _ hj]
  · exact fun s p hp => by cases p <;> first | rfl | simp at hp

theorem seqLate (seen : Nat) (d : Int) : Proc.Frame (Logged P) (Mdrap.seqLate e seen d : StepM V Unit) := by
  refine @Journaled.slots _ _ _ [.seqSeen] _ _ (fun w₀ k M => Journaled.record (fun _ => rfl) ?_) fun w₀ k M hM =>
    Journaled.update k _ hM ?_ ?_ fun s => rfl
  · simp [UndoAction.putAt, UndoAction.put?, EngineState.cell]
  · exact fun s j hj => by simp [EngineState.cell, Dict.get?_set_ne _ hj]
  · exact fun s p hp => by cases p <;> first | rfl | simp at hp

theorem seqResync : Proc.Frame (Logged P) (Mdrap.seqResync e seq : StepM V Unit) := by
  refine Journaled.slots (fun w₀ k M => Journaled.recordSequence k) fun w₀ k M hM => Journaled.update k _ hM ?_ ?_ fun s => rfl
  · intro s j hj
    have hstale := (Writes.emptyStale (k := k)).frame s j hj
    simp only [EngineState.cell, Cell.mk.injEq] at hstale ⊢
    simp [Dict.get?_set_ne _ hj, hstale]
  · exact fun s p hp => by cases p <;> first | rfl | simp at hp

/-- A list of old numbers may change without an entry. -/
theorem staleList {w₀ : Work V} {M : Mask} {k : String} (hM : M k .stale) (g : EngineState V → List Int) :
    Proc.Ensures (Journaled w₀ M) (Journaled w₀ M)
      (update (fun s => { s with sequenceStaleSeen := s.sequenceStaleSeen.set k (g s) })) := by
  refine Journaled.update k [.stale] (by simpa using hM) ?_ ?_ fun s => rfl
  · exact fun s j hj => by simp [EngineState.cell, Dict.get?_set_ne _ hj]
  · exact fun s p hp => by cases p <;> first | rfl | simp at hp

theorem seqStale (regress : Nat) (stale : List Int) : Proc.Frame (Logged P) (Mdrap.seqStale e seq regress stale : StepM V Unit) := by
  refine Journaled.frame fun w₀ => (@Journaled.forSlots_record _ _ _ _ [.seqRegress] _ fun k M =>
    Journaled.record (fun _ => rfl) ?_).leads_bind fun _ => ?_
  · simp [UndoAction.putAt, UndoAction.put?, EngineState.cell]
  refine Proc.Ensures.leads_bind (Journaled.forSlots_update fun k hk => ?_) fun _ =>
    Journaled.done (staleList (.inl (.inl rfl)) fun _ => pushStale stale seq).leads
  refine Journaled.update k _ (Journaled.mem_addSlots hk) ?_ ?_ fun s => rfl
  · exact fun s j hj => by simp [EngineState.cell, Dict.get?_set_ne _ hj]
  · exact fun s p hp => by cases p <;> first | rfl | simp at hp

theorem seqBehind (hP : P.EqLaws) (d : Int) (regress : Nat) (status : QualityStatus) (reasons : List Reason) :
    Proc.Frame (Logged P) (Mdrap.seqBehind e seq d regress status reasons : StepM V Finding) := by
  refine bind hP (Journaled.frame fun w₀ => Journaled.done (staleList rfl fun s => (s.sequenceStaleSeen.get? e.slot).getD []).leads) ?_
  intro _
  refine bind hP (look _) ?_
  intro stale
  refine ite (pure _) (ite (ite ?_ ?_) ?_)
  · exact bind hP (seqResync e seq) fun _ => pure _
  · exact bind hP (seqStale e seq _ _) fun _ => pure _
  · exact bind hP (seqStale e seq _ _) fun _ => pure _

/-- A change beside the state and the journal. -/
theorem of_same {w w' : Work V} (hstate : w'.state = w.state) (hjournal : w'.journal = w.journal) : Logged P w w' := by
  intro hw
  rw [hstate]
  exact ⟨hw, [], hjournal, Restored.refl _⟩

theorem openGaps (source instrument : String) (last : Int) (epoch : Nat) (recvTs : Json) (isReplay : Bool) :
    Proc.Frame (Logged P) (Mdrap.openGaps source instrument last seq epoch recvTs isReplay : StepM V Unit) :=
  ite (pure _) fun _ => of_same rfl rfl

theorem fillGap (hP : P.EqLaws) (source instrument : String) (epoch : Nat) :
    Proc.Frame (Logged P) (Mdrap.fillGap source instrument seq epoch : StepM V Bool) := by
  refine bind hP (.read refl _) fun _ => bind hP ?_ fun _ => pure _
  exact fun _ => of_same rfl rfl

theorem stageSequence (hP : P.EqLaws) (raw : RawEvent) (instrument : String) (recvTs : Json) (isReplay : Bool)
    (status : QualityStatus) (reasons : List Reason) :
    Proc.Frame (Logged P) (Mdrap.stageSequence P raw instrument seq recvTs e isReplay status reasons) := by
  refine bind hP (look _) ?_
  intro lastSeq
  refine bind hP (look _) ?_
  intro seen
  refine bind hP (look _) ?_
  intro cand
  refine bind hP (look _) ?_
  intro regress
  cases lastSeq with
  | none => exact bind hP (seqFirst e seq) fun _ => pure _
  | some last =>
    refine ite (ite ?_ (ite ?_ ?_)) (ite (ite (pure _) ?_) ?_)
    · exact bind hP (seqJump e seq cand) fun _ => pure _
    · exact bind hP (openGaps seq _ _ _ _ _ _) fun _ => bind hP (seqAdvance e seq _) fun _ => pure _
    · exact bind hP (seqAdvance e seq _) fun _ => pure _
    · exact bind hP (fillGap seq hP _ _ _) fun _ => bind hP (seqLate e _ _) fun _ => ite (pure _) (pure _)
    · exact seqBehind e seq hP _ _ _ _

end Sequence

/-! ## The epoch -/

section Session

variable (stream : String) (session current : Option String) (epoch : Nat)

/-- The session of a stream, when it is in the journal. -/
theorem sessionEntry {w₀ : Work V} {M : Mask} (hM : M stream .session) (id : String) : Proc.Ensures (Journaled w₀ M) (Journaled w₀ M)
    (update (fun s => { s with sessionState := s.sessionState.set stream id })) := by
  refine Journaled.update stream [.session] (by simpa using hM) ?_ ?_ fun s => rfl
  · exact fun s j hj => by simp [EngineState.cell, Dict.get?_set_ne _ hj]
  · exact fun s p hp => by cases p <;> first | rfl | simp at hp

/-- The time of a stream, when it is in the journal. -/
theorem tsEntry {w₀ : Work V} {M : Mask} (hM : M stream .epochTs) (ts : V) : Proc.Ensures (Journaled w₀ M) (Journaled w₀ M)
    (update (fun s => { s with epochTs := s.epochTs.set stream ts })) := by
  refine Journaled.update stream [.epochTs] (by simpa using hM) ?_ ?_ fun s => rfl
  · exact fun s j hj => by simp [EngineState.cell, Dict.get?_set_ne _ hj]
  · exact fun s p hp => by cases p <;> first | rfl | simp at hp

/-- A reset has all of the stream in the journal, its time included. -/
theorem noteSession_reset {w₀ : Work V} : Proc.Ensures (Journaled w₀ Mask.start)
    (Journaled w₀ (Mask.start.add stream [.epoch, .epochTs, .session]))
    (stageSessionAndEpoch.noteSession stream session current epoch true : StepM V Unit) := by
  have hM (p : Part) (hp : p ∈ [Part.epoch, .epochTs, .session]) :
      Mask.start.add stream [.epoch, .epochTs, .session] stream p := .inr ⟨rfl, hp⟩
  refine .bind (Journaled.recordEpoch stream) fun _ => .bind (Journaled.update stream [.epoch] (by simpa using hM .epoch) ?_ ?_
    fun s => rfl) fun _ => ?_
  · exact fun s j hj => by simp [EngineState.cell, Dict.get?_set_ne _ hj]
  · exact fun s p hp => by cases p <;> first | rfl | simp at hp
  · cases session with
    | none => exact .pure (fun _ h => h) ()
    | some id => exact sessionEntry stream (hM _ (by simp)) id

theorem noteSession_stay : Proc.Frame (Logged P)
    (stageSessionAndEpoch.noteSession stream session current epoch false : StepM V Unit) := by
  cases session with
  | none => exact pure ()
  | some id =>
    cases current with
    | some _ => exact pure ()
    | none =>
      refine Journaled.frame fun w₀ => (Journaled.record (k := stream) (p := .session) (fun _ => rfl) ?_).leads_bind fun _ =>
        Journaled.done (sessionEntry stream (.inr ⟨rfl, by simp⟩) id).leads
      simp [UndoAction.putAt, UndoAction.put?, EngineState.cell]

theorem noteTs_stay (exchTs : V) (lastTs : Option V) :
    Proc.Frame (Logged P) (stageSessionAndEpoch.noteTs P stream exchTs lastTs false) := by
  refine ite (pure ()) ?_
  refine Journaled.frame fun w₀ => (Journaled.record (k := stream) (p := .epochTs) (fun _ => rfl) ?_).leads_bind fun _ =>
    Journaled.done (tsEntry stream (.inr ⟨rfl, by simp⟩) exchTs).leads
  simp [UndoAction.putAt, UndoAction.put?, EngineState.cell]

end Session

theorem stageSessionAndEpoch (hP : P.EqLaws) (policy : SessionPolicy) (raw : RawEvent) (f : Fields V) :
    Proc.Frame (Logged P) (Mdrap.stageSessionAndEpoch P policy raw f) := by
  refine bind hP (look _) ?_
  intro currentEpoch
  refine bind hP (look _) ?_
  intro currentSession
  refine bind hP (look _) ?_
  intro lastTs
  refine bind hP (look _) ?_
  intro last
  refine bind hP (lift _) ?_
  intro reset
  cases reset with
  | true =>
    refine Journaled.frame fun w₀ => (noteSession_reset _ _ _ _).leads_bind fun _ => @Journaled.done _ _ _ _ Mask.start _ _ <|
      Proc.Ensures.leads <| .bind (q := Journaled w₀ (Mask.start.add (streamKey (raw.sourceText P) f.instrument)
        [.epoch, .epochTs, .session])) ?_ fun _ => .pure (fun _ h => h.mono fun _ _ hp => .inl hp) _
    unfold stageSessionAndEpoch.noteTs
    split
    · exact .pure (fun _ h => h) ()
    · exact .bind (.pure (fun _ h => h) ()) fun _ => tsEntry _ (.inr ⟨rfl, by simp⟩) f.exchTs
  | false =>
    exact bind hP (noteSession_stay _ _ _ _) fun _ => bind hP (noteTs_stay _ _ _) fun _ => pure _

end Logged

end Mdrap
