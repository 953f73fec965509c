import Mdrap.Engine.Step

/-!
# What a step does under its keys

Most of the state is a row of dictionaries with the keys of streams and of their epochs. The entries of all of them under one key
are a cell; the stages of the epoch, of the sequence and of the price corridor look at, change and record only the cells of their
event (`OnKeys`). This is shown once for each of these stages. What is kept by every such piece, whatever the stages do, then
follows by induction over `OnKeys`.
-/

namespace Mdrap

open Lib

variable {V : Type}

/-! ## Cells -/

/-- What the state holds under a key. -/
structure Cell (V : Type) where
  seqState : Option Int
  seqSeen : Option Nat
  seqCand : Option Int
  seqRegress : Option Nat
  stale : Option (List Int)
  prices : Option (List V)
  stats : Option (V × V × Nat)
  anom : Option (Nat × V)
  epoch : Option Nat
  epochTs : Option V
  session : Option String

/-- What the state holds beside its keys. -/
structure Rest (V : Type) where
  eventCount : Nat
  lastAppliedOffset : Int
  observedCount : Nat
  dedupWindow : List (Fingerprint V)
  dedupSet : List (Fingerprint V)
  bboState : Dict String (Dict String (Quote V))
  reconciliationState : Dict String (Dict String (V × V))
  counts : Counts
  stalenessThresholdS : V

def EngineState.cell (s : EngineState V) (k : String) : Cell V where
  seqState := s.sequenceState.get? k
  seqSeen := s.sequenceSeen.get? k
  seqCand := s.sequenceCand.get? k
  seqRegress := s.sequenceRegress.get? k
  stale := s.sequenceStaleSeen.get? k
  prices := s.priceWindows.get? k
  stats := s.priceStats.get? k
  anom := s.priceAnom.get? k
  epoch := s.epochState.get? k
  epochTs := s.epochTs.get? k
  session := s.sessionState.get? k

def EngineState.rest (s : EngineState V) : Rest V where
  eventCount := s.eventCount
  lastAppliedOffset := s.lastAppliedOffset
  observedCount := s.observedCount
  dedupWindow := s.dedupWindow
  dedupSet := s.dedupSet
  bboState := s.bboState
  reconciliationState := s.reconciliationState
  counts := s.counts
  stalenessThresholdS := s.stalenessThresholdS

def EngineState.withRest (s : EngineState V) (r : Rest V) : EngineState V where
  __ := s
  eventCount := r.eventCount
  lastAppliedOffset := r.lastAppliedOffset
  observedCount := r.observedCount
  dedupWindow := r.dedupWindow
  dedupSet := r.dedupSet
  bboState := r.bboState
  reconciliationState := r.reconciliationState
  counts := r.counts
  stalenessThresholdS := r.stalenessThresholdS

/-- A change of what is under one key, by what is under it. -/
structure Writes (k : String) (f : EngineState V → EngineState V) : Prop where
  congr : ∀ s s', s.cell k = s'.cell k → (f s).cell k = (f s').cell k
  frame : ∀ s j, j ≠ k → (f s).cell j = s.cell j
  blind : ∀ s r, f (s.withRest r) = (f s).withRest r

/-- An entry of the journal for what is under one key. -/
structure Records (P : Py V) (k : String) (a : EngineState V → UndoAction V) : Prop where
  congr : ∀ s s', s.cell k = s'.cell k → a s = a s'
  undo : ∀ s, Writes k ((a s).undo P)

/-- A piece of a step that looks at, changes and records only what is under these keys. -/
inductive OnKeys (P : Py V) (K : String → Prop) : {α : Type} → StepM V α → Prop where
  | pure {α : Type} (a : α) : OnKeys P K (Pure.pure a)
  | lift {α : Type} (x : Except PyError α) : OnKeys P K (Proc.lift x)
  | bind {α β : Type} {m : StepM V α} {f : α → StepM V β} : OnKeys P K m → (∀ a, OnKeys P K (f a)) → OnKeys P K (m >>= f)
  | look {α : Type} {k : String} (hk : K k) (f : Cell V → α) : OnKeys P K (Mdrap.look (fun s => f (s.cell k)))
  | update {k : String} (hk : K k) {f : EngineState V → EngineState V} : Writes k f → OnKeys P K (Mdrap.update f)
  | record {k : String} (hk : K k) {a : EngineState V → UndoAction V} : Records P k a → OnKeys P K (Mdrap.record a)


namespace Writes

variable {k : String}

theorem comp {f g : EngineState V → EngineState V} (hf : Writes k f) (hg : Writes k g) : Writes k (fun s => f (g s)) where
  congr s s' h := hf.congr _ _ (hg.congr s s' h)
  frame s j hj := (hf.frame _ j hj).trans (hg.frame s j hj)
  blind s r := by rw [hg.blind, hf.blind]

theorem rest {f : EngineState V → EngineState V} (hf : Writes k f) (s : EngineState V) :
    (f s).rest = s.rest := by
  have h : f s = (f s).withRest s.rest := hf.blind s s.rest
  calc (f s).rest = ((f s).withRest s.rest).rest := congrArg EngineState.rest h
    _ = s.rest := rfl

/-- The entry of one dictionary is given a value or removed. -/
theorem of_field {τ : Type} (get : EngineState V → Dict String τ) (put : Dict String τ → EngineState V → EngineState V)
    (putCell : Option τ → Cell V → Cell V) (hcell : ∀ d s j, (put d s).cell j = putCell (d.get? j) (s.cell j))
    (hsame : ∀ s j, putCell ((get s).get? j) (s.cell j) = s.cell j)
    (hblind : ∀ d s r, put d (s.withRest r) = (put d s).withRest r) (hget : ∀ s r, get (s.withRest r) = get s)
    (v : Cell V → Option τ) : Writes k (fun s => put ((get s).restore k (v (s.cell k))) s) where
  congr s s' h := by rw [hcell, hcell, Dict.get?_restore, Dict.get?_restore, if_pos rfl, if_pos rfl, h]
  frame s j hj := by rw [hcell, Dict.get?_restore_ne _ hj, hsame]
  blind s r := by
    rw [hblind, hget]
    rfl

theorem sequenceState (v : Cell V → Option Int) :
    Writes k (fun s => { s with sequenceState := s.sequenceState.restore k (v (s.cell k)) }) :=
  of_field (·.sequenceState) (fun d s => { s with sequenceState := d }) (fun x c => { c with seqState := x })
    (fun _ _ _ => rfl) (fun _ _ => rfl) (fun _ _ _ => rfl) (fun _ _ => rfl) v

theorem sequenceSeen (v : Cell V → Option Nat) :
    Writes k (fun s => { s with sequenceSeen := s.sequenceSeen.restore k (v (s.cell k)) }) :=
  of_field (·.sequenceSeen) (fun d s => { s with sequenceSeen := d }) (fun x c => { c with seqSeen := x })
    (fun _ _ _ => rfl) (fun _ _ => rfl) (fun _ _ _ => rfl) (fun _ _ => rfl) v

theorem sequenceCand (v : Cell V → Option Int) :
    Writes k (fun s => { s with sequenceCand := s.sequenceCand.restore k (v (s.cell k)) }) :=
  of_field (·.sequenceCand) (fun d s => { s with sequenceCand := d }) (fun x c => { c with seqCand := x })
    (fun _ _ _ => rfl) (fun _ _ => rfl) (fun _ _ _ => rfl) (fun _ _ => rfl) v

theorem sequenceRegress (v : Cell V → Option Nat) :
    Writes k (fun s => { s with sequenceRegress := s.sequenceRegress.restore k (v (s.cell k)) }) :=
  of_field (·.sequenceRegress) (fun d s => { s with sequenceRegress := d }) (fun x c => { c with seqRegress := x })
    (fun _ _ _ => rfl) (fun _ _ => rfl) (fun _ _ _ => rfl) (fun _ _ => rfl) v

theorem sequenceStaleSeen (v : Cell V → Option (List Int)) :
    Writes k (fun s => { s with sequenceStaleSeen := s.sequenceStaleSeen.restore k (v (s.cell k)) }) :=
  of_field (·.sequenceStaleSeen) (fun d s => { s with sequenceStaleSeen := d }) (fun x c => { c with stale := x })
    (fun _ _ _ => rfl) (fun _ _ => rfl) (fun _ _ _ => rfl) (fun _ _ => rfl) v

theorem priceWindows (v : Cell V → Option (List V)) :
    Writes k (fun s => { s with priceWindows := s.priceWindows.restore k (v (s.cell k)) }) :=
  of_field (·.priceWindows) (fun d s => { s with priceWindows := d }) (fun x c => { c with prices := x })
    (fun _ _ _ => rfl) (fun _ _ => rfl) (fun _ _ _ => rfl) (fun _ _ => rfl) v

theorem priceStats (v : Cell V → Option (V × V × Nat)) :
    Writes k (fun s => { s with priceStats := s.priceStats.restore k (v (s.cell k)) }) :=
  of_field (·.priceStats) (fun d s => { s with priceStats := d }) (fun x c => { c with stats := x })
    (fun _ _ _ => rfl) (fun _ _ => rfl) (fun _ _ _ => rfl) (fun _ _ => rfl) v

theorem priceAnom (v : Cell V → Option (Nat × V)) :
    Writes k (fun s => { s with priceAnom := s.priceAnom.restore k (v (s.cell k)) }) :=
  of_field (·.priceAnom) (fun d s => { s with priceAnom := d }) (fun x c => { c with anom := x })
    (fun _ _ _ => rfl) (fun _ _ => rfl) (fun _ _ _ => rfl) (fun _ _ => rfl) v

theorem epochState (v : Cell V → Option Nat) :
    Writes k (fun s => { s with epochState := s.epochState.restore k (v (s.cell k)) }) :=
  of_field (·.epochState) (fun d s => { s with epochState := d }) (fun x c => { c with epoch := x })
    (fun _ _ _ => rfl) (fun _ _ => rfl) (fun _ _ _ => rfl) (fun _ _ => rfl) v

theorem epochTs (v : Cell V → Option V) :
    Writes k (fun s => { s with epochTs := s.epochTs.restore k (v (s.cell k)) }) :=
  of_field (·.epochTs) (fun d s => { s with epochTs := d }) (fun x c => { c with epochTs := x })
    (fun _ _ _ => rfl) (fun _ _ => rfl) (fun _ _ _ => rfl) (fun _ _ => rfl) v

theorem sessionState (v : Cell V → Option String) :
    Writes k (fun s => { s with sessionState := s.sessionState.restore k (v (s.cell k)) }) :=
  of_field (·.sessionState) (fun d s => { s with sessionState := d }) (fun x c => { c with session := x })
    (fun _ _ _ => rfl) (fun _ _ => rfl) (fun _ _ _ => rfl) (fun _ _ => rfl) v

/-- The list of old numbers is emptied where there is one. -/
theorem emptyStale : Writes k (fun (s : EngineState V) => { s with
    sequenceStaleSeen := if s.sequenceStaleSeen.contains k then s.sequenceStaleSeen.set k [] else s.sequenceStaleSeen }) where
  congr s s' h := by
    simp only [EngineState.cell, Cell.mk.injEq] at h ⊢
    by_cases hstale : (s'.sequenceStaleSeen.get? k).isSome = true
    · simp [h, Dict.contains, hstale]
    · simp [h, Dict.contains, hstale]
  frame s j hj := by
    simp only [EngineState.cell]
    split
    · rw [Dict.get?_set_ne _ hj]
    · rfl
  blind _ _ := rfl

end Writes

namespace Records

variable {P : Py V} {k : String}

theorem sequenceState : Records P k (fun s => .sequenceState k (s.sequenceState.get? k)) where
  congr _ _ h := congrArg (UndoAction.sequenceState k) (congrArg Cell.seqState h)
  undo s := Writes.sequenceState (fun _ => s.sequenceState.get? k)

theorem sequenceSeen : Records P k (fun s => .sequenceSeen k (s.sequenceSeen.get? k)) where
  congr _ _ h := congrArg (UndoAction.sequenceSeen k) (congrArg Cell.seqSeen h)
  undo s := Writes.sequenceSeen (fun _ => s.sequenceSeen.get? k)

theorem sequenceCand : Records P k (fun s => .sequenceCand k (s.sequenceCand.get? k)) where
  congr _ _ h := congrArg (UndoAction.sequenceCand k) (congrArg Cell.seqCand h)
  undo s := Writes.sequenceCand (fun _ => s.sequenceCand.get? k)

theorem sequenceRegress : Records P k (fun s => .sequenceRegress k (s.sequenceRegress.get? k)) where
  congr _ _ h := congrArg (UndoAction.sequenceRegress k) (congrArg Cell.seqRegress h)
  undo s := Writes.sequenceRegress (fun _ => s.sequenceRegress.get? k)

theorem priceWindow : Records P k (fun s => .priceWindow k (s.priceWindows.get? k)) where
  congr _ _ h := congrArg (UndoAction.priceWindow k) (congrArg Cell.prices h)
  undo s := Writes.priceWindows (fun _ => s.priceWindows.get? k)

theorem priceAnom : Records P k (fun s => .priceAnom k (s.priceAnom.get? k)) where
  congr _ _ h := congrArg (UndoAction.priceAnom k) (congrArg Cell.anom h)
  undo s := Writes.priceAnom (fun _ => s.priceAnom.get? k)

theorem priceStats : Records P k (fun s => .priceStats k (s.priceStats.get? k)) where
  congr _ _ h := congrArg (UndoAction.priceStats k) (congrArg Cell.stats h)
  undo s := Writes.priceStats (fun _ => s.priceStats.get? k)

theorem epochState : Records P k (fun s => .epochState k (s.epochState.get? k)) where
  congr _ _ h := congrArg (UndoAction.epochState k) (congrArg Cell.epoch h)
  undo s := Writes.epochState (fun _ => s.epochState.get? k)

theorem epochTs : Records P k (fun s => .epochTs k (s.epochTs.get? k)) where
  congr _ _ h := congrArg (UndoAction.epochTs k) (congrArg Cell.epochTs h)
  undo s := Writes.epochTs (fun _ => s.epochTs.get? k)

theorem sessionState : Records P k (fun s => .sessionState k (s.sessionState.get? k)) where
  congr _ _ h := congrArg (UndoAction.sessionState k) (congrArg Cell.session h)
  undo s := Writes.sessionState (fun _ => s.sessionState.get? k)

end Records

/-! ## The stages -/

namespace OnKeys

variable {P : Py V} {K : String → Prop} {α : Type}

theorem ite {p : Prop} [Decidable p] {m n : StepM V α} (hm : OnKeys P K m) (hn : OnKeys P K n) :
    OnKeys P K (if p then m else n) := by
  split
  · exact hm
  · exact hn

theorem recordSequence {k : String} (hk : K k) : OnKeys P K (Mdrap.recordSequence k) := by
  refine bind (record hk .sequenceState) ?_
  intro _
  refine bind (record hk .sequenceSeen) ?_
  intro _
  refine bind (record hk .sequenceCand) ?_
  intro _
  exact record hk .sequenceRegress

theorem recordPriceWindow {k : String} (hk : K k) : OnKeys P K (Mdrap.recordPriceWindow k) := by
  refine bind (record hk .priceWindow) ?_
  intro _
  refine bind (record hk .priceAnom) ?_
  intro _
  exact record hk .priceStats

theorem recordEpoch {k : String} (hk : K k) : OnKeys P K (Mdrap.recordEpoch k) := by
  refine bind (record hk .epochState) ?_
  intro _
  refine bind (record hk .epochTs) ?_
  intro _
  exact record hk .sessionState

section Session

variable {stream : String} (hstream : K stream)
include hstream

theorem noteSession (session current : Option String) (epoch : Nat) (reset : Bool) :
    OnKeys P K (stageSessionAndEpoch.noteSession stream session current epoch reset) := by
  have hid (id : String) : OnKeys P K (Mdrap.update (fun s => { s with sessionState := s.sessionState.set stream id })) :=
    update hstream (.sessionState (fun _ => some id))
  cases reset with
  | true =>
    refine bind (recordEpoch hstream) ?_
    intro _
    refine bind (update hstream (.epochState (fun _ => some epoch))) ?_
    intro _
    cases session with
    | none => exact pure _
    | some id => exact hid id
  | false =>
    cases session with
    | none => exact pure _
    | some id =>
      cases current with
      | none =>
        refine bind (record hstream .sessionState) ?_
        intro _
        exact hid id
      | some _ => exact pure _

theorem noteTs (exchTs : V) (lastTs : Option V) (reset : Bool) :
    OnKeys P K (stageSessionAndEpoch.noteTs P stream exchTs lastTs reset) := by
  have hts : OnKeys P K (Mdrap.update (fun s => { s with epochTs := s.epochTs.set stream exchTs })) :=
    update hstream (.epochTs (fun _ => some exchTs))
  refine ite (pure _) (ite hts (bind (record hstream .epochTs) ?_))
  intro _
  exact hts

end Session

theorem stageSessionAndEpoch (policy : SessionPolicy) (raw : RawEvent) (f : Fields V)
    (hK : ∀ n, K (slotKey (streamKey (raw.sourceText P) f.instrument) n)) :
    OnKeys P K (Mdrap.stageSessionAndEpoch P policy raw f) := by
  have hstream : K (streamKey (raw.sourceText P) f.instrument) := hK 0
  refine bind (look hstream (fun c => c.epoch.getD 0)) ?_
  intro currentEpoch
  refine bind (look hstream Cell.session) ?_
  intro currentSession
  refine bind (look hstream Cell.epochTs) ?_
  intro lastTs
  refine bind (look (hK currentEpoch) Cell.seqState) ?_
  intro last
  refine bind (lift _) ?_
  intro reset
  refine bind (noteSession hstream _ _ _ _) ?_
  intro _
  refine bind (noteTs hstream _ _ _) ?_
  intro _
  exact pure _

section Sequence

variable {e : Epoch} (hslot : K e.slot) (hstream : K e.stream)
include hslot hstream

theorem forSlots {f : String → StepM V Unit} (hf : ∀ k, K k → OnKeys P K (f k)) : OnKeys P K (Mdrap.forSlots e f) := by
  refine bind (hf _ hslot) ?_
  intro _
  exact ite (hf _ hstream) (pure _)

theorem seqFirst (seq : Int) : OnKeys P K (Mdrap.seqFirst e seq : StepM V Unit) := by
  refine bind (forSlots hslot hstream fun k hk => recordSequence hk) ?_
  intro _
  refine forSlots hslot hstream fun k hk => update hk ?_
  exact .comp (.sequenceState fun _ => some seq) (.comp (.sequenceSeen fun _ => some 1)
    (.comp (.sequenceCand fun _ => some 0) (.sequenceRegress fun _ => some 0)))

theorem seqAdvance (seq : Int) (seen : Nat) : OnKeys P K (Mdrap.seqAdvance e seq seen : StepM V Unit) := by
  refine bind (forSlots hslot hstream fun k hk => recordSequence hk) ?_
  intro _
  refine forSlots hslot hstream fun k hk => update hk ?_
  exact .comp (.sequenceState fun _ => some seq) (.comp (.sequenceSeen fun _ => some seen) (.sequenceCand fun _ => some 0))

theorem seqJump (seq cand : Int) : OnKeys P K (Mdrap.seqJump e seq cand : StepM V Unit) := by
  refine ite (seqAdvance hslot hstream seq 1) (bind (forSlots hslot hstream fun k hk => record hk .sequenceCand) ?_)
  intro _
  exact forSlots hslot hstream fun k hk => update hk (.sequenceCand fun _ => some (seq + 1))

theorem seqLate (seen : Nat) (d : Int) : OnKeys P K (Mdrap.seqLate e seen d : StepM V Unit) := by
  refine bind (forSlots hslot hstream fun k hk => record hk .sequenceSeen) ?_
  intro _
  exact forSlots hslot hstream fun k hk => update hk (.sequenceSeen fun _ => some _)

theorem seqResync (seq : Int) : OnKeys P K (Mdrap.seqResync e seq : StepM V Unit) := by
  refine bind (forSlots hslot hstream fun k hk => recordSequence hk) ?_
  intro _
  refine forSlots hslot hstream fun k hk => update hk ?_
  exact .comp (.sequenceState fun _ => some seq) (.comp (.sequenceSeen fun _ => some 1)
    (.comp (.sequenceRegress fun _ => some 0) (.comp (.sequenceCand fun _ => some 0) .emptyStale)))

theorem seqStale (seq : Int) (regress : Nat) (stale : List Int) :
    OnKeys P K (Mdrap.seqStale e seq regress stale : StepM V Unit) := by
  refine bind (forSlots hslot hstream fun k hk => record hk .sequenceRegress) ?_
  intro _
  refine bind (forSlots hslot hstream fun k hk => update hk (.sequenceRegress fun _ => some regress)) ?_
  intro _
  exact update hslot (.sequenceStaleSeen fun _ => some _)

theorem seqBehind (seq d : Int) (regress : Nat) (status : QualityStatus) (reasons : List Reason) :
    OnKeys P K (Mdrap.seqBehind e seq d regress status reasons : StepM V Finding) := by
  refine bind (update hslot (.sequenceStaleSeen fun c => some (c.stale.getD []))) ?_
  intro _
  refine bind (look hslot (fun c => c.stale.getD [])) ?_
  intro stale
  refine ite (pure _) (ite (ite ?_ ?_) ?_)
  · exact bind (seqResync hslot hstream seq) (fun _ => pure _)
  · exact bind (seqStale hslot hstream seq _ stale) (fun _ => pure _)
  · exact bind (seqStale hslot hstream seq _ stale) (fun _ => pure _)

end Sequence

section Prices

variable {slot : String} (hslot : K slot)
include hslot

theorem seedStats (prices : List V) : OnKeys P K (Mdrap.seedStats P slot prices) := by
  refine bind (look hslot Cell.stats) ?_
  intro stats
  cases stats with
  | some stats => exact pure _
  | none =>
    refine ite (bind (lift _) ?_) (pure _)
    intro mean
    refine bind (lift _) ?_
    intro m2
    refine bind (update hslot (.priceStats fun _ => some _)) ?_
    intro _
    exact pure _

theorem priceOutlier (price : V) (effStd : Option V) : OnKeys P K (Mdrap.priceOutlier P slot price effStd) := by
  refine bind (look hslot (fun c => c.anom.getD (0, P.dec 0 0))) ?_
  intro anom
  refine bind (lift _) ?_
  intro twentieth
  refine bind (lift _) ?_
  intro band
  refine bind (lift _) ?_
  intro d
  refine ite (update hslot ?_) (update hslot (.priceAnom fun _ => some _))
  exact .comp (.priceWindows fun _ => some _) (.comp (.priceStats fun _ => some _) (.priceAnom fun _ => some _))

theorem setStats (x : Except PyError (V × V × Nat)) : OnKeys P K (priceFold.setStats slot x) :=
  bind (lift x) fun _ => update hslot (.priceStats fun _ => some _)

theorem grow (prices : List V) (stats : Option (V × V × Nat)) (price : V) :
    OnKeys P K (priceFold.grow P slot prices stats price) := by
  refine bind (update hslot (.priceWindows fun _ => some _)) ?_
  intro _
  cases stats with
  | some stats => exact setStats hslot _
  | none => exact ite (setStats hslot _) (pure _)

theorem priceFold (prices : List V) (stats : Option (V × V × Nat)) (price : V) :
    OnKeys P K (Mdrap.priceFold P slot prices stats price) := by
  refine bind (update hslot (.priceAnom fun _ => some _)) ?_
  intro _
  cases prices with
  | nil => exact grow hslot _ _ _
  | cons old rest =>
    refine ite (bind (update hslot (.priceWindows fun _ => some _)) ?_) (grow hslot _ _ _)
    intro _
    cases stats with
    | some stats => exact setStats hslot _
    | none => exact pure _

theorem stagePriceCorridor (price : Option V) (status : QualityStatus) (reasons : List Reason) :
    OnKeys P K (Mdrap.stagePriceCorridor P slot price status reasons) := by
  cases price with
  | none => exact pure _
  | some price =>
    refine ite (pure _) (bind (recordPriceWindow hslot) ?_)
    intro _
    refine bind (update hslot (.priceWindows fun c => some (c.prices.getD []))) ?_
    intro _
    refine bind (look hslot (fun c => c.prices.getD [])) ?_
    intro prices
    refine bind (seedStats hslot prices) ?_
    intro stats
    refine bind (lift _) ?_
    rintro ⟨anomaly, effStd⟩
    refine ite (bind (priceOutlier hslot price effStd) ?_) (bind (priceFold hslot prices stats price) ?_)
    · exact fun _ => pure _
    · exact fun _ => pure _

end Prices

end OnKeys

end Mdrap
