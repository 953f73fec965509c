import Mathlib.Data.Option.Basic
import Mdrap.Lemmas.Paired

/-!
# The part of the engine that belongs to a stream

What an engine holds for one source and one instrument: the cells under the keys of the stream, the fingerprints of its events and
its open gaps. A second engine that is given only the events of the stream mirrors this part of the first one.
-/

namespace Mdrap

open Lib

variable {V : Type}

/-- The keys of a stream. -/
def streamKeys (source instrument k : String) : Prop := ∃ n, k = slotKey (streamKey source instrument) n

/-- The fingerprint is of an event of the stream. -/
def Fingerprint.isOf (source instrument : String) : Fingerprint V → Bool
  | .id s i _ _ => s = source ∧ i = instrument
  | .content s i _ _ _ => s = source ∧ i = instrument

/-- The gap is one of the stream. -/
def GapCoord.isOf (source instrument : String) (c : GapCoord) : Bool := c.source = source ∧ c.instrument = instrument

theorem isOf_of_same {P : Py V} (source instrument : String) {x y : Fingerprint V} (h : x.same P y = true) :
    x.isOf source instrument = y.isOf source instrument := by
  cases x <;> cases y <;> simp [Fingerprint.same] at h
  · simp [Fingerprint.isOf, h]
  · simp [Fingerprint.isOf, h]

theorem isOf_fingerprint (P : Py V) (source instrument : String) (raw : RawEvent) (f : Fields V) :
    (fingerprint P raw f).isOf source instrument = decide (raw.sourceText P = source ∧ f.instrument = instrument) := by
  rw [fingerprint]
  split <;> rfl

/-! ## Gaps -/

namespace GapManager

/-- A manager whose gaps are those of the stream among the gaps of another one, which is not over its capacity. -/
structure Shows (source instrument : String) (g g' : GapManager) : Prop where
  capacity : g'.maxOpenGaps = g.maxOpenGaps
  gaps : g'.openGaps.items = g.openGaps.items.filter (fun kv => kv.1.isOf source instrument)
  bounded : g.openGaps.size ≤ g.maxOpenGaps

variable {source instrument : String} {g g' : GapManager}

theorem Shows.contains (h : g.Shows source instrument g') {c : GapCoord} (hc : c.isOf source instrument = true) :
    g'.openGaps.contains c = g.openGaps.contains c := by
  rw [Dict.contains, Dict.contains, Dict.get?, Dict.get?, h.gaps, List.find?_filter]
  congr 3
  funext kv
  by_cases hkv : kv.1 = c
  · simp [hkv, hc]
  · simp [hkv]

theorem set_of_not_contains {d : Dict GapCoord GapRecord} {c : GapCoord} (h : d.contains c = false) (r : GapRecord) :
    d.set c r = ⟨d.items ++ [(c, r)]⟩ := by
  rw [Dict.set, h]
  rfl

theorem count_le_openGap (g : GapManager) (c : GapCoord) (r : GapRecord) :
    g.unrecoverableCount ≤ (g.openGap c r).unrecoverableCount := by
  rw [openGap]
  split
  · exact le_refl _
  · simp only
    split
    · simp
    · exact le_refl _

/-- A gap that is opened while nothing is given up. -/
theorem openGap_eq {c : GapCoord} {r : GapRecord} (h : (g.openGap c r).unrecoverableCount = g.unrecoverableCount) :
    (g.openGaps.contains c = true ∧ g.openGap c r = g) ∨
      (g.openGaps.contains c = false ∧ g.openGaps.size + 1 ≤ g.maxOpenGaps ∧
        g.openGap c r = { g with openGaps := ⟨g.openGaps.items ++ [(c, r)]⟩ }) := by
  rcases hc : g.openGaps.contains c with _ | _
  · have hset := set_of_not_contains hc r
    simp only [openGap, hc, Bool.false_eq_true, if_false, hset] at h ⊢
    refine Or.inr ⟨trivial, ?_⟩
    split at h
    · simp at h
    · rename_i hroom
      rw [if_neg hroom]
      refine ⟨?_, rfl⟩
      simpa [Dict.size] using hroom
  · exact Or.inl ⟨rfl, by simp [openGap, hc]⟩

theorem Shows.openGap (h : g.Shows source instrument g') {c : GapCoord} (hc : c.isOf source instrument = true) (r : GapRecord)
    (hcount : (g.openGap c r).unrecoverableCount = g.unrecoverableCount) :
    (g.openGap c r).Shows source instrument (g'.openGap c r) := by
  obtain ⟨hin, heq⟩ | ⟨hin, hroom, heq⟩ := openGap_eq hcount
  · have hin' := (h.contains hc).trans hin
    rw [heq]
    rw [show g'.openGap c r = g' by simp [GapManager.openGap, hin']]
    exact h
  · have hin' := (h.contains hc).trans hin
    have hset := set_of_not_contains hin' r
    have hsize : g'.openGaps.items.length ≤ g.openGaps.items.length := by
      rw [h.gaps]
      exact List.length_filter_le _ _
    have hroom' : ¬g'.maxOpenGaps < (⟨g'.openGaps.items ++ [(c, r)]⟩ : Dict GapCoord GapRecord).size := by
      rw [h.capacity]
      simp only [Dict.size, List.length_append, List.length_singleton] at hroom ⊢
      omega
    have heq' : g'.openGap c r = { g' with openGaps := ⟨g'.openGaps.items ++ [(c, r)]⟩ } := by
      simp only [GapManager.openGap, hin', Bool.false_eq_true, if_false, hset]
      rw [if_neg hroom']
    rw [heq, heq']
    refine ⟨h.capacity, ?_, ?_⟩
    · simp [h.gaps, hc]
    · simpa [Dict.size] using hroom

/-- A gap of another stream. -/
theorem Shows.openGap_other (h : g.Shows source instrument g') {c : GapCoord} (hc : c.isOf source instrument = false) (r : GapRecord)
    (hcount : (g.openGap c r).unrecoverableCount = g.unrecoverableCount) : (g.openGap c r).Shows source instrument g' := by
  obtain ⟨-, heq⟩ | ⟨-, hroom, heq⟩ := openGap_eq hcount
  · rw [heq]
    exact h
  · rw [heq]
    refine ⟨h.capacity, ?_, ?_⟩
    · simp [h.gaps, hc]
    · simpa [Dict.size] using hroom

/-- The manager has given up as many gaps as the number says, or more; where it is no more, the other one still shows the stream. -/
def ShowsAt (source instrument : String) (n : Nat) (g g' : GapManager) : Prop :=
  n ≤ g.unrecoverableCount ∧ (g.unrecoverableCount = n → g.Shows source instrument g')

theorem ShowsAt.recordGap {n : Nat} (h : g.ShowsAt source instrument n g') (expectedStart receivedSeq : Int) (epoch : Nat)
    (now : Json) : (g.recordGap source instrument expectedStart receivedSeq epoch now).ShowsAt source instrument n
      (g'.recordGap source instrument expectedStart receivedSeq epoch now) := by
  simp only [GapManager.recordGap]
  induction List.range (min (receivedSeq - expectedStart) 1000).toNat generalizing g g' with
  | nil => exact h
  | cons i is ih =>
    refine ih ?_
    have hmono := count_le_openGap g ⟨source, instrument, epoch, expectedStart + i⟩ ⟨receivedSeq, now⟩
    refine ⟨h.1.trans hmono, ?_⟩
    intro hn
    simp only at hn
    have hsame : g.unrecoverableCount = n := by
      have := h.1
      omega
    exact (h.2 hsame).openGap (by simp [GapCoord.isOf]) _ (by omega)

theorem ShowsAt.recordGap_other {n : Nat} (h : g.ShowsAt source instrument n g') {source' instrument' : String}
    (hother : ¬(source' = source ∧ instrument' = instrument)) (expectedStart receivedSeq : Int) (epoch : Nat) (now : Json) :
    (g.recordGap source' instrument' expectedStart receivedSeq epoch now).ShowsAt source instrument n g' := by
  simp only [GapManager.recordGap]
  induction List.range (min (receivedSeq - expectedStart) 1000).toNat generalizing g with
  | nil => exact h
  | cons i is ih =>
    refine ih ?_
    have hmono := count_le_openGap g ⟨source', instrument', epoch, expectedStart + i⟩ ⟨receivedSeq, now⟩
    refine ⟨h.1.trans hmono, ?_⟩
    intro hn
    simp only at hn
    have hsame : g.unrecoverableCount = n := by
      have := h.1
      omega
    exact (h.2 hsame).openGap_other (by simpa [GapCoord.isOf] using hother) _ (by omega)

theorem tryFill_count (g : GapManager) (source instrument : String) (seq : Int) (epoch : Nat) :
    (g.tryFill source instrument seq epoch).2.unrecoverableCount = g.unrecoverableCount := by
  simp only [tryFill]
  split <;> rfl

theorem Shows.tryFill (h : g.Shows source instrument g') (seq : Int) (epoch : Nat) :
    (g.tryFill source instrument seq epoch).1 = (g'.tryFill source instrument seq epoch).1 ∧
      (g.tryFill source instrument seq epoch).2.Shows source instrument (g'.tryFill source instrument seq epoch).2 := by
  have hin := h.contains (c := ⟨source, instrument, epoch, seq⟩) (by simp [GapCoord.isOf])
  simp only [GapManager.tryFill, hin]
  split
  · refine ⟨rfl, h.capacity, ?_, ?_⟩
    · simp only [Dict.erase, h.gaps, List.filter_filter, Bool.and_comm]
    · exact le_trans (List.length_filter_le _ _) h.bounded
  · exact ⟨rfl, h⟩

theorem Shows.tryFill_other (h : g.Shows source instrument g') {source' instrument' : String}
    (hother : ¬(source' = source ∧ instrument' = instrument)) (seq : Int) (epoch : Nat) :
    (g.tryFill source' instrument' seq epoch).2.Shows source instrument g' := by
  simp only [GapManager.tryFill]
  split
  · refine ⟨h.capacity, ?_, le_trans (List.length_filter_le _ _) h.bounded⟩
    rw [h.gaps, Dict.erase, List.filter_filter]
    refine List.filter_congr ?_
    intro kv _
    by_cases hkv : kv.1 = ⟨source', instrument', epoch, seq⟩
    · simpa [hkv, GapCoord.isOf] using hother
    · simp [hkv]
  · exact h

end GapManager

/-! ## Mirrors -/

/-- At most one feed, the source itself, has a price. -/
def Lone (source : String) (feeds : Option (Dict String (V × V))) : Prop :=
  ∀ d, feeds = some d → d.items.length ≤ 1 ∧ ∀ kv ∈ d.items, kv.1 = source

theorem Lone.set {source : String} {d : Dict String (V × V)} (h : Lone source (some d)) (v : V × V) :
    Lone source (some (d.set source v)) := by
  obtain ⟨hlen, hkeys⟩ := h d rfl
  rintro _ ⟨rfl⟩
  rw [Dict.set]
  split
  · refine ⟨by simpa using hlen, ?_⟩
    intro kv hkv
    obtain ⟨kv', hkv', rfl⟩ := List.mem_map.mp hkv
    split
    · rfl
    · exact hkeys kv' hkv'
  · rename_i hnot
    have hnil : d.items = [] := by
      rcases hitems : d.items with _ | ⟨kv, rest⟩
      · rfl
      · refine absurd ?_ hnot
        have hkv : kv.1 = source := hkeys kv (by rw [hitems]; exact List.mem_cons_self)
        simp [Dict.contains, Dict.get?, hitems, hkv]
    simp [hnil]

theorem Lone.erase {source : String} {d : Dict String (V × V)} (h : Lone source (some d)) (k : String) :
    Lone source (some (d.erase k)) := by
  obtain ⟨hlen, hkeys⟩ := h d rfl
  rintro _ ⟨rfl⟩
  refine ⟨(List.length_filter_le _ _).trans hlen, ?_⟩
  intro kv hkv
  exact hkeys kv (List.mem_of_mem_filter hkv)

theorem Lone.setNested {source instrument : String} {d : Dict String (Dict String (V × V))} (h : Lone source (d.get? instrument))
    (v : V × V) : Lone source ((setNested d instrument source v).get? instrument) := by
  rw [Mdrap.setNested, Dict.get?_set_self]
  refine Lone.set ?_ v
  rcases hd : d.get? instrument with _ | e
  · rintro _ ⟨rfl⟩
    exact ⟨by simp [Dict.empty], by simp [Dict.empty]⟩
  · rw [hd] at h
    exact h

theorem Lone.undoNested {source instrument : String} {d : Dict String (Dict String (V × V))} (h : Lone source (d.get? instrument))
    (hadOuter : Bool) (old : Option (V × V)) : Lone source ((undoNested d instrument source hadOuter old).get? instrument) := by
  rw [Mdrap.undoNested]
  split
  · rcases hd : d.get? instrument with _ | e
    · simpa [hd] using h
    · rw [hd] at h
      simp only [Dict.get?_set_self]
      cases old with
      | none => exact h.erase source
      | some v => exact h.set v
  · rw [Dict.get?_erase, if_pos rfl]
    rintro d hd
    cases hd

/-- The second state holds of the stream what the first one holds of it, and of other feeds no price. Its window is not longer than
the stream's part of the other one, which is within its size. -/
structure Mirrors (source instrument : String) (s s' : EngineState V) : Prop where
  cell : ∀ k, streamKeys source instrument k → s.cell k = s'.cell k
  threshold : s.stalenessThresholdS = s'.stalenessThresholdS
  dedupSet : s'.dedupSet = s.dedupSet.filter (Fingerprint.isOf source instrument)
  window : s'.dedupWindow.length ≤ (s.dedupWindow.filter (Fingerprint.isOf source instrument)).length
  bounded : s.dedupWindow.length ≤ DEFAULT_DEDUP_WINDOW_SIZE
  lone : Lone source (s'.reconciliationState.get? instrument)

namespace Mirrors

variable {source instrument : String}

theorem respects (source instrument : String) :
    Respects (@Mirrors V source instrument) (streamKeys source instrument) where
  look s s' k h hk := h.cell k hk
  write s s' k f h hk hf := by
    have hrest := hf.rest s
    have hrest' := hf.rest s'
    refine ⟨?_, ?_, ?_, ?_, ?_, ?_⟩
    · intro j hj
      by_cases hjk : j = k
      · subst hjk
        exact hf.congr s s' (h.cell j hj)
      · rw [hf.frame s j hjk, hf.frame s' j hjk]
        exact h.cell j hj
    · exact (congrArg Rest.stalenessThresholdS hrest).trans (h.threshold.trans (congrArg Rest.stalenessThresholdS hrest').symm)
    · rw [show (f s').dedupSet = s'.dedupSet from congrArg Rest.dedupSet hrest',
        show (f s).dedupSet = s.dedupSet from congrArg Rest.dedupSet hrest]
      exact h.dedupSet
    · rw [show (f s').dedupWindow = s'.dedupWindow from congrArg Rest.dedupWindow hrest',
        show (f s).dedupWindow = s.dedupWindow from congrArg Rest.dedupWindow hrest]
      exact h.window
    · rw [show (f s).dedupWindow = s.dedupWindow from congrArg Rest.dedupWindow hrest]
      exact h.bounded
    · rw [show (f s').reconciliationState = s'.reconciliationState from congrArg Rest.reconciliationState hrest']
      exact h.lone

theorem length_filter_dropLast {α : Type} (p : α → Bool) (xs : List α) :
    (xs.filter p).length - 1 ≤ (xs.dropLast.filter p).length := by
  rcases xs.eq_nil_or_concat with rfl | ⟨ys, y, rfl⟩
  · simp
  · rw [List.concat_eq_append, List.dropLast_concat, List.filter_append, List.length_append]
    have hlast : ([y].filter p).length ≤ 1 := List.length_filter_le p [y]
    omega

/-- Undoing the fingerprint of an event of the stream, where the other engine gave up none of the stream for it. -/
theorem undone_dedup (P : Py V) (x : Fingerprint V) {evicted : Option (Fingerprint V)}
    (h : ∀ y, evicted = some y → y.isOf source instrument = false) :
    Undone P (Mirrors source instrument) (.dedup x evicted) (.dedup x none) := by
  intro s s' hs
  have hset : s'.dedupSet.filter (fun z => !z.same P x) =
      (s.dedupSet.filter (fun z => !z.same P x)).filter (Fingerprint.isOf source instrument) := by
    rw [hs.dedupSet, List.filter_filter, List.filter_filter]
    simp only [Bool.and_comm]
  have hwindow : s'.dedupWindow.dropLast.length ≤ (s.dedupWindow.dropLast.filter (Fingerprint.isOf source instrument)).length := by
    rw [List.length_dropLast]
    have := hs.window
    have := length_filter_dropLast (Fingerprint.isOf source instrument) s.dedupWindow
    omega
  have hbounded : s.dedupWindow.dropLast.length + 1 ≤ DEFAULT_DEDUP_WINDOW_SIZE := by
    rw [List.length_dropLast]
    have := hs.bounded
    have hpos : 0 < DEFAULT_DEDUP_WINDOW_SIZE := by decide
    omega
  cases evicted with
  | none => exact ⟨hs.cell, hs.threshold, hset, hwindow, by simp only [UndoAction.undo]; omega, hs.lone⟩
  | some y =>
    have hy := h y rfl
    refine ⟨hs.cell, hs.threshold, ?_, ?_, ?_, hs.lone⟩
    · simp only [UndoAction.undo, List.filter_append, hset]
      simp [hy]
    · simpa [UndoAction.undo, hy] using hwindow
    · simpa [UndoAction.undo] using hbounded

end Mirrors

/-! ## The keys of an epoch -/

theorem stageSessionAndEpoch_keys (P : Py V) (policy : SessionPolicy) (raw : RawEvent) (f : Fields V) :
    Proc.Returns (fun e => streamKeys (raw.sourceText P) f.instrument e.slot ∧ streamKeys (raw.sourceText P) f.instrument e.stream)
      (stageSessionAndEpoch P policy raw f) := by
  refine .bind (.any _) fun currentEpoch _ => .bind (.any _) fun currentSession _ => .bind (.any _) fun lastTs _ => ?_
  refine .bind (.any _) fun last _ => .bind (.any _) fun reset _ => .bind (.any _) fun _ _ => .bind (.any _) fun _ _ => .pure ?_
  exact ⟨⟨_, rfl⟩, 0, rfl⟩

/-- The fields of an event that has passed the checks are those of its payload. -/
theorem of_validated {P : Py V} {raw : RawEvent} {offset : Int} {recvTs : Json} {f : Fields V}
    (h : stageSchemaValidation P raw offset recvTs = .ok (.ok f)) :
    raw.payload.get "instrument" = .str f.instrument ∧ stageSchemaValidation.seqOf (raw.payload.get "sequence") = some f.seq := by
  simp only [stageSchemaValidation] at h
  repeat' split at h
  all_goals try cases h
  all_goals
    simp only [bind, Except.bind] at h
    split at h
    · cases h
    · cases h
      exact ⟨by assumption, by assumption⟩

theorem seqOf_eq_none {j : Json} (h : stageSchemaValidation.seqOf j = some none) : j = .null := by
  cases j with
  | null => rfl
  | int m =>
    simp only [stageSchemaValidation.seqOf] at h
    split at h <;> cases h
  | _ => cases h

end Mdrap
