import Mdrap.Lib.UndoJournal
import Mdrap.Lemmas.OwnStep

/-!
# What the journal takes back

Each stage writes into the journal what it is going to change, but for the lists of old numbers. Undoing what a stage has written
leaves a state that cannot be told apart from the one it began in, where these lists are left out of account (`Restored`).

A fingerprint that comes into the window may push out the oldest one. Both are put back as long as the set of fingerprints is that of
the window and holds none twice, which every stage keeps.
-/

namespace Mdrap

open Lib

variable {V : Type} {P : Py V}

/-! ## Fingerprints -/

/-- What is known of `==` on numbers: it is symmetric and transitive. A number that is not a number is not equal to itself. -/
structure Py.EqLaws (P : Py V) : Prop where
  symm : ∀ a b, P.eq a b = true → P.eq b a = true
  trans : ∀ a b c, P.eq a b = true → P.eq b c = true → P.eq a c = true

/-- Two values that may be missing are equal. -/
def sameValue (P : Py V) : Option V → Option V → Prop
  | none, none => True
  | some a, some b => P.eq a b = true
  | _, _ => False

theorem same_content (P : Py V) (s i s' i' : String) (e e' : EventType) (t t' : V) (vs vs' : List (Option V)) :
    (Fingerprint.content s i e t vs).same P (.content s' i' e' t' vs') = true ↔
      s = s' ∧ i = i' ∧ e = e' ∧ P.eq t t' = true ∧ List.Forall₂ (sameValue P) vs vs' := by
  simp only [Fingerprint.same, decide_eq_true_eq, List.forall₂_iff_zip, List.all_eq_true]
  refine and_congr_right fun _ => and_congr_right fun _ => and_congr_right fun _ => and_congr_right fun _ => and_congr_right fun _ => ?_
  constructor
  · intro h a b hab
    have := h (a, b) hab
    rcases a with _ | a <;> rcases b with _ | b <;> simp_all [sameValue]
  · rintro h ⟨a, b⟩ hab
    have := h hab
    rcases a with _ | a <;> rcases b with _ | b <;> simp_all [sameValue]

theorem Fingerprint.same_symm (hP : P.EqLaws) {x y : Fingerprint V} (h : x.same P y = true) : y.same P x = true := by
  rcases x with ⟨s, i, e, x⟩ | ⟨s, i, e, t, vs⟩ <;> rcases y with ⟨s', i', e', x'⟩ | ⟨s', i', e', t', vs'⟩
  · simp only [same, decide_eq_true_eq] at h ⊢
    exact ⟨h.1.symm, h.2.1.symm, h.2.2.1.symm, h.2.2.2.symm⟩
  · simp [same] at h
  · simp [same] at h
  · rw [same_content] at h ⊢
    obtain ⟨hs, hi, he, ht, hvs⟩ := h
    refine ⟨hs.symm, hi.symm, he.symm, hP.symm _ _ ht, ?_⟩
    refine hvs.flip.imp ?_
    intro a b hab
    rcases a with _ | a <;> rcases b with _ | b
    · trivial
    · exact hab.elim
    · exact hab.elim
    · exact hP.symm _ _ hab

theorem Fingerprint.same_trans (hP : P.EqLaws) {x y z : Fingerprint V} (h : x.same P y = true) (h' : y.same P z = true) :
    x.same P z = true := by
  rcases x with ⟨s, i, e, x⟩ | ⟨s, i, e, t, vs⟩ <;> rcases y with ⟨s', i', e', x'⟩ | ⟨s', i', e', t', vs'⟩ <;>
    rcases z with ⟨s'', i'', e'', x''⟩ | ⟨s'', i'', e'', t'', vs''⟩
  all_goals try (simp [same] at h h'; done)
  · simp only [same, decide_eq_true_eq] at h h' ⊢
    exact ⟨h.1.trans h'.1, h.2.1.trans h'.2.1, h.2.2.1.trans h'.2.2.1, h.2.2.2.trans h'.2.2.2⟩
  · rw [same_content] at h h' ⊢
    obtain ⟨hs, hi, he, ht, hvs⟩ := h
    obtain ⟨hs', hi', he', ht', hvs'⟩ := h'
    refine ⟨hs.trans hs', hi.trans hi', he.trans he', hP.trans _ _ _ ht ht', ?_⟩
    clear ht ht'
    induction hvs generalizing vs'' with
    | nil =>
      cases hvs'
      exact .nil
    | @cons a b as bs hab _ ih =>
      cases hvs' with
      | @cons _ c _ cs hbc hcs =>
        refine .cons ?_ (ih cs hcs)
        rcases a with _ | a <;> rcases b with _ | b <;> rcases c with _ | c
        all_goals try trivial
        exact hP.trans _ _ _ hab hbc

/-- The fingerprint is in the set. -/
def known (P : Py V) (set : List (Fingerprint V)) (x : Fingerprint V) : Bool := set.any (x.same P)

theorem known_append (xs ys : List (Fingerprint V)) (x : Fingerprint V) : known P (xs ++ ys) x = (known P xs x || known P ys x) :=
  List.any_append

/-- Fingerprints that are not the same as a given one. -/
theorem known_filter (hP : P.EqLaws) {xs ys : List (Fingerprint V)} (h : ∀ x, known P xs x = known P ys x) (y x : Fingerprint V) :
    known P (xs.filter (fun z => !z.same P y)) x = known P (ys.filter (fun z => !z.same P y)) x := by
  have hsub : ∀ {xs ys : List (Fingerprint V)}, (∀ x, known P xs x = known P ys x) →
      known P (xs.filter (fun z => !z.same P y)) x = true → known P (ys.filter (fun z => !z.same P y)) x = true := by
    intro xs ys h hx
    simp only [known, List.any_eq_true, List.mem_filter, Bool.not_eq_true'] at hx ⊢
    obtain ⟨z, ⟨hz, hzy⟩, hxz⟩ := hx
    have hknown : known P ys x = true := by
      rw [← h, known, List.any_eq_true]
      exact ⟨z, hz, hxz⟩
    obtain ⟨z', hz', hxz'⟩ := List.any_eq_true.mp hknown
    refine ⟨z', ⟨hz', ?_⟩, hxz'⟩
    rw [Bool.eq_false_iff]
    intro hzy'
    have hzz' := Fingerprint.same_trans hP (Fingerprint.same_symm hP hxz) hxz'
    rw [Fingerprint.same_trans hP hzz' hzy'] at hzy
    cases hzy
  rw [Bool.eq_iff_iff]
  exact ⟨hsub h, hsub (fun x => (h x).symm)⟩

/-- Nothing is the same as a fingerprint that is left when it is taken away itself, because it is not the same as itself. -/
theorem known_filter_self (hP : P.EqLaws) (y x : Fingerprint V) : known P ([y].filter (fun z => !z.same P y)) x = false := by
  rw [Bool.eq_false_iff]
  intro h
  simp only [known, List.any_eq_true, List.mem_filter, List.mem_singleton, Bool.not_eq_true'] at h
  obtain ⟨z, ⟨rfl, hself⟩, hxz⟩ := h
  rw [Fingerprint.same_trans hP (Fingerprint.same_symm hP hxz) hxz] at hself
  cases hself

/-- Taking a fingerprint away from among others. -/
theorem known_filter_fresh (hP : P.EqLaws) {xs : List (Fingerprint V)} {y : Fingerprint V} (h : ∀ z ∈ xs, z.same P y = false)
    (x : Fingerprint V) :
    known P ((y :: xs).filter (fun z => !z.same P y)) x = known P xs x ∧
      known P ((xs ++ [y]).filter (fun z => !z.same P y)) x = known P xs x := by
  have hxs : xs.filter (fun z => !z.same P y) = xs := by
    rw [List.filter_eq_self]
    intro z hz
    rw [h z hz]
    rfl
  constructor
  · rw [← List.singleton_append, List.filter_append, known_append, known_filter_self hP, hxs, Bool.false_or]
  · rw [List.filter_append, known_append, known_filter_self hP, hxs, Bool.or_false]

/-- The set of fingerprints is that of the window, which holds none twice and not too many. -/
structure EngineState.Deduped (P : Py V) (s : EngineState V) : Prop where
  known : ∀ x, known P s.dedupSet x = known P s.dedupWindow x
  single : s.dedupWindow.Pairwise (fun x y => x.same P y = false)
  bounded : s.dedupWindow.length ≤ DEFAULT_DEDUP_WINDOW_SIZE

namespace EngineState.Deduped

variable {s : EngineState V} {x : Fingerprint V}

/-- A fingerprint that is not known is not the same as any in the window. -/
theorem fresh (hP : P.EqLaws) (h : s.Deduped P) (hx : Mdrap.known P s.dedupSet x = false) :
    ∀ z ∈ s.dedupWindow, z.same P x = false := by
  intro z hz
  rw [Bool.eq_false_iff]
  intro hzx
  rw [h.known, Bool.eq_false_iff, Mdrap.known, ne_eq, List.any_eq_true, not_exists] at hx
  exact hx z ⟨hz, Fingerprint.same_symm hP hzx⟩

/-- A new fingerprint comes in, and the oldest one goes out when there are too many. -/
theorem push (hP : P.EqLaws) (h : s.Deduped P) (hx : Mdrap.known P s.dedupSet x = false) : (s.push P x).Deduped P := by
  have hfresh := h.fresh hP hx
  have hknown : ∀ q, Mdrap.known P (s.dedupSet ++ [x]) q = Mdrap.known P (s.dedupWindow ++ [x]) q := by
    intro q
    rw [known_append, known_append, h.known]
  have hsingle : (s.dedupWindow ++ [x]).Pairwise (fun x y => x.same P y = false) :=
    List.pairwise_append.mpr ⟨h.single, List.pairwise_singleton _ _, by simpa using hfresh⟩
  rcases hev : s.evicted x with _ | y
  · have hroom := evicted_eq_none hev
    exact ⟨by simpa only [EngineState.push, hev] using hknown, by simpa only [EngineState.push, hev] using hsingle,
      by simp only [EngineState.push, hev, List.length_append]; exact hroom⟩
  · obtain ⟨hfull, rest, hwindow⟩ := evicted_eq_some h.bounded hev
    rw [hwindow, List.cons_append] at hknown hsingle
    have hrest : ∀ z ∈ rest ++ [x], z.same P y = false := by
      intro z hz
      rw [Bool.eq_false_iff]
      intro hzy
      have hyz := List.rel_of_pairwise_cons hsingle hz
      rw [Fingerprint.same_symm hP hzy] at hyz
      cases hyz
    refine ⟨?_, ?_, ?_⟩
    · intro q
      simp only [EngineState.push, hev, hwindow, List.cons_append, List.tail_cons]
      rw [known_filter hP hknown, (known_filter_fresh hP hrest q).1]
    · simp only [EngineState.push, hev, hwindow, List.cons_append, List.tail_cons]
      exact hsingle.of_cons
    · simp only [EngineState.push, hev, hwindow, List.cons_append, List.tail_cons]
      rw [hwindow, List.length_cons] at hfull
      rw [List.length_append, List.length_singleton]
      omega

/-- Undoing the entry of a new fingerprint gives the window back, and a set that knows the same. -/
theorem undo_push (hP : P.EqLaws) (h : s.Deduped P) (hx : Mdrap.known P s.dedupSet x = false) :
    ((UndoAction.dedup x (s.evicted x)).undo P (s.push P x)).dedupWindow = s.dedupWindow ∧
      ∀ q, Mdrap.known P ((UndoAction.dedup x (s.evicted x)).undo P (s.push P x)).dedupSet q = Mdrap.known P s.dedupSet q := by
  have hfresh := h.fresh hP hx
  have hpush := h.push hP hx
  rcases hev : s.evicted x with _ | y
  · simp only [EngineState.push, hev, UndoAction.undo, List.dropLast_concat, true_and]
    intro q
    have hknown : ∀ q, Mdrap.known P (s.dedupSet ++ [x]) q = Mdrap.known P (s.dedupWindow ++ [x]) q := by
      intro q
      rw [known_append, known_append, h.known]
    rw [known_filter hP hknown, (known_filter_fresh hP hfresh q).2, h.known]
  · obtain ⟨hfull, rest, hwindow⟩ := evicted_eq_some h.bounded hev
    have hknown := hpush.known
    simp only [EngineState.push, hev, hwindow, List.cons_append, List.tail_cons] at hknown
    refine ⟨by simp [EngineState.push, hev, UndoAction.undo, hwindow], ?_⟩
    intro q
    have hrest : ∀ z ∈ rest, z.same P x = false := fun z hz => hfresh z (by rw [hwindow]; exact List.mem_cons_of_mem _ hz)
    have hsplit : Mdrap.known P (y :: rest) q = (Mdrap.known P [y] q || Mdrap.known P rest q) := known_append [y] rest q
    simp only [EngineState.push, hev, UndoAction.undo]
    rw [known_append, known_filter hP hknown, (known_filter_fresh hP hrest q).2, h.known, hwindow, hsplit, Bool.or_comm]

end EngineState.Deduped

/-! ## States that cannot be told apart -/

/-- What is under a key, without the list of old numbers. -/
def Cell.logged (c : Cell V) : Cell V := { c with stale := none }

/-- The entries of a nested dictionary. -/
def entries {α : Type} (d : Dict String (Dict String α)) (outer : String) : Option (String → Option α) :=
  (d.get? outer).map Dict.get?

/-- The states are the same to every look at them, but for the lists of old numbers. -/
structure Restored (P : Py V) (s t : EngineState V) : Prop where
  cell : ∀ k, (s.cell k).logged = (t.cell k).logged
  eventCount : s.eventCount = t.eventCount
  lastAppliedOffset : s.lastAppliedOffset = t.lastAppliedOffset
  observedCount : s.observedCount = t.observedCount
  dedupWindow : s.dedupWindow = t.dedupWindow
  dedupSet : ∀ x, known P s.dedupSet x = known P t.dedupSet x
  bboState : ∀ i, entries s.bboState i = entries t.bboState i
  reconciliationState : ∀ i, entries s.reconciliationState i = entries t.reconciliationState i
  counts : s.counts = t.counts
  stalenessThresholdS : s.stalenessThresholdS = t.stalenessThresholdS

theorem Restored.refl (s : EngineState V) : Restored P s s :=
  ⟨fun _ => rfl, rfl, rfl, rfl, rfl, fun _ => rfl, fun _ => rfl, fun _ => rfl, rfl, rfl⟩

theorem Restored.trans {s t u : EngineState V} (h : Restored P s t) (h' : Restored P t u) : Restored P s u where
  cell k := (h.cell k).trans (h'.cell k)
  eventCount := h.eventCount.trans h'.eventCount
  lastAppliedOffset := h.lastAppliedOffset.trans h'.lastAppliedOffset
  observedCount := h.observedCount.trans h'.observedCount
  dedupWindow := h.dedupWindow.trans h'.dedupWindow
  dedupSet x := (h.dedupSet x).trans (h'.dedupSet x)
  bboState i := (h.bboState i).trans (h'.bboState i)
  reconciliationState i := (h.reconciliationState i).trans (h'.reconciliationState i)
  counts := h.counts.trans h'.counts
  stalenessThresholdS := h.stalenessThresholdS.trans h'.stalenessThresholdS

theorem Restored.symm {s t : EngineState V} (h : Restored P s t) : Restored P t s where
  cell k := (h.cell k).symm
  eventCount := h.eventCount.symm
  lastAppliedOffset := h.lastAppliedOffset.symm
  observedCount := h.observedCount.symm
  dedupWindow := h.dedupWindow.symm
  dedupSet x := (h.dedupSet x).symm
  bboState i := (h.bboState i).symm
  reconciliationState i := (h.reconciliationState i).symm
  counts := h.counts.symm
  stalenessThresholdS := h.stalenessThresholdS.symm

/-- States with the same rest are told apart by their cells only. -/
theorem Restored.of_rest {s t : EngineState V} (hrest : s.rest = t.rest) (hcell : ∀ k, (s.cell k).logged = (t.cell k).logged) :
    Restored P s t where
  cell := hcell
  eventCount := congrArg Rest.eventCount hrest
  lastAppliedOffset := congrArg Rest.lastAppliedOffset hrest
  observedCount := congrArg Rest.observedCount hrest
  dedupWindow := congrArg Rest.dedupWindow hrest
  dedupSet x := congrArg (fun r => known P (Rest.dedupSet r) x) hrest
  bboState i := congrArg (fun r => entries (Rest.bboState r) i) hrest
  reconciliationState i := congrArg (fun r => entries (Rest.reconciliationState r) i) hrest
  counts := congrArg Rest.counts hrest
  stalenessThresholdS := congrArg Rest.stalenessThresholdS hrest

theorem Restored.deduped {s t : EngineState V} (h : Restored P s t) (ht : t.Deduped P) : s.Deduped P where
  known x := by rw [h.dedupSet, h.dedupWindow, ht.known]
  single := h.dedupWindow ▸ ht.single
  bounded := h.dedupWindow ▸ ht.bounded

/-- Undoing the same entry of a nested dictionary. -/
theorem entries_undoNested {α : Type} {d d' : Dict String (Dict String α)} (h : ∀ i, entries d i = entries d' i) (outer inner : String)
    (hadOuter : Bool) (old : Option α) (i : String) :
    entries (undoNested d outer inner hadOuter old) i = entries (undoNested d' outer inner hadOuter old) i := by
  have hi := h i
  have houter := h outer
  unfold undoNested
  cases hadOuter with
  | false =>
    simp only [Bool.false_eq_true, if_false, entries, Dict.get?_erase] at hi ⊢
    split
    · rfl
    · exact hi
  | true =>
    simp only [if_true]
    rcases hd : d.get? outer with _ | e
    · have hd' : d'.get? outer = none := by simpa [entries, hd, eq_comm] using houter
      rw [hd']
      exact hi
    · obtain ⟨e', hd', he⟩ : ∃ e', d'.get? outer = some e' ∧ e.get? = e'.get? := by
        rcases hd' : d'.get? outer with _ | e'
        · simp [entries, hd, hd'] at houter
        · exact ⟨e', rfl, by simpa [entries, hd, hd'] using houter⟩
      rw [hd']
      simp only [entries, Dict.get?_set] at hi ⊢
      split
      · simp only [Option.map_some, Option.some.injEq]
        funext k
        rw [Dict.get?_restore, Dict.get?_restore, he]
      · exact hi

/-- What undoing an entry puts under which key, if it is an entry for a key. -/
def UndoAction.put? : UndoAction V → Option (String × (Cell V → Cell V))
  | .sequenceState k old => some (k, fun c => { c with seqState := old })
  | .sequenceSeen k old => some (k, fun c => { c with seqSeen := old })
  | .sequenceCand k old => some (k, fun c => { c with seqCand := old })
  | .sequenceRegress k old => some (k, fun c => { c with seqRegress := old })
  | .priceWindow k old => some (k, fun c => { c with prices := old })
  | .priceAnom k old => some (k, fun c => { c with anom := old })
  | .priceStats k old => some (k, fun c => { c with stats := old })
  | .epochState k old => some (k, fun c => { c with epoch := old })
  | .epochTs k old => some (k, fun c => { c with epochTs := old })
  | .sessionState k old => some (k, fun c => { c with session := old })
  | _ => none

/-- The cell of a key after an entry is undone. -/
def UndoAction.putAt (a : UndoAction V) (j : String) (c : Cell V) : Cell V :=
  match a.put? with
  | some (k, f) => if j = k then f c else c
  | none => c

theorem cell_undo (a : UndoAction V) (s : EngineState V) (j : String) : (a.undo P s).cell j = a.putAt j (s.cell j) := by
  cases a with
  | dedup added evicted => cases evicted <;> rfl
  | eventCount | observedCount | lastAppliedOffset | count | bbo | recon => rfl
  | _ =>
    simp only [UndoAction.undo, EngineState.cell, UndoAction.putAt, UndoAction.put?, Dict.get?_restore]
    split <;> rfl

theorem logged_putAt (a : UndoAction V) (j : String) (c : Cell V) : (a.putAt j c).logged = a.putAt j c.logged := by
  unfold UndoAction.putAt
  cases a with
  | dedup | eventCount | observedCount | lastAppliedOffset | count | bbo | recon => rfl
  | _ =>
    simp only [UndoAction.put?]
    split <;> rfl

/-- What cannot be told apart cannot be told apart when the same entry is undone. -/
theorem Restored.undo (hP : P.EqLaws) (a : UndoAction V) {s t : EngineState V} (h : Restored P s t) :
    Restored P (a.undo P s) (a.undo P t) := by
  have hcell : ∀ k, ((a.undo P s).cell k).logged = ((a.undo P t).cell k).logged := by
    intro k
    rw [cell_undo, cell_undo, logged_putAt, logged_putAt, h.cell]
  cases a with
  | eventCount old => exact { h with cell := hcell, eventCount := rfl }
  | observedCount old => exact { h with cell := hcell, observedCount := rfl }
  | lastAppliedOffset old => exact { h with cell := hcell, lastAppliedOffset := rfl }
  | count status old => exact { h with cell := hcell, counts := congrArg (fun c => c.set status old) h.counts }
  | bbo instrument source hadInst old =>
    exact { h with cell := hcell, bboState := entries_undoNested h.bboState instrument source hadInst old }
  | recon instrument source hadInst old =>
    exact { h with cell := hcell, reconciliationState := entries_undoNested h.reconciliationState instrument source hadInst old }
  | dedup added evicted =>
    have hset := known_filter hP h.dedupSet added
    cases evicted with
    | none => exact { h with cell := hcell, dedupWindow := congrArg List.dropLast h.dedupWindow, dedupSet := hset }
    | some e =>
      refine { h with cell := hcell, dedupWindow := congrArg (fun w => e :: List.dropLast w) h.dedupWindow, dedupSet := ?_ }
      intro x
      have hx := hset x
      simp only [known] at hx
      simp only [UndoAction.undo, known, List.any_append, hx]
  | _ => exact { h with cell := hcell }

/-- Undoing entries respects what cannot be told apart. -/
theorem undoLaws (hP : P.EqLaws) : UndoLaws (UndoAction.undo P) (Restored P) where
  refl := Restored.refl
  trans _ _ _ := Restored.trans
  congr a _ _ h := h.undo hP a

/-! ## Stretches of a step -/

theorem rest_undo {a : UndoAction V} (h : a.put?.isSome = true) (s : EngineState V) : (a.undo P s).rest = s.rest := by
  cases a with
  | dedup | eventCount | observedCount | lastAppliedOffset | count | bbo | recon => cases h
  | _ => rfl

theorem cell_undoAll (js : List (UndoAction V)) (s : EngineState V) (k : String) :
    (undoAll (UndoAction.undo P) js s).cell k = js.foldl (fun c a => a.putAt k c) (s.cell k) := by
  induction js generalizing s with
  | nil => rfl
  | cons a js ih => rw [undoAll_cons, ih, cell_undo, List.foldl_cons]

theorem rest_undoAll {js : List (UndoAction V)} (h : ∀ a ∈ js, a.put?.isSome = true) (s : EngineState V) :
    (undoAll (UndoAction.undo P) js s).rest = s.rest := by
  induction js generalizing s with
  | nil => rfl
  | cons a js ih => rw [undoAll_cons, ih (fun b hb => h b (List.mem_cons_of_mem _ hb)), rest_undo (h a List.mem_cons_self)]

/-- The journal takes the later work back to the earlier one, but for the lists of old numbers. -/
def Logged (P : Py V) (w w' : Work V) : Prop :=
  w.state.Deduped P → w'.state.Deduped P ∧
    ∃ js, w'.journal = js ++ w.journal ∧ TakesBack (UndoAction.undo P) (Restored P) js w'.state w.state

namespace Logged

theorem refl (w : Work V) : Logged P w w := fun h => ⟨h, [], rfl, Restored.refl w.state⟩

theorem trans (hP : P.EqLaws) (w w' w'' : Work V) (h : Logged P w w') (h' : Logged P w' w'') : Logged P w w'' := by
  intro hw
  obtain ⟨hw', js, hj, hback⟩ := h hw
  obtain ⟨hw'', js', hj', hback'⟩ := h' hw'
  exact ⟨hw'', js' ++ js, by rw [hj', hj, List.append_assoc], (undoLaws hP).takesBack_append hback hback'⟩

/-- A stretch that works under keys: what the entries put under each key is what was there. -/
theorem of_cells {w w' : Work V} (js : List (UndoAction V)) (hj : w'.journal = js ++ w.journal)
    (hkeys : ∀ a ∈ js, a.put?.isSome = true) (hrest : w'.state.rest = w.state.rest)
    (hcell : ∀ k, (js.foldl (fun c a => a.putAt k c) (w'.state.cell k)).logged = (w.state.cell k).logged) : Logged P w w' := by
  intro hw
  refine ⟨?_, js, hj, .of_rest ((rest_undoAll hkeys _).trans hrest) fun k => by rw [cell_undoAll, hcell]⟩
  have hwindow : w'.state.dedupWindow = w.state.dedupWindow := congrArg Rest.dedupWindow hrest
  have hset : w'.state.dedupSet = w.state.dedupSet := congrArg Rest.dedupSet hrest
  exact ⟨by rw [hwindow, hset]; exact hw.known, by rw [hwindow]; exact hw.single, by rw [hwindow]; exact hw.bounded⟩

section

variable {α β : Type}

theorem pure (a : α) : Proc.Frame (Logged P) (Pure.pure a : StepM V α) := .pure refl a

theorem lift (x : Except PyError α) : Proc.Frame (Logged P) (Proc.lift x : StepM V α) := .lift refl x

theorem look (f : EngineState V → α) : Proc.Frame (Logged P) (Mdrap.look f) := .read refl _

theorem bind (hP : P.EqLaws) {m : StepM V α} {f : α → StepM V β} (hm : Proc.Frame (Logged P) m)
    (hf : ∀ a, Proc.Frame (Logged P) (f a)) : Proc.Frame (Logged P) (m >>= f) := .bind (trans hP) hm hf

theorem ite {p : Prop} [Decidable p] {m n : StepM V α} (hm : Proc.Frame (Logged P) m) (hn : Proc.Frame (Logged P) n) :
    Proc.Frame (Logged P) (if p then m else n) := by
  split
  · exact hm
  · exact hn

end

end Logged

end Mdrap
