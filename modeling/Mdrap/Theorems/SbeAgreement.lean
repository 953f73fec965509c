import Mdrap.Native.SbeStream
import Mdrap.Theorems.Dedup
import Mdrap.Theorems.SbeRing

/-!
# The two checks of a stream

With the native library a stream is checked in C, without it in Python. C remembers the numbers of all calls and passes over numbers
that are none; Python remembers those of one call, takes no price that is none, and does not look at the sizes.
-/

namespace Mdrap

open Lib

/-- The result of a frame, by what is wrong with it. -/
def resultOf (bad crossed duplicate : Bool) : FastResult where
  status := if bad || crossed || duplicate then .invalid else .valid
  reasonMask := (if bad then REASON_SCHEMA_VIOLATION else 0) ||| (if crossed then REASON_CROSSED_QUOTE else 0) |||
    (if duplicate then REASON_DUPLICATE else 0)

/-- A result tells what is wrong. -/
theorem resultOf_inj : ∀ {bad bad' crossed duplicate duplicate' : Bool},
    resultOf bad crossed duplicate = resultOf bad' crossed duplicate' ↔ bad = bad' ∧ duplicate = duplicate' := by
  decide

theorem sbeDuplicate_checks (allowNegative : Bool) (p : SbeTickPayload) (hit : Bool) :
    sbeDuplicate hit (sbeChecks allowNegative p) =
      resultOf (sbeOutOfBounds allowNegative p) (sbeCrossed p.bid p.ask) hit := by
  unfold sbeChecks
  generalize sbeOutOfBounds allowNegative p = bad
  generalize sbeCrossed p.bid p.ask = crossed
  cases bad <;> cases crossed <;> cases hit <;> rfl

/-- No reason is outside the mask. -/
theorem resultOf_masked (bad crossed duplicate : Bool) :
    (⟨(resultOf bad crossed duplicate).status, (resultOf bad crossed duplicate).reasonMask &&& CORE_REASON_MASK⟩ : FastResult) =
      resultOf bad crossed duplicate := by
  cases bad <;> cases crossed <;> cases duplicate <;> rfl

namespace SbeFrame

/-- What Python unpacks of a frame. -/
def tick (frame : SbeFrame) : SbeTickMessage := unpackSbePayload (frame.1.drop 8)

/-- The key under which Python remembers a frame. -/
def pyKey (frame : SbeFrame) : String × String × Nat := ((tick frame).source, (tick frame).symbol, (tick frame).seq)

/-- The number of the header tells of a tick. -/
def IsTick (frame : SbeFrame) : Prop := leNat (wireField frame.1 2 2) = templateTick

/-- Two frames have the number, the source and the symbol in common. -/
def SameTick (frame frame' : SbeFrame) : Prop :=
  (payload frame).source = (payload frame').source ∧ (payload frame).symbol = (payload frame').symbol ∧
    (payload frame).seq = (payload frame').seq

instance (frame frame' : SbeFrame) : Decidable (SameTick frame frame') := inferInstanceAs (Decidable (_ ∧ _))

theorem unpackSbeTick_eq {frame : SbeFrame} (h : IsTick frame) : unpackSbeTick frame.1 = some (tick frame) := by
  unfold unpackSbeTick
  rw [if_neg (by rw [frame.2]; decide), if_neg (fun hne => hne h)]
  rfl

theorem length_field (frame : SbeFrame) : (wireField (frame.1.drop 8) 0 8).length = 8 := by
  rw [wireField, List.drop_zero, List.length_take, List.length_drop, frame.2]
  rfl

theorem toNat_seq (frame : SbeFrame) : (payload frame).seq.toNat = (tick frame).seq := by
  have hlt : leNat (wireField (frame.1.drop 8) 0 8) < 2 ^ 64 := by
    have := beNat_lt (wireField (frame.1.drop 8) 0 8).reverse
    rw [List.length_reverse, length_field] at this
    exact this
  exact UInt64.toNat_ofNat_of_lt' hlt

theorem isTick_sbeFrame (p : SbeTickPayload) : IsTick (sbeFrame p) := rfl

theorem isTick_packSbeTick {frame : SbeFrame} {a : SbeTickArgs} (h : packSbeTick a = some frame.1) : IsTick frame := by
  unfold packSbeTick at h
  obtain ⟨seq, -, h⟩ := Option.bind_eq_some_iff.mp h
  obtain ⟨engineUs, -, h⟩ := Option.bind_eq_some_iff.mp h
  unfold IsTick
  rw [← Option.some.inj h]
  rfl

end SbeFrame

open SbeFrame

/-! ## One frame -/

/-- Both checks find the same numbers of a frame out of bounds, and its number has been seen in an earlier frame exactly when Python has
seen it in this call. -/
def FrameAgrees (allowNegative : Bool) (earlier seen : List SbeFrame) (frame : SbeFrame) : Prop :=
  sbeOutOfBounds allowNegative (payload frame) = pyOutOfBounds (tick frame) ∧
    (0 < (payload frame).seq → ((∃ f ∈ earlier ++ seen, SameTick f frame) ↔ ∃ f ∈ seen, pyKey f = pyKey frame))

theorem isFinite_not_isNan {bits : UInt64} (h : isFinite bits = true) : isNan bits = false := by
  unfold isFinite at h
  unfold isNan
  simp only [decide_eq_true_eq, ne_eq] at h
  simp [h]

theorem crossed_eq (frame : SbeFrame) : sbeCrossed (payload frame).bid (payload frame).ask = pyCrossed (tick frame) := by
  change (!isNan (tick frame).bid && !isNan (tick frame).ask && isFinite (tick frame).bid && isFinite (tick frame).ask && _) = _
  unfold pyCrossed
  rcases hbid : isFinite (tick frame).bid with _ | _
  · simp
  · rcases hask : isFinite (tick frame).ask with _ | _
    · simp
    · rw [isFinite_not_isNan hbid, isFinite_not_isNan hask]
      rfl

section Python

variable {seenSeqs : List (String × String × Nat)} {seen : List SbeFrame}

/-- Python remembers the frames of a call by their keys. -/
def PySeen (seenSeqs : List (String × String × Nat)) (seen : List SbeFrame) : Prop :=
  ∀ k, k ∈ seenSeqs ↔ ∃ f ∈ seen, 0 < (tick f).seq ∧ pyKey f = k

theorem pyEvaluate_eq (h : PySeen seenSeqs seen) {frame : SbeFrame} (htick : IsTick frame) {duplicate : Bool}
    (hdup : duplicate = true ↔ 0 < (tick frame).seq ∧ ∃ f ∈ seen, pyKey f = pyKey frame) :
    (pyEvaluate seenSeqs frame).1 = resultOf (pyOutOfBounds (tick frame)) (pyCrossed (tick frame)) duplicate ∧
      PySeen (pyEvaluate seenSeqs frame).2 (seen ++ [frame]) := by
  have hmem : pyKey frame ∈ seenSeqs ↔ 0 < (tick frame).seq ∧ ∃ f ∈ seen, pyKey f = pyKey frame := by
    rw [h]
    constructor
    · rintro ⟨f, hf, hpos, hkey⟩
      have hseq : (tick f).seq = (tick frame).seq := congrArg (·.2.2) hkey
      exact ⟨hseq ▸ hpos, f, hf, hkey⟩
    · rintro ⟨hpos, f, hf, hkey⟩
      have hseq : (tick f).seq = (tick frame).seq := congrArg (·.2.2) hkey
      exact ⟨f, hf, hseq ▸ hpos, hkey⟩
  have hadd : ∀ k, (∃ f ∈ seen ++ [frame], 0 < (tick f).seq ∧ pyKey f = k) ↔
      k ∈ seenSeqs ∨ 0 < (tick frame).seq ∧ pyKey frame = k := by
    intro k
    rw [h]
    simp only [List.mem_append, List.mem_singleton, or_and_right, exists_or, exists_eq_left]
  unfold pyEvaluate
  rw [unpackSbeTick_eq htick]
  dsimp only
  by_cases hpos : 0 < (tick frame).seq
  · rw [if_pos hpos]
    by_cases hseen : pyKey frame ∈ seenSeqs
    · have hseen' : ((tick frame).source, (tick frame).symbol, (tick frame).seq) ∈ seenSeqs := hseen
      rw [if_pos hseen', hdup.mpr (hmem.mp hseen)]
      refine ⟨?_, fun k => ?_⟩
      · generalize pyOutOfBounds (tick frame) = bad
        generalize pyCrossed (tick frame) = crossed
        cases bad <;> cases crossed <;> rfl
      · rw [hadd]
        refine ⟨.inl, ?_⟩
        rintro (hk | ⟨-, rfl⟩)
        · exact hk
        · exact hseen
    · have hseen' : ((tick frame).source, (tick frame).symbol, (tick frame).seq) ∉ seenSeqs := hseen
      have hfalse : duplicate = false := by
        rw [← Bool.not_eq_true, hdup]
        exact fun hd => hseen (hmem.mpr hd)
      rw [if_neg hseen', hfalse]
      refine ⟨?_, fun k => ?_⟩
      · generalize pyOutOfBounds (tick frame) = bad
        generalize pyCrossed (tick frame) = crossed
        cases bad <;> cases crossed <;> rfl
      · rw [hadd, List.mem_cons, or_comm, and_iff_right hpos, eq_comm]
        rfl
  · rw [if_neg hpos]
    have hfalse : duplicate = false := by
      rw [← Bool.not_eq_true, hdup]
      exact fun hd => hpos hd.1
    rw [hfalse]
    refine ⟨?_, fun k => ?_⟩
    · generalize pyOutOfBounds (tick frame) = bad
      generalize pyCrossed (tick frame) = crossed
      cases bad <;> cases crossed <;> rfl
    · rw [hadd]
      exact ⟨.inl, fun hk => hk.resolve_right (fun hd => hpos hd.1)⟩

end Python

section Native

open DedupTables

variable {V : Type} {seed : UInt64} {d : DedupTables} {seen : List SbeFrame}

/-- The key of a frame in the tables. -/
def storedKey (seed : UInt64) (frame : SbeFrame) : UInt64 := stored (sbeDedupKey seed (payload frame))

/-- The tables remember the frames that have come. -/
def Remembers (seed : UInt64) (d : DedupTables) (seen : List SbeFrame) : Prop :=
  ∃ t log, Tracked (d, log) t ∧ ∀ k, (∃ r, (k, r) ∈ log) ↔ ∃ f ∈ seen, 0 < (payload f).seq ∧ storedKey seed f = k

theorem rotations_le (key : UInt64) (d : DedupTables) : d.rotations ≤ (d.checkInsert key).2.rotations := by
  have hinsert : ∀ k at_ n, d.rotations ≤ (d.insert k at_ n).rotations := by
    intro k at_ n
    unfold DedupTables.insert
    dsimp only
    split
    · exact Nat.le_succ _
    · exact Nat.le_refl _
  unfold checkInsert
  dsimp only
  split
  · exact Nat.le_refl _
  · exact hinsert _ _ _
  · exact hinsert _ _ _

/-- With one rotation at most, all keys that were added are still there. -/
theorem hit_iff_logged {log : List (UInt64 × Nat)} {d : DedupTables} {t : KeyDedup UInt64} (h : Tracked (d, log) t)
    (hfew : d.rotations ≤ 1) (key : UInt64) : (d.checkInsert key).1 = true ↔ ∃ r, (stored key, r) ∈ log := by
  rw [h.refines.answer_iff, h.log.active, h.log.older]
  constructor
  · rintro (hmem | ⟨r, hmem, -⟩)
    · exact ⟨_, hmem⟩
    · exact ⟨r, hmem⟩
  · rintro ⟨r, hmem⟩
    have hle : r ≤ d.rotations := h.log.past _ hmem
    rcases Nat.eq_or_lt_of_le hle with rfl | hlt
    · exact .inl hmem
    · exact .inr ⟨r, hmem, by dsimp only; omega⟩

/-- The keys of the log after a call. -/
theorem mem_logged {log : List (UInt64 × Nat)} {d : DedupTables} {t : KeyDedup UInt64} (h : Tracked (d, log) t) (key k : UInt64) :
    (∃ r, (k, r) ∈ (logged (d, log) key).2) ↔ (∃ r, (k, r) ∈ log) ∨ k = stored key := by
  unfold logged
  dsimp only
  rcases hadds : d.adds key with _ | _
  · rw [if_neg Bool.false_ne_true]
    refine ⟨.inl, ?_⟩
    rintro (hk | rfl)
    · exact hk
    · rcases checkInsert_cases key d with ⟨a, hprobe, -, -⟩ | ⟨a, -, hadds', -⟩ | ⟨hprobe, -, -⟩
      · exact ⟨_, (h.log.active _).mp ((h.refines.probe_active_iff key).mp ⟨a, hprobe⟩)⟩
      · rw [hadds] at hadds'
        cases hadds'
      · rw [adds, hprobe] at hadds
        cases hadds
  · rw [if_pos rfl]
    simp only [List.mem_append, List.mem_singleton, Prod.mk.injEq, exists_or, exists_and_left, exists_eq, and_true]

theorem sbeEvaluate_fst (e : FastEngine V) (p : SbeTickPayload) :
    (sbeEvaluate e p).1 = resultOf (sbeOutOfBounds e.config.allowNegative p) (sbeCrossed p.bid p.ask)
      (0 < p.seq && (e.dedup.checkInsert (sbeDedupKey e.hashSeed p)).1) := by
  rw [← resultOf_masked, ← sbeDuplicate_checks, sbeEvaluate]

/-- A choice between two engines that only differ in their tables. -/
theorem withTables (e : FastEngine V) (c : Prop) [Decidable c] (d : DedupTables) :
    (if c then { e with dedup := d } else e) = { e with dedup := if c then d else e.dedup } := by
  split
  · rfl
  · rfl

theorem sbeEvaluate_snd (e : FastEngine V) (p : SbeTickPayload) :
    (sbeEvaluate e p).2 =
      { e with dedup := if 0 < p.seq then (e.dedup.checkInsert (sbeDedupKey e.hashSeed p)).2 else e.dedup } :=
  withTables e (0 < p.seq) (e.dedup.checkInsert (sbeDedupKey e.hashSeed p)).2

theorem mem_snoc_iff (seed : UInt64) (seen : List SbeFrame) (frame : SbeFrame) (k : UInt64) :
    (∃ f ∈ seen ++ [frame], 0 < (payload f).seq ∧ storedKey seed f = k) ↔
      (∃ f ∈ seen, 0 < (payload f).seq ∧ storedKey seed f = k) ∨ 0 < (payload frame).seq ∧ storedKey seed frame = k := by
  simp only [List.mem_append, List.mem_singleton, or_and_right, exists_or, exists_eq_left]

theorem Remembers.hit_iff (h : Remembers seed d seen) (hfew : d.rotations ≤ 1) (frame : SbeFrame) :
    (d.checkInsert (sbeDedupKey seed (payload frame))).1 = true ↔
      ∃ f ∈ seen, 0 < (payload f).seq ∧ storedKey seed f = storedKey seed frame := by
  obtain ⟨t, log, htracked, hlog⟩ := h
  rw [hit_iff_logged htracked hfew, ← hlog]
  rfl

theorem Remembers.skip (h : Remembers seed d seen) {frame : SbeFrame} (hzero : ¬0 < (payload frame).seq) :
    Remembers seed d (seen ++ [frame]) := by
  obtain ⟨t, log, htracked, hlog⟩ := h
  refine ⟨t, log, htracked, fun k => ?_⟩
  rw [hlog, mem_snoc_iff]
  exact ⟨.inl, fun hk => hk.resolve_right (fun hd => hzero hd.1)⟩

theorem Remembers.insert (h : Remembers seed d seen) {frame : SbeFrame} (hpos : 0 < (payload frame).seq)
    (hkept : (d.checkInsert (sbeDedupKey seed (payload frame))).2.evictions = d.evictions) :
    Remembers seed (d.checkInsert (sbeDedupKey seed (payload frame))).2 (seen ++ [frame]) := by
  obtain ⟨t, log, htracked, hlog⟩ := h
  refine ⟨_, _, htracked.step hkept, fun k => ?_⟩
  have hmem := mem_logged htracked (sbeDedupKey seed (payload frame)) k
  refine hmem.trans ?_
  rw [hlog, mem_snoc_iff, and_iff_right hpos]
  exact or_congr_right eq_comm

/-- The tables of an engine after a frame. -/
def nextTables (seed : UInt64) (d : DedupTables) (frame : SbeFrame) : DedupTables :=
  if 0 < (payload frame).seq then (d.checkInsert (sbeDedupKey seed (payload frame))).2 else d

theorem nextTables_le (seed : UInt64) (d : DedupTables) (frame : SbeFrame) :
    d.evictions ≤ (nextTables seed d frame).evictions ∧ d.rotations ≤ (nextTables seed d frame).rotations := by
  have hle := evictions_le (sbeDedupKey seed (payload frame)) d
  have hle' := rotations_le (sbeDedupKey seed (payload frame)) d
  unfold nextTables
  by_cases hpos : 0 < (payload frame).seq
  · rewrite [if_pos hpos]
    exact ⟨hle, hle'⟩
  · rewrite [if_neg hpos]
    exact ⟨Nat.le_refl _, Nat.le_refl _⟩

theorem Remembers.next (h : Remembers seed d seen) (frame : SbeFrame)
    (hkept : (nextTables seed d frame).evictions = d.evictions) : Remembers seed (nextTables seed d frame) (seen ++ [frame]) := by
  unfold nextTables at hkept ⊢
  by_cases hpos : 0 < (payload frame).seq
  · rewrite [if_pos hpos] at hkept ⊢
    exact h.insert hpos hkept
  · rewrite [if_neg hpos]
    exact h.skip hpos

/-- Frames have the same key in the tables only if they are the same tick: the hash makes no collision. -/
def CollisionFree (seed : UInt64) (frames : List SbeFrame) : Prop :=
  ∀ f ∈ frames, ∀ f' ∈ frames, storedKey seed f = storedKey seed f' → SameTick f f'

instance (seed : UInt64) (frames : List SbeFrame) : Decidable (CollisionFree seed frames) :=
  inferInstanceAs (Decidable (∀ f ∈ frames, ∀ f' ∈ frames, storedKey seed f = storedKey seed f' → SameTick f f'))

variable {e : FastEngine V} {earlier frames : List SbeFrame} {seenSeqs : List (String × String × Nat)}

/-- The two checks agree about a frame. -/
theorem sbeEvaluate_eq_iff (h : Remembers e.hashSeed e.dedup (earlier ++ seen)) (hpy : PySeen seenSeqs seen)
    (hfew : e.dedup.rotations ≤ 1) {frame : SbeFrame} (htick : IsTick frame)
    (hfree : CollisionFree e.hashSeed (earlier ++ seen ++ [frame])) :
    ((sbeEvaluate e (payload frame)).1 = (pyEvaluate seenSeqs frame).1 ↔
        FrameAgrees e.config.allowNegative earlier seen frame) ∧
      PySeen (pyEvaluate seenSeqs frame).2 (seen ++ [frame]) := by
  classical
  obtain ⟨hresult, hnext⟩ := @pyEvaluate_eq _ _ hpy _ htick
    (decide (0 < (tick frame).seq ∧ ∃ f ∈ seen, pyKey f = pyKey frame)) decide_eq_true_iff
  refine ⟨?_, hnext⟩
  have hpos : 0 < (payload frame).seq ↔ 0 < (tick frame).seq := by
    rw [← toNat_seq, UInt64.lt_iff_toNat_lt]
    rfl
  have hsame : (∃ f ∈ earlier ++ seen, 0 < (payload f).seq ∧ storedKey e.hashSeed f = storedKey e.hashSeed frame) ↔
      0 < (payload frame).seq ∧ ∃ f ∈ earlier ++ seen, SameTick f frame := by
    constructor
    · rintro ⟨f, hf, hfpos, hkey⟩
      have hst := hfree f (List.mem_append_left _ hf) frame (List.mem_append_right _ (List.mem_singleton_self _)) hkey
      exact ⟨hst.2.2 ▸ hfpos, f, hf, hst⟩
    · rintro ⟨hfpos, f, hf, hsource, hsymbol, hseq⟩
      refine ⟨f, hf, hseq ▸ hfpos, ?_⟩
      rw [storedKey, storedKey, sbeDedupKey, sbeDedupKey, hsource, hsymbol, hseq]
  have hhit := (h.hit_iff hfew frame).trans hsame
  generalize hchecked : (e.dedup.checkInsert (sbeDedupKey e.hashSeed (payload frame))).1 = hit at hhit
  rw [sbeEvaluate_fst, hresult, crossed_eq, resultOf_inj, hchecked, FrameAgrees]
  refine and_congr_right (fun _ => ?_)
  rw [Bool.eq_iff_iff, Bool.and_eq_true, decide_eq_true_iff, decide_eq_true_iff, hhit, ← hpos]
  constructor
  · intro hiff hp
    exact ⟨fun hd => (hiff.mp ⟨hp, hp, hd⟩).2, fun hd => (hiff.mpr ⟨hp, hd⟩).2.2⟩
  · intro hiff
    constructor
    · rintro ⟨hp, -, hd⟩
      exact ⟨hp, (hiff hp).mp hd⟩
    · rintro ⟨hp, hd⟩
      exact ⟨hp, hp, (hiff hp).mpr hd⟩

theorem foldl_nextTables_le (seed : UInt64) (d : DedupTables) (frames : List SbeFrame) :
    d.evictions ≤ (frames.foldl (nextTables seed) d).evictions ∧ d.rotations ≤ (frames.foldl (nextTables seed) d).rotations := by
  induction frames generalizing d with
  | nil => exact ⟨Nat.le_refl _, Nat.le_refl _⟩
  | cons f frames ih =>
    obtain ⟨hevictions, hrotations⟩ := nextTables_le seed d f
    obtain ⟨hevictions', hrotations'⟩ := ih (nextTables seed d f)
    exact ⟨hevictions.trans hevictions', hrotations.trans hrotations'⟩

/-- The frames of one call, with the native check. -/
def nativeStep (e : FastEngine V) (frame : SbeFrame) : FastResult × FastEngine V := sbeEvaluate e (payload frame)

theorem nativeStep_snd (e : FastEngine V) (frame : SbeFrame) :
    (nativeStep e frame).2 = { e with dedup := nextTables e.hashSeed e.dedup frame } := sbeEvaluate_snd e (payload frame)

/-- The two checks agree about the frames of a call. -/
theorem call_agrees (frames : List SbeFrame) (h : Remembers e.hashSeed e.dedup (earlier ++ seen)) (hpy : PySeen seenSeqs seen)
    (hkept : (frames.foldl (nextTables e.hashSeed) e.dedup).evictions = e.dedup.evictions)
    (hfew : (frames.foldl (nextTables e.hashSeed) e.dedup).rotations ≤ 1) (htick : ∀ f ∈ frames, IsTick f)
    (hfree : CollisionFree e.hashSeed (earlier ++ seen ++ frames)) :
    (outcomes nativeStep e frames = outcomes pyEvaluate seenSeqs frames ↔
        Along (fun seen f => seen ++ [f]) (FrameAgrees e.config.allowNegative earlier) seen frames) ∧
      Remembers e.hashSeed (frames.foldl (nextTables e.hashSeed) e.dedup) (earlier ++ seen ++ frames) := by
  induction frames generalizing e seen seenSeqs with
  | nil => exact ⟨⟨fun _ => trivial, fun _ => rfl⟩, by rwa [List.append_nil]⟩
  | cons f frames ih =>
    obtain ⟨hle, hle'⟩ := nextTables_le e.hashSeed e.dedup f
    obtain ⟨hrest, hrest'⟩ := foldl_nextTables_le e.hashSeed (nextTables e.hashSeed e.dedup f) frames
    rw [List.foldl_cons] at hkept hfew ⊢
    have hnow : (nextTables e.hashSeed e.dedup f).evictions = e.dedup.evictions := Nat.le_antisymm (hkept ▸ hrest) hle
    have hassoc : earlier ++ (seen ++ [f]) ++ frames = earlier ++ seen ++ f :: frames := by
      rw [List.append_assoc, List.append_assoc, List.append_assoc]
      rfl
    have hfree' : CollisionFree e.hashSeed (earlier ++ seen ++ [f]) := by
      have hsub : ∀ x ∈ earlier ++ seen ++ [f], x ∈ earlier ++ seen ++ f :: frames := by
        intro x hx
        rcases List.mem_append.mp hx with hx | hx
        · exact List.mem_append_left _ hx
        · exact List.mem_append_right _ (List.mem_singleton.mp hx ▸ List.mem_cons_self)
      exact fun x hx y hy => hfree x (hsub x hx) y (hsub y hy)
    obtain ⟨hiff, hpy'⟩ := sbeEvaluate_eq_iff h hpy (hle'.trans (hrest'.trans hfew)) (htick f List.mem_cons_self) hfree'
    have hnext := h.next f hnow
    rw [List.append_assoc] at hnext
    obtain ⟨hagree, hremembers⟩ := ih (e := { e with dedup := nextTables e.hashSeed e.dedup f }) hnext hpy'
      (hkept.trans hnow.symm) hfew (fun x hx => htick x (List.mem_cons_of_mem _ hx)) (hassoc ▸ hfree)
    refine ⟨?_, hassoc ▸ hremembers⟩
    rw [outcomes, outcomes, List.cons_eq_cons, nativeStep_snd, hagree]
    exact and_congr_left (fun _ => hiff)

/-- How many of the results are valid. -/
def countValid (results : List FastResult) : Nat := results.countP (fun res => res.status = .valid)

theorem foldl_step (frames : List SbeFrame) (s : SbeStream V) :
    let s' := frames.foldl (SbeStream.step none) s
    s'.results.map (·.2) = s.results.map (·.2) ++ outcomes nativeStep s.engine frames ∧
      s'.validCount = s.validCount + countValid (outcomes nativeStep s.engine frames) ∧
      s'.engine = { s.engine with dedup := frames.foldl (nextTables s.engine.hashSeed) s.engine.dedup } := by
  induction frames generalizing s with
  | nil => exact ⟨(List.append_nil _).symm, rfl, rfl⟩
  | cons f frames ih =>
    obtain ⟨hresults, hcount, hengine⟩ := ih (s.step none f)
    have hnext : (s.step none f).engine = { s.engine with dedup := nextTables s.engine.hashSeed s.engine.dedup f } :=
      nativeStep_snd s.engine f
    rw [List.foldl_cons, outcomes]
    refine ⟨?_, ?_, ?_⟩
    · rw [hresults, hnext, nativeStep_snd]
      change (s.results ++ [(payload f, (nativeStep s.engine f).1)]).map (·.2) ++ _ = _
      rw [List.map_append, List.append_assoc]
      rfl
    · rw [hcount, hnext, nativeStep_snd, countValid, countValid, List.countP_cons]
      change (if (nativeStep s.engine f).1.status = .valid then s.validCount + 1 else s.validCount) + _ = _
      generalize (nativeStep s.engine f).1 = res
      by_cases hvalid : res.status = .valid
      · simp only [hvalid, if_true, decide_true]
        omega
      · simp only [hvalid, if_false, decide_false, Bool.false_eq_true]
        omega
    · rw [hengine, hnext]
      rfl

theorem processSbeStream_eq (e : FastEngine V) (frames : List SbeFrame) :
    processSbeStream e frames = ((countValid (outcomes nativeStep e frames), outcomes nativeStep e frames),
      { e with dedup := frames.foldl (nextTables e.hashSeed) e.dedup }) := by
  obtain ⟨hresults, hcount, hengine⟩ := foldl_step frames (⟨e, .init, [], 0⟩ : SbeStream V)
  rw [processSbeStream, sbeStreamImpl, hresults, hcount, hengine, List.map_nil, List.nil_append, Nat.zero_add]

theorem foldl_pyStep (frames : List SbeFrame) (s : PySbeStream) :
    let s' := frames.foldl PySbeStream.step s
    s'.results = s.results ++ outcomes pyEvaluate s.seenSeqs frames ∧
      s'.validCount = s.validCount + countValid (outcomes pyEvaluate s.seenSeqs frames) := by
  induction frames generalizing s with
  | nil => exact ⟨(List.append_nil _).symm, rfl⟩
  | cons f frames ih =>
    obtain ⟨hresults, hcount⟩ := ih (s.step f)
    rw [List.foldl_cons, outcomes]
    refine ⟨?_, ?_⟩
    · rw [hresults]
      change (s.results ++ [_]) ++ _ = _
      rw [List.append_assoc]
      rfl
    · rw [hcount, countValid, countValid, List.countP_cons]
      change (if (pyEvaluate s.seenSeqs f).1.status = .valid then s.validCount + 1 else s.validCount) + _ = _
      generalize hres : (pyEvaluate s.seenSeqs f).1 = res
      change _ + List.countP _ (outcomes pyEvaluate (pyEvaluate s.seenSeqs f).2 frames) = _
      by_cases hvalid : res.status = .valid
      · simp only [hvalid, if_true, decide_true]
        omega
      · simp only [hvalid, if_false, decide_false, Bool.false_eq_true]
        omega

theorem pyProcessSbeStream_eq (frames : List SbeFrame) :
    pyProcessSbeStream frames = (countValid (outcomes pyEvaluate [] frames), outcomes pyEvaluate [] frames) := by
  obtain ⟨hresults, hcount⟩ := foldl_pyStep frames ⟨[], [], 0⟩
  rw [pyProcessSbeStream, hresults, hcount, List.nil_append, Nat.zero_add]

/-- A frame that was packed, by Python or by C. -/
def Packed (frame : SbeFrame) : Prop := (∃ a, packSbeTick a = some frame.1) ∨ ∃ p, frame = sbeFrame p

theorem Packed.isTick {frame : SbeFrame} (h : Packed frame) : IsTick frame := by
  rcases h with ⟨a, ha⟩ | ⟨p, rfl⟩
  · exact isTick_packSbeTick ha
  · exact isTick_sbeFrame p

/-- The calls of a run, in which both checks agree about every frame: what the frames before it are, in all calls and in its own one. -/
def CallsAgree (allowNegative : Bool) (earlier : List SbeFrame) (calls : List (List SbeFrame)) : Prop :=
  Along (fun earlier call => earlier ++ call)
    (fun earlier call => Along (fun seen f => seen ++ [f]) (FrameAgrees allowNegative earlier) [] call) earlier calls

theorem calls_agree (calls : List (List SbeFrame)) (h : Remembers e.hashSeed e.dedup earlier)
    (hkept : (calls.flatten.foldl (nextTables e.hashSeed) e.dedup).evictions = e.dedup.evictions)
    (hfew : (calls.flatten.foldl (nextTables e.hashSeed) e.dedup).rotations ≤ 1) (htick : ∀ call ∈ calls, ∀ f ∈ call, IsTick f)
    (hfree : CollisionFree e.hashSeed (earlier ++ calls.flatten)) :
    outcomes processSbeStream e calls = calls.map pyProcessSbeStream ↔ CallsAgree e.config.allowNegative earlier calls := by
  induction calls generalizing e earlier with
  | nil => exact ⟨fun _ => trivial, fun _ => rfl⟩
  | cons call calls ih =>
    rw [List.flatten_cons, List.foldl_append] at hkept hfew
    obtain ⟨hle, -⟩ := foldl_nextTables_le e.hashSeed e.dedup call
    obtain ⟨hrest, hrest'⟩ := foldl_nextTables_le e.hashSeed (call.foldl (nextTables e.hashSeed) e.dedup) calls.flatten
    have hnow : (call.foldl (nextTables e.hashSeed) e.dedup).evictions = e.dedup.evictions := Nat.le_antisymm (hkept ▸ hrest) hle
    have hassoc : earlier ++ call ++ calls.flatten = earlier ++ (call :: calls).flatten := List.append_assoc ..
    have hfree' : CollisionFree e.hashSeed (earlier ++ [] ++ call) := by
      have hsub : ∀ x ∈ earlier ++ [] ++ call, x ∈ earlier ++ (call :: calls).flatten := by
        intro x hx
        rw [List.append_nil] at hx
        exact hassoc ▸ List.mem_append_left _ hx
      exact fun x hx y hy => hfree x (hsub x hx) y (hsub y hy)
    have hstart : Remembers e.hashSeed e.dedup (earlier ++ []) := by rwa [List.append_nil]
    have hpy : PySeen [] [] := by
      intro k
      simp
    obtain ⟨hiff, hnext⟩ := call_agrees call hstart hpy hnow (hrest'.trans hfew) (htick call List.mem_cons_self) hfree'
    rw [List.append_nil] at hnext
    have hagree := ih (e := { e with dedup := call.foldl (nextTables e.hashSeed) e.dedup }) hnext (hkept.trans hnow.symm) hfew
      (fun c hc => htick c (List.mem_cons_of_mem _ hc)) (hassoc ▸ hfree)
    rw [outcomes, List.map_cons, List.cons_eq_cons, processSbeStream_eq, pyProcessSbeStream_eq, hagree]
    refine and_congr_left (fun _ => Iff.trans ?_ hiff)
    constructor
    · intro heq
      exact (Prod.mk.inj heq).2
    · intro heq
      rw [heq]

theorem remembers_zeroed (seed : UInt64) : Remembers seed .zeroed [] := by
  refine ⟨.new (2 * DEDUP_GEN_MAX : Nat), [], ⟨.zeroed, .new _⟩, fun k => ?_⟩
  simp

theorem runFrom_processSbeStream (e : FastEngine V) (calls : List (List SbeFrame)) :
    runFrom (fun e call => (processSbeStream e call).2) e calls =
      { e with dedup := calls.flatten.foldl (nextTables e.hashSeed) e.dedup } := by
  induction calls generalizing e with
  | nil => rfl
  | cons call calls ih =>
    rw [runFrom_cons, processSbeStream_eq, ih, List.flatten_cons, List.foldl_append]

end Native

/-- In every run of calls of an engine whose tables hold all that they were given, without a collision, both checks give the same valid
count and the same results, exactly when they agree about every frame. -/
theorem sbe_checks_agree {V : Type} (e : FastEngine V) (hfresh : e.dedup = .zeroed) (calls : List (List SbeFrame))
    (hpacked : ∀ call ∈ calls, ∀ f ∈ call, Packed f) (hfree : CollisionFree e.hashSeed calls.flatten)
    (hwindow : let d := (runFrom (fun e call => (processSbeStream e call).2) e calls).dedup; d.evictions = 0 ∧ d.rotations ≤ 1) :
    outcomes processSbeStream e calls = calls.map pyProcessSbeStream ↔ CallsAgree e.config.allowNegative [] calls := by
  rw [runFrom_processSbeStream] at hwindow
  obtain ⟨hkept, hfew⟩ := hwindow
  refine calls_agree calls ?_ ?_ hfew (fun call hcall f hf => (hpacked call hcall f hf).isTick) hfree
  · rw [hfresh]
    exact remembers_zeroed e.hashSeed
  · rw [hkept, hfresh]
    rfl

theorem packed_tradeFrame (seq : UInt64) : ∀ f ∈ [tradeFrame seq], Packed f := by
  intro f hf
  rw [List.mem_singleton.mp hf]
  exact .inr ⟨_, rfl⟩

set_option maxRecDepth 20000 in
/-- Two frames in two calls. -/
theorem sbe_checks_agree_two : CallsAgree false [] [[tradeFrame 1], [tradeFrame 2]] :=
  (sbe_checks_agree streamEngine rfl [[tradeFrame 1], [tradeFrame 2]]
    (List.forall_mem_cons.mpr ⟨packed_tradeFrame 1, List.forall_mem_singleton.mpr (packed_tradeFrame 2)⟩) (by decide)
    (by decide)).mp (by decide)

set_option maxRecDepth 20000 in
/-- The same frame in two calls is a duplicate in C, and valid again in Python. -/
theorem sbe_checks_agree_false :
    let d := (runFrom (fun e call => (processSbeStream e call).2) streamEngine [[tradeFrame 1], [tradeFrame 1]]).dedup
    CollisionFree streamEngine.hashSeed [tradeFrame 1, tradeFrame 1] ∧ d.evictions = 0 ∧ d.rotations = 0 ∧
      outcomes processSbeStream streamEngine [[tradeFrame 1], [tradeFrame 1]] =
        [(1, [⟨.valid, 0⟩]), (0, [⟨.invalid, REASON_DUPLICATE⟩])] ∧
      [[tradeFrame 1], [tradeFrame 1]].map pyProcessSbeStream = [(1, [⟨.valid, 0⟩]), (1, [⟨.valid, 0⟩])] := by
  decide

end Mdrap
