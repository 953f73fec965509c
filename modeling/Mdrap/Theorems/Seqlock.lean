import Mdrap.Shm.Seqlock

/-!
# Reads of a shared segment

A slot that is committed holds the words of the tick its commit word tells, and no later tick has been begun in it. A reader that
finds the commit word of its tick has the words of that tick until the writer comes round to the slot again, and from then on the
commit word of the tick does not come back. Numbers are taken to stay below the one that marks an uncommitted slot.
-/

namespace Mdrap

open Lib

/-! ## Slots -/

theorem toNat_uncommitted : uncommitted.toNat = 2 ^ 64 - 1 := rfl

theorem ShmGeometry.slotOf_eq (g : ShmGeometry) (seq : UInt64) : g.slotOf seq = seq.toNat % g.slotCount :=
  Nat.and_two_pow_sub_one_eq_mod _ _

theorem ShmGeometry.slotCount_lt (g : ShmGeometry) : g.slotCount < 2 ^ 32 := Nat.pow_lt_pow_right (by decide) g.lt

/-- The numbers below the mark are told apart. -/
theorem toNat_ofNat_of_lt {n : Nat} (h : n < uncommitted.toNat) : (UInt64.ofNat n).toNat = n := by
  rw [toNat_uncommitted] at h
  exact UInt64.toNat_ofNat_of_lt' (by show n < 2 ^ 64; omega)

theorem lt_uncommitted {t : UInt64} (h : t ≠ uncommitted) : t.toNat < uncommitted.toNat := by
  have hlt : t.toNat < 2 ^ 64 := t.toNat_lt
  have hne : t.toNat ≠ uncommitted.toNat := fun heq => h (UInt64.toNat_inj.mp heq)
  rw [toNat_uncommitted] at hne ⊢
  omega

theorem ofNat_ne_uncommitted {n : Nat} (h : n < uncommitted.toNat) : UInt64.ofNat n ≠ uncommitted := by
  intro heq
  have := congrArg UInt64.toNat heq
  rw [toNat_ofNat_of_lt h] at this
  omega

namespace ShmRun

variable {g : ShmGeometry} {r r' : ShmRun}

/-- A slot that is committed holds the tick that was begun last in it. -/
structure Committed (g : ShmGeometry) (segment : ShmSegment) (ticks : List (Nat → UInt64)) (slot seq : Nat) (src : Nat → UInt64) :
    Prop where
  begun : ticks[seq]? = some src
  place : g.slotOf (UInt64.ofNat seq) = slot
  last : ∀ later, seq < later → later < ticks.length → g.slotOf (UInt64.ofNat later) ≠ slot
  words : ∀ w, w < payloadWords → segment.words slot w = src w

/-- The slot is uncommitted, or holds the tick its commit word tells. -/
def SlotSound (g : ShmGeometry) (r : ShmRun) (slot : Nat) : Prop :=
  r.segment.commit slot = uncommitted ∨ ∃ seq src, r.segment.commit slot = UInt64.ofNat seq ∧
    Committed g r.segment r.ticks slot seq src

/-- The tick that is being written is the last one that was begun. -/
structure Writing (head : UInt64) (ticks : List (Nat → UInt64)) (seq : UInt64) (src : Nat → UInt64) : Prop where
  last : ∃ before, ticks = before ++ [src] ∧ seq = UInt64.ofNat before.length
  head : head = seq

/-- The writer is where its stores have brought it. -/
def WriterSound (g : ShmGeometry) (r : ShmRun) : Prop :=
  match r.writer with
  | .idle => r.segment.head = UInt64.ofNat r.ticks.length
  | .invalidate seq _ => seq = UInt64.ofNat r.ticks.length ∧ r.segment.head = seq ∧ r.ticks.length < uncommitted.toNat
  | .payload seq src w => Writing r.segment.head r.ticks seq src ∧ r.segment.commit (g.slotOf seq) = uncommitted ∧ w < payloadWords ∧
      ∀ j, j < w → r.segment.words (g.slotOf seq) j = src j
  | .commit seq => ∃ src, Writing r.segment.head r.ticks seq src ∧ r.segment.commit (g.slotOf seq) = uncommitted ∧
      ∀ j, j < payloadWords → r.segment.words (g.slotOf seq) j = src j
  | .publish seq => ∃ src, Writing r.segment.head r.ticks seq src

/-- What a reader has read is of its tick, unless the writer has come round again. -/
def Fresh (g : ShmGeometry) (r : ShmRun) (target : UInt64) (got : List UInt64) : Prop :=
  r.Overwritten g target ∨ (r.segment.commit (g.slotOf target) = target ∧
    ∃ src ∈ r.ticks[target.toNat]?, got = (List.range got.length).map src)

/-- A reader is where its loads have brought it. -/
def ReaderSound (g : ShmGeometry) (r : ShmRun) : ReaderPc → Prop
  | .idle => True
  | .loadHead target => target ≠ uncommitted
  | .loadCommit target retry => target ≠ uncommitted ∧ (retry ≠ 0 → r.Overwritten g target)
  | .loadWord target _ got => target ≠ uncommitted ∧ got.length < payloadWords ∧ r.Fresh g target got
  | .recheck target _ got => target ≠ uncommitted ∧ got.length = payloadWords ∧ r.Fresh g target got

/-- What holds after every step. -/
structure Sound (g : ShmGeometry) (r : ShmRun) : Prop where
  bound : r.ticks.length ≤ uncommitted.toNat
  slots : ∀ slot, r.SlotSound g slot
  writer : r.WriterSound g
  readers : ∀ i, r.ReaderSound g (r.readers i)
  reads : ∀ x ∈ r.reads, r.Truthful g x

/-! ## What stays -/

theorem Overwritten.mono (hticks : r.ticks <+: r'.ticks) {target : UInt64} (h : r.Overwritten g target) :
    r'.Overwritten g target := by
  obtain ⟨seq, hlater, hbegun, hslot⟩ := h
  exact ⟨seq, hlater, Nat.lt_of_lt_of_le hbegun hticks.length_le, hslot⟩

theorem getElem?_mono (hticks : r.ticks <+: r'.ticks) {n : Nat} {src : Nat → UInt64} (h : r.ticks[n]? = some src) :
    r'.ticks[n]? = some src := by
  obtain ⟨more, hmore⟩ := hticks
  obtain ⟨hlt, -⟩ := List.getElem?_eq_some_iff.mp h
  rw [← hmore, List.getElem?_append_left hlt, h]

theorem Truthful.mono (hticks : r.ticks <+: r'.ticks) {x : ShmRead} (h : r.Truthful g x) : r'.Truthful g x := by
  refine ⟨fun hcode => ?_, fun hcode => (h.2 hcode).mono hticks⟩
  obtain ⟨src, hsrc, hwords⟩ := h.1 hcode
  exact ⟨src, getElem?_mono hticks hsrc, hwords⟩

/-- What was read stays fresh where the commit word of the slot is not touched, or the writer has come round. -/
theorem Fresh.mono (hticks : r.ticks <+: r'.ticks) {target : UInt64} {got : List UInt64} (h : r.Fresh g target got)
    (hcommit : r.segment.commit (g.slotOf target) = target → target.toNat < r.ticks.length →
      r'.segment.commit (g.slotOf target) = target ∨ r'.Overwritten g target) : r'.Fresh g target got := by
  rcases h with hover | ⟨hcommitted, src, hsrc, hgot⟩
  · exact .inl (hover.mono hticks)
  · obtain ⟨hlt, -⟩ := List.getElem?_eq_some_iff.mp hsrc
    rcases hcommit hcommitted hlt with hsame | hover
    · exact .inr ⟨hsame, src, getElem?_mono hticks hsrc, hgot⟩
    · exact .inl hover

theorem ReaderSound.mono (hticks : r.ticks <+: r'.ticks) {pc : ReaderPc} (h : r.ReaderSound g pc)
    (hcommit : ∀ target, target ≠ uncommitted → r.segment.commit (g.slotOf target) = target → target.toNat < r.ticks.length →
      r'.segment.commit (g.slotOf target) = target ∨ r'.Overwritten g target) : r'.ReaderSound g pc := by
  cases pc with
  | idle => trivial
  | loadHead target => exact h
  | loadCommit target retry => exact ⟨h.1, fun hretry => (h.2 hretry).mono hticks⟩
  | loadWord target retry got => exact ⟨h.1, h.2.1, h.2.2.mono hticks (hcommit target h.1)⟩
  | recheck target retry got => exact ⟨h.1, h.2.1, h.2.2.mono hticks (hcommit target h.1)⟩

/-! ## The writer -/

/-- A slot stays sound where nothing is stored to it and no tick is begun in it. -/
theorem SlotSound.keep {slot : Nat} (h : r.SlotSound g slot) (hcommit : r'.segment.commit slot = r.segment.commit slot)
    (hwords : r'.segment.words slot = r.segment.words slot) (hticks : r.ticks <+: r'.ticks)
    (hbegun : ∀ seq, r.ticks.length ≤ seq → seq < r'.ticks.length → g.slotOf (UInt64.ofNat seq) ≠ slot) :
    r'.SlotSound g slot := by
  rcases h with hun | ⟨seq, src, hseq, hcommitted⟩
  · exact .inl (hcommit.trans hun)
  · refine .inr ⟨seq, src, hcommit.trans hseq, getElem?_mono hticks hcommitted.begun, hcommitted.place, ?_, ?_⟩
    · intro later hlater hlt
      by_cases hold : later < r.ticks.length
      · exact hcommitted.last later hlater hold
      · exact hbegun later (by omega) hlt
    · intro w hw
      rw [hwords]
      exact hcommitted.words w hw

theorem Sound.write (h : r.Sound g) (src : Nat → UInt64) (hnumber : r.ticks.length < uncommitted.toNat) : (r.write src).Sound g := by
  have hwriter := h.writer
  rw [WriterSound] at hwriter
  rw [ShmRun.write]
  split
  · rename_i hidle
    simp only
    split
    · exact h
    · rename_i hseq
      rw [hidle] at hwriter
      exact ⟨h.bound, h.slots, ⟨rfl, hwriter, hnumber⟩, h.readers, h.reads⟩
  · exact h

theorem Sound.invalidate (h : r.Sound g) {seq : UInt64} {src : Nat → UInt64} (hpc : r.writer = .invalidate seq src) :
    Sound g { r with
      segment := r.segment.setCommit (g.slotOf seq) uncommitted
      ticks := r.ticks ++ [src]
      writer := .payload seq src 0 } := by
  have hwriter := h.writer
  rw [WriterSound, hpc] at hwriter
  obtain ⟨hseq, hhead, hnumber⟩ := hwriter
  have hticks : r.ticks <+: r.ticks ++ [src] := List.prefix_append _ _
  refine ⟨?_, ?_, ?_, ?_, fun x hx => (h.reads x hx).mono hticks⟩
  · simp only [List.length_append, List.length_singleton]
    omega
  · intro slot
    by_cases hslot : slot = g.slotOf seq
    · exact .inl (by simp [ShmSegment.setCommit, hslot])
    · refine (h.slots slot).keep (by simp [ShmSegment.setCommit, hslot]) rfl hticks ?_
      intro n hn hlt
      have hlast : n = r.ticks.length := by
        simp only [List.length_append, List.length_singleton] at hlt
        omega
      rw [hlast, ← hseq]
      exact fun heq => hslot heq.symm
  · exact ⟨⟨⟨r.ticks, rfl, hseq⟩, hhead⟩, by simp [ShmSegment.setCommit], by decide, fun j hj => absurd hj (Nat.not_lt_zero j)⟩
  · intro i
    refine (h.readers i).mono hticks ?_
    intro target _ hcommitted hlt
    by_cases hslot : g.slotOf target = g.slotOf seq
    · right
      refine ⟨r.ticks.length, hlt, by simp, ?_⟩
      rw [← hseq]
      exact hslot.symm
    · left
      simpa [ShmSegment.setCommit, hslot] using hcommitted

theorem Sound.payload (h : r.Sound g) {seq : UInt64} {src : Nat → UInt64} {w : Nat} (hpc : r.writer = .payload seq src w) :
    Sound g { r with
      segment := r.segment.setWord (g.slotOf seq) w (src w)
      writer := if w + 1 < payloadWords then .payload seq src (w + 1) else .commit seq } := by
  have hwriter := h.writer
  rw [WriterSound, hpc] at hwriter
  obtain ⟨hwriting, hun, hw, hwords⟩ := hwriter
  have hstored : ∀ j, j < w + 1 → (r.segment.setWord (g.slotOf seq) w (src w)).words (g.slotOf seq) j = src j := by
    intro j hj
    by_cases hjw : j = w
    · simp [ShmSegment.setWord, hjw]
    · have hlt : j < w := by omega
      simpa [ShmSegment.setWord, hjw] using hwords j hlt
  refine ⟨h.bound, ?_, ?_, fun i => ?_, h.reads⟩
  · intro slot
    by_cases hslot : slot = g.slotOf seq
    · exact .inl (hslot ▸ hun)
    · refine (h.slots slot).keep rfl ?_ List.prefix_rfl (fun n hn hlt => absurd hlt (Nat.not_lt.mpr hn))
      funext j
      simp [ShmSegment.setWord, hslot]
  · rw [WriterSound]
    by_cases hmore : w + 1 < payloadWords
    · simp only [if_pos hmore]
      exact ⟨⟨hwriting.last, hwriting.head⟩, hun, hmore, hstored⟩
    · simp only [if_neg hmore]
      exact ⟨src, ⟨hwriting.last, hwriting.head⟩, hun, fun j hj => hstored j (by omega)⟩
  · exact (h.readers i).mono List.prefix_rfl (fun target _ hcommitted _ => .inl hcommitted)

theorem Sound.commit (h : r.Sound g) {seq : UInt64} (hpc : r.writer = .commit seq) :
    Sound g { r with segment := r.segment.setCommit (g.slotOf seq) seq, writer := .publish seq } := by
  have hwriter := h.writer
  rw [WriterSound, hpc] at hwriter
  obtain ⟨src, hwriting, hun, hwords⟩ := hwriter
  obtain ⟨before, hticks, hseq⟩ := hwriting.last
  refine ⟨h.bound, ?_, ⟨src, ⟨before, hticks, hseq⟩, hwriting.head⟩, fun i => ?_, h.reads⟩
  · intro slot
    by_cases hslot : slot = g.slotOf seq
    · subst hslot
      refine .inr ⟨before.length, src, by simp [ShmSegment.setCommit, hseq], ?_, by rw [hseq], ?_, hwords⟩
      · show r.ticks[before.length]? = some src
        rw [hticks]
        simp
      · intro later hlater hlt
        have hlen : r.ticks.length = before.length + 1 := by rw [hticks]; simp
        have hlt' : later < r.ticks.length := hlt
        omega
    · exact (h.slots slot).keep (by simp [ShmSegment.setCommit, hslot]) rfl List.prefix_rfl
        (fun n hn hlt => absurd hlt (Nat.not_lt.mpr hn))
  · refine ReaderSound.mono ?_ (h.readers i) ?_
    · exact List.prefix_rfl
    intro target hne hcommitted _
    by_cases hslot : g.slotOf target = g.slotOf seq
    · -- the slot is not committed now
      rw [hslot, hun] at hcommitted
      exact absurd hcommitted.symm hne
    · left
      simpa [ShmSegment.setCommit, hslot] using hcommitted

theorem Sound.publish (h : r.Sound g) {seq : UInt64} (hpc : r.writer = .publish seq) :
    Sound g { r with segment := r.segment.setHead (seq + 1), writer := .idle } := by
  have hwriter := h.writer
  rw [WriterSound, hpc] at hwriter
  obtain ⟨src, hwriting⟩ := hwriter
  obtain ⟨before, hticks, hseq⟩ := hwriting.last
  refine ⟨h.bound, ?_, ?_, fun i => ?_, h.reads⟩
  · intro slot
    exact (h.slots slot).keep rfl rfl List.prefix_rfl (fun n hn hlt => absurd hlt (Nat.not_lt.mpr hn))
  · show seq + 1 = UInt64.ofNat r.ticks.length
    rw [hticks, List.length_append, List.length_singleton, hseq, UInt64.ofNat_add]
    rfl
  · exact (h.readers i).mono List.prefix_rfl (fun target _ hcommitted _ => .inl hcommitted)

theorem Sound.writerStep (h : r.Sound g) : (r.writerStep g).Sound g := by
  rw [ShmRun.writerStep]
  split
  · exact h
  · rename_i hpc
    exact h.invalidate hpc
  · rename_i hpc
    exact h.payload hpc
  · rename_i hpc
    exact h.commit hpc
  · rename_i hpc
    exact h.publish hpc

/-! ## The readers -/

theorem Sound.setReader (h : r.Sound g) (i : Nat) {pc : ReaderPc} (hpc : r.ReaderSound g pc) : (r.setReader i pc).Sound g := by
  have hkeep : ∀ pc', r.ReaderSound g pc' → (r.setReader i pc).ReaderSound g pc' := by
    intro pc' hpc'
    refine ReaderSound.mono ?_ hpc' (fun _ _ hcommitted _ => .inl hcommitted)
    exact List.prefix_rfl
  refine ⟨h.bound, h.slots, h.writer, fun j => ?_, h.reads⟩
  by_cases hj : j = i
  · rw [show (r.setReader i pc).readers j = pc from if_pos hj]
    exact hkeep pc hpc
  · rw [show (r.setReader i pc).readers j = r.readers j from if_neg hj]
    exact hkeep _ (h.readers j)

theorem Sound.returnRead (h : r.Sound g) (i : Nat) {target : UInt64} {code : Int} {words : List UInt64}
    (hread : r.Truthful g ⟨target, code, words⟩) : (r.returnRead i target code words).Sound g := by
  have hset : (r.setReader i .idle).Sound g := h.setReader i trivial
  refine ⟨hset.bound, hset.slots, hset.writer, fun j => ?_, ?_⟩
  · refine ReaderSound.mono ?_ (hset.readers j) (fun _ _ hcommitted _ => .inl hcommitted)
    exact List.prefix_rfl
  intro x hx
  rcases List.mem_append.mp hx with hx | hx
  · exact h.reads x hx
  · rw [List.mem_singleton.mp hx]
    exact hread

/-- A read that returns -1 is to have been overtaken. -/
theorem truthful_lapped {target : UInt64} {words : List UInt64} (h : r.Overwritten g target) : r.Truthful g ⟨target, -1, words⟩ :=
  ⟨fun hcode => absurd hcode (show ¬((-1 : Int) = 1) by decide), fun _ => h⟩

theorem truthful_notReady {target : UInt64} {words : List UInt64} : r.Truthful g ⟨target, 0, words⟩ :=
  ⟨fun hcode => absurd hcode (show ¬((0 : Int) = 1) by decide), fun hcode => absurd hcode (show ¬((0 : Int) = -1) by decide)⟩

/-- The number in a commit word is that of a tick. -/
theorem Committed.lt {segment : ShmSegment} {ticks : List (Nat → UInt64)} {slot seq : Nat} {src : Nat → UInt64}
    (h : Committed g segment ticks slot seq src) (hbound : ticks.length ≤ uncommitted.toNat) :
    seq < ticks.length ∧ (UInt64.ofNat seq).toNat = seq := by
  obtain ⟨hlt, -⟩ := List.getElem?_eq_some_iff.mp h.begun
  exact ⟨hlt, toNat_ofNat_of_lt (by omega)⟩

/-- A commit word that tells a tick stands for its words. -/
theorem Sound.committed (h : r.Sound g) {target : UInt64} (hne : target ≠ uncommitted)
    (hcommit : r.segment.commit (g.slotOf target) = target) :
    ∃ src, Committed g r.segment r.ticks (g.slotOf target) target.toNat src := by
  rcases h.slots (g.slotOf target) with hun | ⟨seq, src, hseq, hcommitted⟩
  · exact absurd (hcommit.symm.trans hun) hne
  · obtain ⟨-, hnat⟩ := hcommitted.lt h.bound
    have hsame : target.toNat = seq := by rw [← hcommit, hseq, hnat]
    exact ⟨src, hsame ▸ hcommitted⟩

/-- The head of the segment is at most the number of ticks. -/
theorem Sound.head_le (h : r.Sound g) : r.segment.head.toNat ≤ r.ticks.length := by
  have hle : ∀ n, (UInt64.ofNat n).toNat ≤ n := fun n => by
    rw [UInt64.toNat_ofNat']
    exact Nat.mod_le _ _
  have hwriting : ∀ seq src, Writing r.segment.head r.ticks seq src → r.segment.head.toNat ≤ r.ticks.length := by
    rintro seq src ⟨⟨before, hticks, hseq⟩, hhead⟩
    rw [hhead, hseq, hticks, List.length_append]
    exact Nat.le_trans (hle _) (Nat.le_add_right _ _)
  have hwriter := h.writer
  rw [WriterSound] at hwriter
  split at hwriter
  · rw [hwriter]
    exact hle _
  · rw [hwriter.2.1, hwriter.1]
    exact hle _
  · exact hwriting _ _ hwriter.1
  · obtain ⟨src, hw, -⟩ := hwriter
    exact hwriting _ src hw
  · obtain ⟨src, hw⟩ := hwriter
    exact hwriting _ src hw

/-- A head that is more than a round ahead has been through the slot again. -/
theorem Sound.lapped (h : r.Sound g) {target : UInt64} (hlt : target < r.segment.head)
    (hround : UInt64.ofNat g.slotCount < r.segment.head - target) : r.Overwritten g target := by
  have hhead := h.head_le
  have hbound := h.bound
  have hcount := g.slotCount_lt
  rw [UInt64.lt_iff_toNat_lt] at hlt hround
  rw [UInt64.toNat_sub_of_le _ _ (UInt64.le_iff_toNat_le.mpr (Nat.le_of_lt hlt)),
    UInt64.toNat_ofNat_of_lt' (by show g.slotCount < 2 ^ 64; omega)] at hround
  have hseq : target.toNat + g.slotCount < uncommitted.toNat := by omega
  have hpos : 0 < g.slotCount := Nat.two_pow_pos _
  refine ⟨target.toNat + g.slotCount, by omega, by omega, ?_⟩
  rw [g.slotOf_eq, g.slotOf_eq, toNat_ofNat_of_lt hseq, Nat.add_mod_right]

theorem Sound.readerStep (h : r.Sound g) (i : Nat) : (r.readerStep g i).Sound g := by
  have hreader := h.readers i
  rw [ShmRun.readerStep]
  split
  · exact h
  · rename_i target hpc
    rw [hpc] at hreader
    simp only
    split
    · rename_i hlapped
      exact h.returnRead i (truthful_lapped (h.lapped hlapped.1 hlapped.2))
    · exact h.setReader i ⟨hreader, fun hretry => absurd rfl hretry⟩
  · rename_i target retry hpc
    rw [hpc] at hreader
    simp only
    split
    · split
      · exact h.returnRead i truthful_notReady
      · rename_i hne hlater
        refine h.returnRead i (truthful_lapped ?_)
        simp only [not_or] at hlater
        rcases h.slots (g.slotOf target) with hun | ⟨seq, src, hseq, hcommitted⟩
        · exact absurd hun hlater.1
        · obtain ⟨hlt, hnat⟩ := hcommitted.lt h.bound
          refine ⟨seq, ?_, hlt, hcommitted.place⟩
          rw [hseq, UInt64.lt_iff_toNat_lt, hnat] at hlater
          have hdiff : seq ≠ target.toNat := by
            rintro rfl
            exact hne (hseq.trans (UInt64.ofNat_toNat))
          omega
    · rename_i heq
      rw [not_not] at heq
      obtain ⟨src, hcommitted⟩ := h.committed hreader.1 heq
      exact h.setReader i ⟨hreader.1, by decide, .inr ⟨heq, src, hcommitted.begun, rfl⟩⟩
  · rename_i target retry got hpc
    rw [hpc] at hreader
    obtain ⟨hne, hlen, hfresh⟩ := hreader
    have hfresh' : r.Fresh g target (got ++ [r.segment.words (g.slotOf target) got.length]) := by
      rcases hfresh with hover | ⟨hcommit, src, hsrc, hgot⟩
      · exact .inl hover
      · refine .inr ⟨hcommit, src, hsrc, ?_⟩
        obtain ⟨src', hcommitted⟩ := h.committed hne hcommit
        have hsame : src' = src := Option.some.inj (hcommitted.begun.symm.trans hsrc)
        rw [List.length_append, List.length_singleton, List.range_succ, List.map_append, List.map_singleton, ← hgot,
          hcommitted.words _ hlen, hsame]
    refine h.setReader i ?_
    simp only [List.length_append, List.length_singleton]
    split
    · rename_i hmore
      exact ⟨hne, by simpa using hmore, hfresh'⟩
    · rename_i hmore
      refine ⟨hne, ?_, hfresh'⟩
      rw [List.length_append, List.length_singleton]
      omega
  · rename_i target retry got hpc
    rw [hpc] at hreader
    obtain ⟨hne, hlen, hfresh⟩ := hreader
    simp only
    split
    · rename_i hcommit
      obtain ⟨src, hcommitted⟩ := h.committed hne hcommit
      refine h.returnRead i ⟨fun _ => ?_, fun hcode => absurd hcode (show ¬((1 : Int) = -1) by decide)⟩
      rcases hfresh with ⟨later, hlater, hlt, hslot⟩ | ⟨-, src', hsrc, hgot⟩
      · exact absurd hslot (hcommitted.last later hlater hlt)
      · rw [hlen] at hgot
        exact ⟨src', hsrc, hgot⟩
    · rename_i hcommit
      -- the commit word was that of the tick before, so that the writer has come round
      have hover : r.Overwritten g target := by
        rcases hfresh with hover | ⟨hsame, -⟩
        · exact hover
        · exact absurd hsame hcommit
      split
      · exact h.setReader i ⟨hne, fun _ => hover⟩
      · exact h.returnRead i (truthful_lapped hover)

theorem Sound.init (g : ShmGeometry) : ShmRun.init.Sound g :=
  ⟨by decide, fun _ => .inl rfl, rfl, fun _ => trivial, fun _ hx => nomatch hx⟩

theorem Sound.step (h : r.Sound g) {e : ShmEvent} (he : r.Numbers e) : (r.step g e).Sound g := by
  cases e with
  | write src => exact h.write src he
  | writer => exact h.writerStep
  | read i target =>
    rw [ShmRun.step]
    split
    · exact h.setReader i he
    · exact h
  | reader i => exact h.readerStep i

/-! ## A commit word that was found -/

theorem Fresh.congr {target : UInt64} {got : List UInt64} (h : r.Fresh g target got) (hsegment : r'.segment = r.segment)
    (hticks : r'.ticks = r.ticks) : r'.Fresh g target got := by
  unfold Fresh Overwritten at h ⊢
  rw [hsegment, hticks]
  exact h

theorem readerStep_segment (g : ShmGeometry) (r : ShmRun) (i : Nat) :
    (r.readerStep g i).segment = r.segment ∧ (r.readerStep g i).ticks = r.ticks := by
  unfold readerStep
  split
  · exact ⟨rfl, rfl⟩
  · dsimp only
    split <;> exact ⟨rfl, rfl⟩
  · dsimp only
    split
    · split <;> exact ⟨rfl, rfl⟩
    · exact ⟨rfl, rfl⟩
  · exact ⟨rfl, rfl⟩
  · dsimp only
    split
    · exact ⟨rfl, rfl⟩
    · split <;> exact ⟨rfl, rfl⟩

/-- A reader that stands still does not matter to the writer. -/
theorem writerStep_setReader (g : ShmGeometry) (r : ShmRun) (i : Nat) (pc : ReaderPc) :
    ((r.setReader i pc).writerStep g).segment = (r.writerStep g).segment ∧
      ((r.setReader i pc).writerStep g).ticks = (r.writerStep g).ticks ∧ ((r.setReader i pc).writerStep g).readers i = pc := by
  have hreader : (r.setReader i pc).readers i = pc := if_pos rfl
  have hwriter : (r.setReader i pc).writer = r.writer := rfl
  unfold writerStep
  rw [hwriter]
  cases r.writer with
  | idle => exact ⟨rfl, rfl, hreader⟩
  | invalidate seq src => exact ⟨rfl, rfl, hreader⟩
  | payload seq src w => exact ⟨rfl, rfl, hreader⟩
  | commit seq => exact ⟨rfl, rfl, hreader⟩
  | publish seq => exact ⟨rfl, rfl, hreader⟩

/-- A commit word that was found stays, or the writer comes round. -/
theorem Sound.fresh_step (h : r.Sound g) {e : ShmEvent} {target : UInt64} (hne : target ≠ uncommitted)
    (hfresh : r.Fresh g target []) : (r.step g e).Fresh g target [] := by
  cases e with
  | write src =>
    show (r.write src).Fresh g target []
    unfold ShmRun.write
    split
    · dsimp only
      split
      · exact hfresh
      · exact hfresh.congr rfl rfl
    · exact hfresh
  | writer =>
    -- a reader that has found the word and stands still is in the same place
    have hfound : r.ReaderSound g (.loadWord target 0 []) := ⟨hne, by decide, hfresh⟩
    have hstill := h.setReader 0 hfound
    obtain ⟨hsegment, hticks, hreader⟩ := writerStep_setReader g r 0 (.loadWord target 0 [])
    have hread := hstill.writerStep.readers 0
    rw [hreader] at hread
    exact hread.2.2.congr hsegment.symm hticks.symm
  | read i seq =>
    unfold ShmRun.step
    dsimp only
    split
    · exact hfresh.congr rfl rfl
    · exact hfresh
  | reader i => exact hfresh.congr (readerStep_segment g r i).1 (readerStep_segment g r i).2

theorem ticks_step (g : ShmGeometry) (r : ShmRun) (e : ShmEvent) : r.ticks <+: (r.step g e).ticks := by
  cases e with
  | write src =>
    show r.ticks <+: (r.write src).ticks
    unfold ShmRun.write
    split
    · dsimp only
      split <;> exact List.prefix_rfl
    · exact List.prefix_rfl
  | writer =>
    show r.ticks <+: (r.writerStep g).ticks
    unfold writerStep
    split
    · exact List.prefix_rfl
    · exact List.prefix_append _ _
    all_goals exact List.prefix_rfl
  | read i seq =>
    unfold ShmRun.step
    dsimp only
    split <;> exact List.prefix_rfl
  | reader i =>
    show r.ticks <+: (r.readerStep g i).ticks
    exact ⟨[], by rw [List.append_nil, (readerStep_segment g r i).2]⟩

/-- A commit word does not tell a tick whose slot has been taken again. -/
theorem Sound.not_overwritten (h : r.Sound g) {target : UInt64} (hne : target ≠ uncommitted)
    (hcommit : r.segment.commit (g.slotOf target) = target) : ¬r.Overwritten g target := by
  rintro ⟨later, hlater, hlt, hslot⟩
  obtain ⟨src, hcommitted⟩ := h.committed hne hcommit
  exact hcommitted.last later hlater hlt hslot

end ShmRun

/-- In every run whose numbers stay below the mark of an uncommitted slot, what a read stores when it returns 1 is what the writer
wrote for its tick, and a read returns -1 only after the writer has begun a later tick in the slot. -/
theorem reads_truthful (g : ShmGeometry) (es : List ShmEvent) (h : Along (ShmRun.step g) ShmRun.Numbers .init es) :
    ∀ x ∈ (runFrom (ShmRun.step g) .init es).reads, (runFrom (ShmRun.step g) .init es).Truthful g x :=
  (h.inv (fun _ _ hr he => ShmRun.Sound.step hr he) (.init g)).reads

/-- A ring of two slots. -/
def twoSlots : ShmGeometry := ⟨1, by decide, by decide⟩

/-- The steps of a read from its beginning to its end, where nothing is in its way. -/
def readThrough (target : UInt64) : List ShmEvent := .read 0 target :: List.replicate 18 (.reader 0)

/-- A tick is written, and read afterwards. -/
theorem reads_truthful_first :
    let es := .write (fun w => UInt64.ofNat w) :: List.replicate 18 .writer ++ readThrough 0
    (runFrom (ShmRun.step twoSlots) .init es).reads.map (fun x => (x.target, x.code)) = [(0, 1)] ∧
      ∀ x ∈ (runFrom (ShmRun.step twoSlots) .init es).reads, (runFrom (ShmRun.step twoSlots) .init es).Truthful twoSlots x :=
  ⟨by decide, reads_truthful twoSlots _ (by decide)⟩

/-- A read for the number that marks an uncommitted slot takes such a slot for its tick. -/
theorem reads_truthful_false :
    ¬∀ (g : ShmGeometry) (es : List ShmEvent), ∀ x ∈ (runFrom (ShmRun.step g) .init es).reads,
      (runFrom (ShmRun.step g) .init es).Truthful g x := by
  intro h
  have hreads : (runFrom (ShmRun.step twoSlots) .init (readThrough uncommitted)).reads =
      [⟨uncommitted, 1, List.replicate 15 0⟩] := by decide
  have hticks : (runFrom (ShmRun.step twoSlots) .init (readThrough uncommitted)).ticks.length = 0 := by decide
  obtain ⟨src, hsrc, -⟩ := (h twoSlots (readThrough uncommitted) _ (by rw [hreads]; exact List.mem_singleton_self _)).1 rfl
  rw [List.eq_nil_of_length_eq_zero hticks] at hsrc
  exact nomatch hsrc

end Mdrap
