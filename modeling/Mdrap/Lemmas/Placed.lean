import Mdrap.IngestLog.Group
import Mdrap.Lemmas.Append

/-!
# What the log does to frames in their places

No file operation but a truncation and the creation of a file touches a frame that is there (`Item.Kept`). What holds between
two calls, whatever failed before, is that the frames of some records are intact and that the log would write behind them
(`IngestLog.Stores`).
-/

namespace Mdrap

open Lib

/-- From one log to the other a frame stays intact, in its file if it was there, and durable if it was. -/
structure Item.Kept (i : Item) (s t : IngestLog) : Prop where
  intact : i.Intact s → i.Intact t
  inFile : i.InFile s → i.InFile t
  durable : i.Durable s → i.Durable t

namespace Item.Kept

variable {i : Item} {s t u : IngestLog}

theorem refl (i : Item) (s : IngestLog) : i.Kept s s := ⟨id, id, id⟩

theorem trans (h : i.Kept s t) (h' : i.Kept t u) : i.Kept s u :=
  ⟨h'.intact ∘ h.intact, h'.inFile ∘ h.inFile, h'.durable ∘ h.durable⟩

/-- Counters do not matter. -/
theorem of_files (hdir : t.dir.segments = s.dir.segments) (hcur : t.current = s.current) : i.Kept s t := by
  have hpending : t.pending i.segment = s.pending i.segment := by simp only [IngestLog.pending, hcur]
  constructor
  · intro h
    rw [Item.Intact, hdir, hpending]
    exact h
  · intro h
    rw [Item.InFile, hdir]
    exact h
  · intro h
    rw [Item.Durable, hdir]
    exact h

/-- Where one file and its buffer changed, only the frames in it matter. -/
theorem of_update {k : Nat} (hget : ∀ j, j ≠ k → t.dir.segments.get? j = s.dir.segments.get? j)
    (hpending : ∀ j, j ≠ k → t.pending j = s.pending j)
    (hk : i.segment = k → ∀ file, s.dir.segments.get? k = some file → ∃ file', t.dir.segments.get? k = some file' ∧
      (i.StandsIn (file.written ++ s.pending k) → i.StandsIn (file'.written ++ t.pending k)) ∧
      (i.StandsIn file.written → i.StandsIn file'.written) ∧
      (i.StandsIn (file.written.take file.durable) → i.StandsIn (file'.written.take file'.durable))) : i.Kept s t := by
  by_cases hseg : i.segment = k
  · constructor
    · rintro ⟨file, hfile, hstands⟩
      rw [hseg] at hfile hstands
      obtain ⟨file', hfile', hintact, _, _⟩ := hk hseg file hfile
      exact ⟨file', by rw [hseg]; exact hfile', by rw [hseg]; exact hintact hstands⟩
    · rintro ⟨file, hfile, hstands⟩
      rw [hseg] at hfile
      obtain ⟨file', hfile', _, hfiled, _⟩ := hk hseg file hfile
      exact ⟨file', by rw [hseg]; exact hfile', hfiled hstands⟩
    · rintro ⟨file, hfile, hstands⟩
      rw [hseg] at hfile
      obtain ⟨file', hfile', _, _, hdurable⟩ := hk hseg file hfile
      exact ⟨file', by rw [hseg]; exact hfile', hdurable hstands⟩
  · constructor
    · intro h
      rw [Item.Intact, hget _ hseg, hpending _ hseg]
      exact h
    · intro h
      rw [Item.InFile, hget _ hseg]
      exact h
    · intro h
      rw [Item.Durable, hget _ hseg]
      exact h

end Item.Kept

namespace IngestLog

/-! ## File operations -/

theorem get?_setWritten (s : IngestLog) (k : Nat) (g : SegFile → SegFile) (j : Nat) :
    (s.setWritten k g).dir.segments.get? j = if j = k then (s.dir.segments.get? k).map g else s.dir.segments.get? j := by
  unfold setWritten
  split
  · rename_i hnone
    by_cases hj : j = k
    · rw [if_pos hj, hj, hnone]
      rfl
    · rw [if_neg hj]
  · rename_i file hfile
    rw [hfile]
    exact Store.get?_put _ _ _ _

theorem pending_of_current {s : IngestLog} {f : OpenFile} (h : s.current = some f) (k : Nat) :
    s.pending k = if f.start = k then f.buffer else [] := by
  simp only [pending, h]

variable {s : IngestLog} {i : Item}

theorem kept_fileWrite (i : Item) (s : IngestLog) (d : Bytes) (r : IoResult) : i.Kept s (s.fileWrite d r).2 := by
  unfold fileWrite
  split
  · exact .refl i s
  · rename_i f hcur
    split
    · exact .refl i s
    · refine .of_update (k := f.start) (fun _ _ => rfl) ?_ ?_
      · intro j hj
        rw [pending_of_current hcur, pending_of_current rfl, if_neg hj.symm, if_neg hj.symm]
      · intro _ file hfile
        refine ⟨file, hfile, ?_, id, id⟩
        intro h
        rw [pending_of_current hcur, if_pos rfl] at h
        rw [pending_of_current rfl, if_pos rfl, ← List.append_assoc]
        exact h.append _

theorem kept_fileFlush (i : Item) (s : IngestLog) (r : IoResult) : i.Kept s (s.fileFlush r).2 := by
  unfold fileFlush
  split
  · exact .refl i s
  · rename_i f hcur
    split
    · exact .refl i s
    · refine .of_update (k := f.start) ?_ ?_ ?_
      · intro j hj
        exact (get?_setWritten s f.start _ j).trans (if_neg hj)
      · intro j hj
        rw [pending_of_current hcur, pending_of_current rfl, if_neg hj.symm, if_neg hj.symm]
      · intro _ file hfile
        refine ⟨_, (get?_setWritten s f.start _ f.start).trans (by rw [if_pos rfl, hfile]; rfl), ?_, ?_, ?_⟩
        · intro h
          rw [pending_of_current hcur, if_pos rfl] at h
          rw [pending_of_current rfl, if_pos rfl, List.append_assoc, List.take_append_drop]
          exact h
        · intro h
          exact h.append _
        · intro h
          rw [List.take_append]
          exact h.append _

theorem kept_fileFsync (i : Item) (s : IngestLog) (ok : Bool) : i.Kept s (s.fileFsync ok).2 := by
  unfold fileFsync
  split
  · exact .refl i s
  · rename_i f hcur
    split
    · exact .refl i s
    · split
      · refine .of_update (k := f.start) ?_ ?_ ?_
        · intro j hj
          exact (get?_setWritten s f.start _ j).trans (if_neg hj)
        · intro j _
          simp only [pending, current_setWritten]
        · intro _ file hfile
          refine ⟨_, (get?_setWritten s f.start _ f.start).trans (by rw [if_pos rfl, hfile]; rfl), ?_, ?_, ?_⟩
          · intro h
            simp only [pending, current_setWritten] at h ⊢
            exact h
          · intro h
            exact h
          · intro h
            rw [List.take_length]
            exact h.of_take
      · exact .refl i s

/-- The buffer after a flush. -/
theorem buffer_fileFlush {r : IoResult} {t : IngestLog} (h : s.fileFlush r = (true, t)) {f : OpenFile} (hf : t.current = some f) :
    f.buffer = [] ∧ f.closed = false ∧ ∃ f0, s.current = some f0 ∧ f0.start = f.start := by
  unfold fileFlush at h
  split at h
  · cases h
  · rename_i f0 hcur
    split at h
    · cases h
    · rename_i hopen
      simp only [Prod.mk.injEq, decide_eq_true_eq] at h
      obtain ⟨rfl, rfl⟩ := h
      simp only [Option.some.injEq] at hf
      subst hf
      exact ⟨by simp [IoResult.count], by simpa using hopen, f0, hcur, rfl⟩

theorem current_fileFlush {f : OpenFile} (hcur : s.current = some f) (r : IoResult) :
    ∃ f', (s.fileFlush r).2.current = some f' ∧ f'.start = f.start := by
  unfold fileFlush
  rw [hcur]
  simp only
  split
  · exact ⟨f, hcur, rfl⟩
  · exact ⟨_, rfl, rfl⟩

/-- A truncation keeps what ends before it. -/
theorem kept_fileTruncate {pos : Nat} (r : IoResult) (h : ∀ f, s.current = some f → i.segment = f.start → i.endPos ≤ pos) :
    i.Kept s (s.fileTruncate pos r).2 := by
  have hkept := kept_fileFlush i s r
  unfold fileTruncate
  split
  · rename_i heq
    rw [heq] at hkept
    exact hkept
  · rename_i t heq
    rw [heq] at hkept
    split
    · exact hkept
    · rename_i f hcur
      obtain ⟨hbuf, _, f0, hf0, hstart⟩ := buffer_fileFlush heq hcur
      refine hkept.trans (.of_update (k := f.start) ?_ ?_ ?_)
      · intro j hj
        exact (get?_setWritten t f.start _ j).trans (if_neg hj)
      · intro j _
        simp only [pending, current_setWritten]
      · intro hseg file hfile
        have hend : i.endPos ≤ pos := h f0 hf0 (by rw [hseg, hstart])
        refine ⟨_, (get?_setWritten t f.start _ f.start).trans (by rw [if_pos rfl, hfile]; rfl), ?_, ?_, ?_⟩
        · intro hstands
          have hpend : t.pending f.start = [] := by rw [pending_of_current hcur, if_pos rfl, hbuf]
          have hpend' : (t.setWritten f.start (fun file => ⟨resize pos file.written, min file.durable pos⟩)).pending f.start =
              [] := by
            simpa only [pending, current_setWritten] using hpend
          rw [hpend, List.append_nil] at hstands
          rw [hpend', List.append_nil]
          exact EndsAt.resize hstands hend
        · intro hstands
          exact EndsAt.resize hstands hend
        · intro hstands
          have hcut : EndsAt i.frame.bytes i.endPos ((file.written.take pos).take (min file.durable pos)) := by
            rw [List.take_take, Nat.min_eq_left (Nat.min_le_right _ _), Nat.min_comm, ← List.take_take]
            exact EndsAt.take hstands hend
          show EndsAt _ _ ((Lib.resize pos file.written).take (min file.durable pos))
          rw [Lib.resize, List.take_append]
          exact hcut.append _

theorem buffer_fileTruncate {pos : Nat} {r : IoResult} {t : IngestLog} (h : s.fileTruncate pos r = (true, t)) :
    ∀ f, t.current = some f → f.buffer = [] := by
  intro f hf
  unfold fileTruncate at h
  split at h
  · cases h
  · rename_i u heq
    split at h
    · cases h
    · cases h
      rw [current_setWritten] at hf
      exact (buffer_fileFlush heq hf).1

theorem kept_sealFile (i : Item) (s : IngestLog) (io : RotateIo) : i.Kept s (s.sealFile io) := by
  have hflush := kept_fileFlush i s io.flush
  unfold sealFile
  split
  · rename_i heq
    rw [heq] at hflush
    exact hflush
  · rename_i t heq
    rw [heq] at hflush
    have hsync := kept_fileFsync i t io.fsync
    split
    · rename_i heq'
      rw [heq'] at hsync
      exact hflush.trans hsync
    · rename_i u heq'
      rw [heq'] at hsync
      refine (hflush.trans hsync).trans (.of_update (k := i.segment) (fun _ _ => rfl) ?_ ?_)
      · intro j _
        cases hcur : u.current with
        | none => simp [pending, hcur]
        | some f => simp [pending, hcur]
      · intro _ file hfile
        refine ⟨file, hfile, ?_, id, id⟩
        cases hcur : u.current with
        | none => simp [pending, hcur]
        | some f => simp [pending, hcur]

theorem kept_closeSegment (i : Item) (s : IngestLog) (io : RotateIo) : i.Kept s (s.closeSegment io) := by
  unfold closeSegment
  split
  · exact .refl i s
  · exact (kept_sealFile i s io).trans (.of_files (buildSparseIndex_segments _ _ _) rfl)

/-! ## Rotation -/

@[simp] theorem current_fileFsync (s : IngestLog) (ok : Bool) : (s.fileFsync ok).2.current = s.current := by
  unfold fileFsync
  split
  · rfl
  · split
    · rfl
    · split
      · exact current_setWritten _ _ _
      · rfl

/-- A flush that fails does not fill the buffer. -/
theorem buffer_fileFlush_nil {r : IoResult} (h : ∀ f, s.current = some f → f.buffer = []) :
    ∀ f, (s.fileFlush r).2.current = some f → f.buffer = [] := by
  intro f hf
  unfold fileFlush at hf
  split at hf
  · exact h f hf
  · rename_i f0 hcur
    split at hf
    · exact h f hf
    · simp only [Option.some.injEq] at hf
      subst hf
      simp [h f0 hcur]

/-- When the old segment is closed its buffer is empty, if it was empty or could be flushed. -/
theorem buffer_closeSegment {io : RotateIo} (h : ∀ f, s.current = some f → f.closed = false)
    (hdrains : io.flush = .ok ∨ ∀ f, s.current = some f → f.buffer = []) :
    ∀ f, (s.closeSegment io).current = some f → f.buffer = [] := by
  have hflush : ∀ f, (s.fileFlush io.flush).2.current = some f → f.buffer = [] := by
    rcases hdrains with hok | hnil
    · intro f hf
      cases hcur : s.current with
      | none => simp [fileFlush, hcur] at hf
      | some f0 =>
        rw [fileFlush_open hcur (h f0 hcur), hok] at hf
        simp only [Option.some.injEq] at hf
        subst hf
        simp [IoResult.count]
    · exact buffer_fileFlush_nil hnil
  intro f hf
  unfold closeSegment at hf
  split at hf
  · rename_i hcur
    rw [hcur] at hf
    cases hf
  · simp only [sealFile] at hf
    split at hf
    · rename_i t heq
      rw [heq] at hflush
      exact hflush f hf
    · rename_i t heq
      rw [heq] at hflush
      have hcur := t.current_fileFsync io.fsync
      split at hf
      · rename_i heq'
        rw [heq'] at hcur
        exact hflush f (hcur ▸ hf)
      · rename_i heq'
        rw [heq'] at hcur
        simp only [Option.map_eq_some_iff] at hf
        obtain ⟨f1, hf1, rfl⟩ := hf
        exact hflush f1 (hcur ▸ hf1)

/-- A rotation keeps the frames of all segments but the one it creates. -/
theorem kept_rotateToNewSegment {start : Nat} (ts : UInt64) {io : RotateIo} (hseg : i.segment ≠ start)
    (h : ∀ f, s.current = some f → f.closed = false)
    (hdrains : io.create = .ok → io.flush = .ok ∨ ∀ f, s.current = some f → f.buffer = []) :
    i.Kept s (s.rotateToNewSegment start ts io).2 := by
  have hclose := kept_closeSegment i s io
  unfold rotateToNewSegment
  simp only
  split
  · exact hclose
  · rename_i hdr _
    split
    · exact hclose.trans (.of_files rfl rfl)
    · rename_i n _
      refine hclose.trans (.of_update (k := start) ?_ (fun _ _ => rfl) (fun hk => absurd hk hseg))
      intro j hj
      exact (Store.get?_put _ _ _ _).trans (if_neg hj)
    · rename_i hcreate
      have hbuf := buffer_closeSegment h (hdrains hcreate)
      refine hclose.trans (.of_update (k := start) ?_ ?_ (fun hk => absurd hk hseg))
      · intro j hj
        exact (Store.get?_put _ _ _ _).trans (if_neg hj)
      · intro j hj
        rw [pending_of_current rfl, if_neg hj.symm]
        cases hcur : (s.closeSegment io).current with
        | none => simp only [pending, hcur]
        | some f => rw [pending_of_current hcur, hbuf f hcur, ite_self]

/-! ## The log between two calls -/

/-- The open file of the log, and the bytes of it on disk. -/
structure Writes (s : IngestLog) (f : OpenFile) (file : SegFile) : Prop where
  current : s.current = some f
  isOpen : f.closed = false
  file : s.dir.segments.get? f.start = some file

/-- The frames of the records are there, in segments the log does not write over. -/
structure Carries (s : IngestLog) (A : List Item) : Prop where
  intact : ∀ i ∈ A, i.Intact s
  below : ∀ i ∈ A, i.segment ≤ i.offset ∧ i.offset < s.nextOffset
  current : ∃ f, s.current = some f ∧ f.start = s.currentSegmentStartOffset
  ends : ∀ i ∈ A, i.segment = s.currentSegmentStartOffset → i.endPos ≤ s.currentSegmentBytes

/-- The log can write, and would write where its counter says. -/
def Writable (s : IngestLog) : Prop :=
  ∃ f file, s.Writes f file ∧ file.written.length + f.buffer.length = s.currentSegmentBytes

/-- The frames are there, and unless the log is poisoned the next one would stand behind them. -/
structure Stores (s : IngestLog) (A : List Item) : Prop extends s.Carries A where
  sound : s.isPoisoned = false → s.Writable
  started : s.isPoisoned = false → s.currentSegmentStartOffset ≤ s.nextOffset

theorem Carries.writes_start {A : List Item} (h : s.Carries A) {f : OpenFile} {file : SegFile} (hw : s.Writes f file) :
    f.start = s.currentSegmentStartOffset := by
  obtain ⟨f', hf', hstart⟩ := h.current
  rw [hw.current, Option.some.injEq] at hf'
  rw [hf', hstart]

/-- Frames that are kept, by an operation that leaves the offsets alone. -/
theorem Carries.of_kept {t : IngestLog} {A : List Item} (h : s.Carries A) (hkept : ∀ i ∈ A, i.Kept s t) (hcore : s.SameCore t)
    {f : OpenFile} (hf : t.current = some f) (hstart : f.start = s.currentSegmentStartOffset)
    (hends : ∀ i ∈ A, i.segment = s.currentSegmentStartOffset → i.endPos ≤ t.currentSegmentBytes) : t.Carries A := by
  refine ⟨fun i hi => (hkept i hi).intact (h.intact i hi), ?_, ⟨f, hf, by rw [hstart, hcore.start]⟩, ?_⟩
  · rw [hcore.nextOffset]
    exact h.below
  · rw [hcore.start]
    exact hends

namespace Writes

variable {f : OpenFile} {file : SegFile} (h : s.Writes f file)

include h

theorem pending_start : s.pending f.start = f.buffer := by
  rw [pending_of_current h.current, if_pos rfl]

theorem fileWrite (d : Bytes) (r : IoResult) : (s.fileWrite d r).1 = decide (r = .ok) ∧
    (s.fileWrite d r).2.Writes { f with buffer := f.buffer ++ d.take (r.count d.length) } file := by
  rw [fileWrite_open h.current h.isOpen]
  exact ⟨rfl, rfl, h.isOpen, h.file⟩

theorem fileFlush (r : IoResult) : (s.fileFlush r).1 = decide (r = .ok) ∧
    (s.fileFlush r).2.Writes { f with buffer := f.buffer.drop (r.count f.buffer.length) }
      { file with written := file.written ++ f.buffer.take (r.count f.buffer.length) } := by
  rw [fileFlush_open h.current h.isOpen]
  refine ⟨rfl, rfl, h.isOpen, ?_⟩
  show (s.setWritten _ _).dir.segments.get? f.start = _
  rw [get?_setWritten, if_pos rfl, h.file]
  rfl

theorem fileFsync (ok : Bool) : (s.fileFsync ok).1 = ok ∧
    (s.fileFsync ok).2.Writes f (if ok then { file with durable := file.written.length } else file) := by
  rw [fileFsync_open h.current h.isOpen]
  refine ⟨rfl, ?_⟩
  cases ok with
  | false => exact h
  | true =>
    refine ⟨by rw [if_pos rfl, current_setWritten, h.current], h.isOpen, ?_⟩
    rw [if_pos rfl, get?_setWritten, if_pos rfl, h.file]
    rfl

/-- A truncation that does not fail leaves a file of the length. -/
theorem fileTruncate {pos : Nat} {r : IoResult} {t : IngestLog} (ht : s.fileTruncate pos r = (true, t)) :
    ∃ file', t.Writes { f with buffer := [] } file' ∧ file'.written.length = pos := by
  obtain ⟨hok, hflush⟩ := h.fileFlush r
  unfold IngestLog.fileTruncate at ht
  split at ht
  · cases ht
  · rename_i u heq
    rw [heq] at hok hflush
    have hr : r = .ok := by simpa using hok.symm
    subst hr
    simp only [IoResult.count, List.drop_length] at hflush
    simp only [hflush.current, Prod.mk.injEq, true_and] at ht
    subst ht
    refine ⟨⟨Lib.resize pos (file.written ++ f.buffer.take f.buffer.length), min file.durable pos⟩, ⟨?_, h.isOpen, ?_⟩,
      length_resize _ _⟩
    · rw [current_setWritten, hflush.current]
    · have hget := hflush.file
      simp only at hget
      rw [get?_setWritten, if_pos rfl, hget]
      rfl

end Writes

/-- After a write the frames stand behind what was there, or the file is still open to go back. -/
theorem Writes.writeFrames {f : OpenFile} {file : SegFile} (h : s.Writes f file) (d : Bytes) (env : Env) :
    (∀ i : Item, i.Kept s (s.writeFrames d env).2) ∧ s.SameCore (s.writeFrames d env).2 ∧
      s.currentSegmentBytes ≤ (s.writeFrames d env).2.currentSegmentBytes ∧
      ∃ f' file', (s.writeFrames d env).2.Writes f' file' ∧ f'.start = f.start ∧
        ((s.writeFrames d env).1 = true → file'.written ++ f'.buffer = file.written ++ f.buffer ++ d ∧
          (s.writeFrames d env).2.currentSegmentBytes = s.currentSegmentBytes + d.length ∧
          (s.config.fsyncPolicy ≠ .never → f'.buffer = [])) := by
  obtain ⟨hok, hwrite⟩ := h.fileWrite d env.write
  have hkept := fun i : Item => kept_fileWrite i s d env.write
  have hkeeps := s.keeps_fileWrite d env.write
  unfold IngestLog.writeFrames
  split
  · rename_i t heq
    rw [heq] at hwrite hkept hkeeps
    exact ⟨hkept, hkeeps.sameCore, Nat.le_of_eq hkeeps.currentSegmentBytes.symm, _, _, hwrite, rfl, by simp⟩
  · rename_i t heq
    rw [heq] at hok hwrite hkept hkeeps
    have hr : env.write = .ok := by simpa using hok.symm
    simp only [hr, IoResult.count, List.take_length] at hwrite
    have hcounted : ({ t with
        currentSegmentBytes := t.currentSegmentBytes + d.length
        bytesSinceFlush := t.bytesSinceFlush + d.length } : IngestLog).Writes { f with buffer := f.buffer ++ d } file :=
      ⟨hwrite.current, hwrite.isOpen, hwrite.file⟩
    obtain ⟨hok', hflush⟩ := hcounted.fileFlush env.flush
    have hkept' := fun i : Item => kept_fileFlush i { t with
        currentSegmentBytes := t.currentSegmentBytes + d.length
        bytesSinceFlush := t.bytesSinceFlush + d.length } env.flush
    have hkeeps' := keeps_fileFlush { t with
        currentSegmentBytes := t.currentSegmentBytes + d.length
        bytesSinceFlush := t.bytesSinceFlush + d.length } env.flush
    have hcount : ∀ i : Item, i.Kept t { t with
        currentSegmentBytes := t.currentSegmentBytes + d.length
        bytesSinceFlush := t.bytesSinceFlush + d.length } := fun i => .of_files rfl rfl
    have hbytes : t.currentSegmentBytes = s.currentSegmentBytes := hkeeps.currentSegmentBytes
    simp only [flushIfDue]
    split
    · split
      · rename_i u heq'
        rw [heq'] at hok' hflush hkept' hkeeps'
        have hr' : env.flush = .ok := by simpa using hok'.symm
        have hcsb : u.currentSegmentBytes = s.currentSegmentBytes + d.length := by
          rw [hkeeps'.currentSegmentBytes, ← hbytes]
        refine ⟨fun i => (hkept i).trans ((hcount i).trans ((hkept' i).trans (.of_files rfl rfl))), ?_,
          by rw [hcsb]; exact Nat.le_add_right _ _, _, _, ⟨hflush.current, hflush.isOpen, hflush.file⟩, rfl, ?_⟩
        · exact hkeeps.sameCore.trans ⟨hkeeps'.config, hkeeps'.nextOffset, hkeeps'.currentSegmentStartOffset,
            hkeeps'.isPoisoned, hkeeps'.groupCommitFlushing⟩
        · intro _
          exact ⟨by simp [hr', IoResult.count], hcsb, by simp [hr', IoResult.count]⟩
      · rename_i u heq'
        rw [heq'] at hflush hkept' hkeeps'
        have hcsb : u.currentSegmentBytes = s.currentSegmentBytes + d.length := by
          rw [hkeeps'.currentSegmentBytes, ← hbytes]
        refine ⟨fun i => (hkept i).trans ((hcount i).trans (hkept' i)), ?_,
          by rw [hcsb]; exact Nat.le_add_right _ _, _, _, hflush, rfl, by simp⟩
        exact hkeeps.sameCore.trans ⟨hkeeps'.config, hkeeps'.nextOffset, hkeeps'.currentSegmentStartOffset,
            hkeeps'.isPoisoned, hkeeps'.groupCommitFlushing⟩
    · rename_i hdue
      refine ⟨fun i => (hkept i).trans (hcount i), hkeeps.sameCore.trans ⟨rfl, rfl, rfl, rfl, rfl⟩, ?_, _, _, hcounted, rfl, ?_⟩
      · show s.currentSegmentBytes ≤ t.currentSegmentBytes + d.length
        omega
      · intro _
        refine ⟨by simp, ?_, ?_⟩
        · show t.currentSegmentBytes + d.length = _
          rw [hbytes]
        · intro hpolicy
          exfalso
          apply hdue
          have hpolicy' : t.config.fsyncPolicy ≠ .never := by
            rw [hkeeps.config]
            exact hpolicy
          simp [flushDue, hpolicy']

/-- Going back to a position keeps the frames that end before it; where that fails the log is poisoned. -/
theorem Carries.rollback {A : List Item} (h : s.Carries A) {pos : Nat}
    (hpos : ∀ i ∈ A, i.segment = s.currentSegmentStartOffset → i.endPos ≤ pos)
    (hopen : s.isPoisoned = false → ∃ f file, s.Writes f file)
    (hstarted : s.isPoisoned = false → s.currentSegmentStartOffset ≤ s.nextOffset) (r : IoResult) :
    (s.rollback pos r).Stores A ∧ (∀ i ∈ A, i.Kept s (s.rollback pos r)) ∧
      (s.rollback pos r).config = s.config ∧ (s.rollback pos r).nextOffset = s.nextOffset ∧
      (s.rollback pos r).currentSegmentStartOffset = s.currentSegmentStartOffset ∧
      (s.rollback pos r).groupCommitFlushing = s.groupCommitFlushing ∧
      ((s.rollback pos r).isPoisoned = false → ∀ f, (s.rollback pos r).current = some f → f.buffer = []) := by
  obtain ⟨f, hcur, hstart⟩ := h.current
  have hkept : ∀ i ∈ A, i.Kept s (s.fileTruncate pos r).2 := by
    intro i hi
    refine kept_fileTruncate r ?_
    intro f' hf' hseg
    rw [hcur, Option.some.injEq] at hf'
    exact hpos i hi (by rw [hseg, ← hf', hstart])
  have hkeeps := s.keeps_fileTruncate pos r
  have hcur' : ∃ f', (s.fileTruncate pos r).2.current = some f' ∧ f'.start = f.start := by
    have hflush := current_fileFlush hcur r
    unfold IngestLog.fileTruncate
    split
    · rename_i heq
      rw [heq] at hflush
      exact hflush
    · rename_i heq
      rw [heq] at hflush
      split
      · exact hflush
      · rw [current_setWritten]
        exact hflush
  obtain ⟨f', hf', hstart'⟩ := hcur'
  unfold IngestLog.rollback
  split
  · rename_i t heq
    rw [heq] at hkept hkeeps hf'
    have hcarries : ({ t with currentSegmentBytes := pos, bytesSinceFlush := 0 } : IngestLog).Carries A :=
      h.of_kept (fun i hi => (hkept i hi).trans (.of_files rfl rfl)) ⟨hkeeps.config, hkeeps.nextOffset,
        hkeeps.currentSegmentStartOffset, hkeeps.isPoisoned, hkeeps.groupCommitFlushing⟩ hf' (hstart'.trans hstart) hpos
    refine ⟨⟨hcarries, ?_, ?_⟩, fun i hi => (hkept i hi).trans (.of_files rfl rfl), hkeeps.config, hkeeps.nextOffset,
      hkeeps.currentSegmentStartOffset, hkeeps.groupCommitFlushing,
      fun _ f hf => buffer_fileTruncate heq f hf⟩
    · intro hp
      obtain ⟨f0, file, hw⟩ := hopen (by rw [← hkeeps.isPoisoned]; exact hp)
      obtain ⟨file', hw', hlen⟩ := hw.fileTruncate heq
      exact ⟨_, file', ⟨hw'.current, hw'.isOpen, hw'.file⟩, by simp [hlen]⟩
    · intro hp
      show t.currentSegmentStartOffset ≤ t.nextOffset
      rw [hkeeps.currentSegmentStartOffset, hkeeps.nextOffset]
      exact hstarted (by rw [← hkeeps.isPoisoned]; exact hp)
  · rename_i t heq
    rw [heq] at hkept hkeeps hf'
    have hcarries : ({ t with isPoisoned := true } : IngestLog).Carries A := by
      have hends : ∀ i ∈ A, i.segment = s.currentSegmentStartOffset → i.endPos ≤ t.currentSegmentBytes := by
        rw [hkeeps.currentSegmentBytes]
        exact h.ends
      have hc := h.of_kept hkept hkeeps.sameCore hf' (hstart'.trans hstart) hends
      exact ⟨fun i hi => (Item.Kept.of_files (s := t) rfl rfl).intact (hc.intact i hi), hc.below, hc.current, hc.ends⟩
    exact ⟨⟨hcarries, by simp, by simp⟩, fun i hi => (hkept i hi).trans (.of_files rfl rfl), hkeeps.config, hkeeps.nextOffset,
      hkeeps.currentSegmentStartOffset, hkeeps.groupCommitFlushing, by simp⟩

/-! ## Rotating and appending -/

/-- A rotation loses nothing of the buffer: it is flushed, or empty. -/
def Drains (s : IngestLog) (size : Nat) (env : Env) : Prop :=
  s.isPoisoned = false → s.config.maxSegmentBytes < ((s.currentSegmentBytes + size : Nat) : Int) → env.rotate.create = .ok →
    env.rotate.flush = .ok ∨ ∀ f, s.current = some f → f.buffer = []

/-- The frames outside of the current segment are durable. -/
def Sealed (s : IngestLog) (A : List Item) : Prop := ∀ i ∈ A, i.segment ≠ s.currentSegmentStartOffset → i.Durable s

theorem Sealed.of_kept {t : IngestLog} {A : List Item} (h : s.Sealed A) (hkept : ∀ i ∈ A, i.Kept s t)
    (hstart : t.currentSegmentStartOffset = s.currentSegmentStartOffset) : t.Sealed A := by
  intro i hi hseg
  rw [hstart] at hseg
  exact (hkept i hi).durable (h i hi hseg)

/-- After a flush and an fsync of the open file every frame in it is durable. -/
theorem durable_of_fsync {t : IngestLog} {f : OpenFile} (hcur : s.current = some f) (hopen : f.closed = false)
    (hbuf : f.buffer = []) (ht : s.fileFsync true = (true, t)) (hintact : i.Intact s) (hseg : i.segment = f.start) :
    i.Durable t := by
  obtain ⟨file, hfile, hstands⟩ := hintact
  rw [hseg] at hfile
  have hw : s.Writes f file := ⟨hcur, hopen, hfile⟩
  have hw' := (hw.fileFsync true).2
  rw [ht] at hw'
  rw [hseg, hw.pending_start, hbuf, List.append_nil] at hstands
  refine ⟨_, by rw [hseg]; exact hw'.file, ?_⟩
  rw [if_pos rfl]
  show i.StandsIn (file.written.take file.written.length)
  rw [List.take_length]
  exact hstands

/-- The old segment is durable when it is closed, if it was or could be synced. -/
theorem durable_closeSegment {f : OpenFile} {file : SegFile} (hw : s.Writes f file) {io : RotateIo}
    (hseal : (io.flush = .ok ∧ io.fsync = true) ∨ s.AllDurable) (hintact : i.Intact s) (hseg : i.segment = f.start) :
    i.Durable (s.closeSegment io) := by
  rcases hseal with ⟨hflush, hfsync⟩ | hall
  · obtain ⟨hok, hw'⟩ := hw.fileFlush io.flush
    have hkept := kept_fileFlush i s io.flush
    have hsync := (hw'.fileFsync io.fsync).1
    have hbuf : f.buffer.drop (io.flush.count f.buffer.length) = [] := by simp [hflush, IoResult.count]
    unfold closeSegment
    rw [hw.current]
    simp only [sealFile]
    rw [show s.fileFlush io.flush = (true, (s.fileFlush io.flush).2) from Prod.ext (by rw [hok, hflush]; rfl) rfl]
    simp only
    have htrue : (s.fileFlush io.flush).2.fileFsync io.fsync = (true, ((s.fileFlush io.flush).2.fileFsync io.fsync).2) :=
      Prod.ext (by rw [hsync, hfsync]) rfl
    rw [htrue]
    rw [hfsync] at htrue ⊢
    have hdurable : i.Durable ((s.fileFlush io.flush).2.fileFsync true).2 :=
      durable_of_fsync hw'.current hw'.isOpen hbuf htrue (hkept.intact hintact) hseg
    obtain ⟨file', hfile', hstands⟩ := hdurable
    exact ⟨file', by simpa using hfile', hstands⟩
  · obtain ⟨hbuf, hlen⟩ := hall f hw.current
    refine (kept_closeSegment i s io).durable ?_
    obtain ⟨file', hfile', hstands⟩ := hintact
    rw [hseg] at hfile' hstands
    rw [hw.pending_start, hbuf, List.append_nil] at hstands
    refine ⟨file', by rw [hseg]; exact hfile', ?_⟩
    rw [List.take_of_length_le (hlen file' hfile')]
    exact hstands

/-- The log still has the file it closed. -/
theorem current_closeSegment {f : OpenFile} {file : SegFile} (hw : s.Writes f file) (io : RotateIo) :
    ∃ f', (s.closeSegment io).current = some f' ∧ f'.start = f.start := by
  have hflush := (hw.fileFlush io.flush).2.current
  unfold closeSegment
  rw [hw.current]
  simp only [sealFile]
  split
  · rename_i heq
    rw [heq] at hflush
    exact ⟨_, hflush, rfl⟩
  · rename_i t heq
    rw [heq] at hflush
    have hsync := t.current_fileFsync io.fsync
    split
    · rename_i heq'
      rw [heq'] at hsync
      exact ⟨_, hsync.trans hflush, rfl⟩
    · rename_i heq'
      rw [heq'] at hsync
      refine ⟨{ f with buffer := f.buffer.drop (io.flush.count f.buffer.length), closed := true }, ?_, rfl⟩
      simp only at hsync hflush ⊢
      rw [hsync, hflush]
      rfl

/-- A rotation, where one is due. -/
theorem Stores.rotateIfFull {A : List Item} (h : s.Stores A) (hp : s.isPoisoned = false) {size : Nat} {env : Env}
    (hdrains : s.Drains size env) {r : Except IngestLogError Unit} {t : IngestLog} (ht : s.rotateIfFull size env = (r, t)) :
    t.Carries A ∧ (∀ i ∈ A, i.Kept s t) ∧ t.config = s.config ∧ t.nextOffset = s.nextOffset ∧
      t.syncedOffset = s.syncedOffset ∧ t.groupCommitFlushing = s.groupCommitFlushing ∧
      (r = .ok () → t.isPoisoned = false ∧ t.Stores A ∧ ((∀ f, s.current = some f → f.buffer = []) →
        ∀ f, t.current = some f → f.buffer = [])) ∧ (r ≠ .ok () → s.nextOffset < 2 ^ 64 → t.isPoisoned = true) ∧
      (s.SealsDurably size env → s.Sealed A → t.Sealed A) := by
  obtain ⟨f, file, hw, hlen⟩ := h.sound hp
  have hstart := h.writes_start hw
  unfold IngestLog.rotateIfFull at ht
  split at ht
  · rename_i hdue
    have hdue' : s.config.maxSegmentBytes < ((s.currentSegmentBytes + size : Nat) : Int) := by
      rcases hdue with hnone | hdue
      · rw [hw.current] at hnone
        cases hnone
      · exact hdue
    have hopen : ∀ f', s.current = some f' → f'.closed = false := by
      intro f' hf'
      rw [hw.current, Option.some.injEq] at hf'
      rw [← hf', hw.isOpen]
    have hkept : ∀ i ∈ A, i.Kept s t := by
      intro i hi
      have hbelow := h.below i hi
      have hseg : i.segment ≠ s.nextOffset := by omega
      have hk := kept_rotateToNewSegment env.segmentTs hseg hopen (hdrains hp hdue')
      rw [ht] at hk
      exact hk
    have hkeeps := s.closeSegment_keeps env.rotate
    have hcore : s.SameCore (s.closeSegment env.rotate) := by
      rw [hkeeps]
      exact ⟨rfl, rfl, rfl, rfl, rfl⟩
    have hbytes : (s.closeSegment env.rotate).currentSegmentBytes = s.currentSegmentBytes := by rw [hkeeps]
    have hsynced : (s.closeSegment env.rotate).syncedOffset = s.syncedOffset := by rw [hkeeps]
    obtain ⟨f', hf', hstart'⟩ := current_closeSegment hw env.rotate
    -- where no file was created, the log is left with the one it closed
    have hfailed : ∀ t' : IngestLog, t'.current = (s.closeSegment env.rotate).current →
        t'.currentSegmentStartOffset = s.currentSegmentStartOffset → t'.currentSegmentBytes = s.currentSegmentBytes →
        t'.nextOffset = s.nextOffset → (∀ i ∈ A, i.Kept s t') → t'.Carries A := by
      intro t' hcur' hstart'' hbytes' hnext hkept'
      refine ⟨fun i hi => (hkept' i hi).intact (h.intact i hi), by rw [hnext]; exact h.below,
        ⟨f', hcur'.trans hf', ?_⟩, by rw [hstart'', hbytes']; exact h.ends⟩
      rw [hstart', hstart, hstart'']
    unfold rotateToNewSegment at ht
    simp only at ht
    split at ht
    · rename_i hpack
      cases ht
      refine ⟨hfailed _ rfl hcore.start hbytes hcore.nextOffset hkept, hkept, hcore.config, hcore.nextOffset, hsynced, hcore.idle,
        by simp, ?_, fun _ hsealed => hsealed.of_kept hkept hcore.start⟩
      intro _ hlt
      rw [packSegmentHeader, if_pos hlt] at hpack
      cases hpack
    · rename_i hdr hpack
      split at ht
      · cases ht
        exact ⟨hfailed _ rfl hcore.start hbytes hcore.nextOffset hkept, hkept, hcore.config, hcore.nextOffset, hsynced,
          hcore.idle, by simp, fun _ _ => rfl, fun _ hsealed => hsealed.of_kept hkept hcore.start⟩
      · cases ht
        exact ⟨hfailed _ rfl hcore.start hbytes hcore.nextOffset hkept, hkept, hcore.config, hcore.nextOffset, hsynced,
          hcore.idle, by simp, fun _ _ => rfl, fun _ hsealed => hsealed.of_kept hkept hcore.start⟩
      · rename_i hcreate
        have hnew : ∀ i ∈ A, i.segment ≠ s.nextOffset := by
          intro i hi
          have hbelow := h.below i hi
          omega
        cases ht
        have hcarries : IngestLog.Carries _ A := ⟨fun i hi => (hkept i hi).intact (h.intact i hi),
          by rw [hcore.nextOffset]; exact h.below, ⟨_, rfl, rfl⟩, fun i hi hseg => absurd hseg (hnew i hi)⟩
        refine ⟨hcarries, hkept, hcore.config, hcore.nextOffset, hsynced, hcore.idle, ?_, by simp, ?_⟩
        · intro _
          refine ⟨hcore.isPoisoned.trans hp, ⟨hcarries, ?_, fun _ => Nat.le_of_eq hcore.nextOffset.symm⟩, ?_⟩
          · intro _
            refine ⟨_, ⟨hdr, hdr.length⟩, ⟨rfl, rfl, ?_⟩, Nat.add_zero _⟩
            exact (Store.get?_put _ _ _ _).trans (if_pos rfl)
          · intro _ f'' hf''
            cases hf''
            rfl
        · intro hseal hsealed i hi _
          by_cases hseg : i.segment = s.currentSegmentStartOffset
          · obtain ⟨file', hfile', hstands⟩ := durable_closeSegment hw (hseal hp hdue' hcreate) (h.intact i hi)
              (hseg.trans hstart.symm)
            exact ⟨file', ((Store.get?_put _ _ _ _).trans (if_neg (hnew i hi))).trans hfile', hstands⟩
          · exact (hkept i hi).durable (hsealed i hi hseg)
  · cases ht
    exact ⟨h.toCarries, fun i _ => .refl i s, rfl, rfl, rfl, rfl, fun _ => ⟨hp, h, id⟩, by simp, fun _ hsealed => hsealed⟩

end IngestLog

end Mdrap
