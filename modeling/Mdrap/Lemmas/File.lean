import Mdrap.Lemmas.Layout

/-!
# File operations on a log that holds a layout

Between the write of a frame and its acknowledgement the open file may hold more than the layout has: `IngestLog.Holds s L x f`
says that the log has the files of `L` with the bytes `x` behind the last one, counting the buffer of its open file `f`. The
file operations change only the files (`IngestLog.Keeps`); a flush and an fsync change nothing of what is held.
-/

namespace Mdrap

open Lib

@[simp] theorem buildSparseIndex_segments (interval start : Nat) (dir : LogDir) :
    (buildSparseIndex interval start dir).2.segments = dir.segments := by
  unfold buildSparseIndex
  split
  · rfl
  · simp only
    split <;> rfl

namespace IngestLog

/-- The log `t` is `s` but for the bytes of its files. -/
def Keeps (s t : IngestLog) : Prop :=
  t = { s with dir := { s.dir with segments := t.dir.segments }, current := t.current }

namespace Keeps

theorem refl (s : IngestLog) : s.Keeps s := rfl

theorem trans {s t u : IngestLog} (h : s.Keeps t) (h' : t.Keeps u) : s.Keeps u := by
  rw [Keeps] at *
  rw [h', h]

variable {s t : IngestLog} (h : s.Keeps t)

include h

theorem config : t.config = s.config := by rw [h]

theorem nextOffset : t.nextOffset = s.nextOffset := by rw [h]

theorem syncedOffset : t.syncedOffset = s.syncedOffset := by rw [h]

theorem pendingSyncOffset : t.pendingSyncOffset = s.pendingSyncOffset := by rw [h]

theorem currentSegmentStartOffset : t.currentSegmentStartOffset = s.currentSegmentStartOffset := by rw [h]

theorem currentSegmentBytes : t.currentSegmentBytes = s.currentSegmentBytes := by rw [h]

theorem isPoisoned : t.isPoisoned = s.isPoisoned := by rw [h]

theorem groupCommitFlushing : t.groupCommitFlushing = s.groupCommitFlushing := by rw [h]

theorem indexes : t.dir.indexes = s.dir.indexes := by rw [h]

end Keeps

theorem keeps_setWritten (s : IngestLog) (start : Nat) (g : SegFile → SegFile) : s.Keeps (s.setWritten start g) := by
  unfold setWritten
  split <;> rfl

theorem keeps_fileWrite (s : IngestLog) (d : Bytes) (r : IoResult) : s.Keeps (s.fileWrite d r).2 := by
  unfold fileWrite
  split
  · rfl
  · split <;> rfl

theorem keeps_fileFlush (s : IngestLog) (r : IoResult) : s.Keeps (s.fileFlush r).2 := by
  unfold fileFlush
  split
  · rfl
  · split
    · rfl
    · simp only
      have h := s.keeps_setWritten
      unfold Keeps at h ⊢
      simp only
      rw [h]

theorem keeps_fileFsync (s : IngestLog) (ok : Bool) : s.Keeps (s.fileFsync ok).2 := by
  unfold fileFsync
  split
  · rfl
  · split
    · rfl
    · split
      · exact s.keeps_setWritten _ _
      · rfl

theorem keeps_fileTruncate (s : IngestLog) (pos : Nat) (r : IoResult) : s.Keeps (s.fileTruncate pos r).2 := by
  unfold fileTruncate
  have h := s.keeps_fileFlush r
  split
  · rename_i heq
    rw [heq] at h
    exact h
  · rename_i heq
    rw [heq] at h
    split
    · exact h
    · exact h.trans (keeps_setWritten _ _ _)

theorem keeps_sealFile (s : IngestLog) (io : RotateIo) : s.Keeps (s.sealFile io) := by
  unfold sealFile
  have h := s.keeps_fileFlush io.flush
  split
  · rename_i heq
    rw [heq] at h
    exact h
  · rename_i t heq
    rw [heq] at h
    have h' := t.keeps_fileFsync io.fsync
    split
    · rename_i heq'
      rw [heq'] at h'
      exact h.trans h'
    · rename_i heq'
      rw [heq'] at h'
      exact (h.trans h').trans rfl

/-! ## What is held -/

/-- The log holds the files of a layout with bytes behind the last one, through an open file. -/
structure Holds (s : IngestLog) (L : Layout) (x : Bytes) (f : OpenFile) : Prop where
  contents : s.contents = L.filesWith x
  current : s.current = some f
  start : f.start = L.active.start
  isOpen : f.closed = false

theorem filesWith_nil (L : Layout) : L.filesWith [] = L.files := by
  simp [Layout.filesWith, Layout.files, Layout.segments]

theorem contents_eq_files {s : IngestLog} (h : ∀ k, s.pending k = []) : s.contents = s.dir.files := by
  simp [contents, LogDir.files, h]

/-- The buffer belongs to the last file. -/
theorem contents_of_entries {s : IngestLog} {pre : List (Nat × SegFile)} {k : Nat} {file : SegFile} {f : OpenFile}
    (hentries : s.dir.segments.entries = pre ++ [(k, file)]) (hcur : s.current = some f) (hk : f.start = k) :
    s.contents = pre.map (fun e => (e.1, e.2.written)) ++ [(k, file.written ++ f.buffer)] := by
  have hpre : pre.map (fun e => (e.1, e.2.written ++ s.pending e.1)) = pre.map (fun e => (e.1, e.2.written)) := by
    refine List.map_congr_left ?_
    intro e he
    have hlt := Store.lt_of_mem_left hentries e he
    simp [pending, hcur, show f.start ≠ e.1 by omega]
  rw [contents, hentries, List.map_append, hpre]
  simp [pending, hcur, hk]

/-- The files of a log that holds a layout. -/
theorem Holds.split {s : IngestLog} {L : Layout} {x : Bytes} {f : OpenFile} (h : s.Holds L x f) :
    ∃ pre file, s.dir.segments.entries = pre ++ [(L.active.start, file)] ∧
      pre.map (fun e => (e.1, e.2.written)) = L.sealed.map (fun g => (g.start, g.bytes)) ∧
      file.written ++ f.buffer = L.active.bytes ++ x := by
  have hc : s.dir.segments.entries.map (fun e => (e.1, e.2.written ++ s.pending e.1)) = L.filesWith x := h.contents
  rw [Layout.filesWith, List.map_eq_append_iff] at hc
  obtain ⟨pre, last, hentries, _, hlast⟩ := hc
  rw [List.map_eq_singleton_iff] at hlast
  obtain ⟨⟨k, file⟩, rfl, hkf⟩ := hlast
  simp only [Prod.mk.injEq] at hkf
  obtain ⟨rfl, _⟩ := hkf
  have hc' := h.contents
  rw [contents_of_entries hentries h.current h.start, Layout.filesWith, List.append_singleton_inj, Prod.mk.injEq] at hc'
  exact ⟨pre, file, hentries, hc'.1, hc'.2.2⟩

/-- A log with these files holds the layout. -/
theorem holds_of_entries {s : IngestLog} {L : Layout} {x : Bytes} {f : OpenFile} {pre : List (Nat × SegFile)}
    {file : SegFile} (hentries : s.dir.segments.entries = pre ++ [(L.active.start, file)])
    (hpre : pre.map (fun e => (e.1, e.2.written)) = L.sealed.map (fun g => (g.start, g.bytes)))
    (hfile : file.written ++ f.buffer = L.active.bytes ++ x) (hcur : s.current = some f) (hstart : f.start = L.active.start)
    (hopen : f.closed = false) : s.Holds L x f :=
  ⟨by rw [contents_of_entries hentries hcur hstart, hpre, hfile, Layout.filesWith], hcur, hstart, hopen⟩

theorem entries_setWritten {s : IngestLog} {pre : List (Nat × SegFile)} {k : Nat} {file : SegFile}
    (h : s.dir.segments.entries = pre ++ [(k, file)]) (g : SegFile → SegFile) :
    (s.setWritten k g).dir.segments.entries = pre ++ [(k, g file)] := by
  have hget : s.dir.segments.get? k = some file := Store.get?_of_mem (by rw [h]; simp)
  simp only [setWritten, hget]
  exact Store.entries_put_middle h (g file)

@[simp] theorem current_setWritten (s : IngestLog) (k : Nat) (g : SegFile → SegFile) :
    (s.setWritten k g).current = s.current := by
  unfold setWritten
  split <;> rfl

section OpenFile

variable {s : IngestLog} {f : OpenFile} (hcur : s.current = some f) (hopen : f.closed = false)

include hcur hopen

theorem fileWrite_open (d : Bytes) (r : IoResult) : s.fileWrite d r =
    (decide (r = .ok), { s with current := some { f with buffer := f.buffer ++ d.take (r.count d.length) } }) := by
  simp [fileWrite, hcur, hopen]

theorem fileFlush_open (r : IoResult) : s.fileFlush r =
    (decide (r = .ok),
      { s.setWritten f.start (fun file => { file with written := file.written ++ f.buffer.take (r.count f.buffer.length) })
        with current := some { f with buffer := f.buffer.drop (r.count f.buffer.length) } }) := by
  simp [fileFlush, hcur, hopen]

theorem fileFsync_open (ok : Bool) : s.fileFsync ok =
    (ok, if ok then s.setWritten f.start (fun file => { file with durable := file.written.length }) else s) := by
  cases ok <;> simp [fileFsync, hcur, hopen]

theorem fileTruncate_open (pos : Nat) : s.fileTruncate pos .ok =
    (true, (s.fileFlush .ok).2.setWritten f.start (fun file => ⟨resize pos file.written, min file.durable pos⟩)) := by
  simp [fileTruncate, fileFlush_open hcur hopen]

end OpenFile

namespace Holds

variable {s : IngestLog} {L : Layout} {x : Bytes} {f : OpenFile} (h : s.Holds L x f)

include h

/-- A write puts bytes behind those that are there. -/
theorem fileWrite (d : Bytes) (r : IoResult) :
    (s.fileWrite d r).1 = decide (r = .ok) ∧ ∃ f', (s.fileWrite d r).2.Holds L (x ++ d.take (r.count d.length)) f' := by
  obtain ⟨pre, file, hentries, hpre, hfile⟩ := h.split
  rw [fileWrite_open h.current h.isOpen]
  refine ⟨rfl, _, holds_of_entries hentries hpre ?_ rfl h.start h.isOpen⟩
  rw [← List.append_assoc, hfile, List.append_assoc]

/-- A flush moves bytes from the buffer to the file. -/
theorem fileFlush (r : IoResult) :
    (s.fileFlush r).1 = decide (r = .ok) ∧ ∃ f', (s.fileFlush r).2.Holds L x f' ∧ (r = .ok → f'.buffer = []) := by
  obtain ⟨pre, file, hentries, hpre, hfile⟩ := h.split
  rw [fileFlush_open h.current h.isOpen]
  have hset := entries_setWritten hentries
    (fun file => { file with written := file.written ++ f.buffer.take (r.count f.buffer.length) })
  rw [← h.start] at hset
  refine ⟨rfl, _, holds_of_entries (by rw [← h.start]; exact hset) hpre ?_ rfl h.start h.isOpen, ?_⟩
  · rw [List.append_assoc, List.take_append_drop, hfile]
  · rintro rfl
    simp [IoResult.count]

/-- An fsync changes no byte. -/
theorem fileFsync (ok : Bool) : (s.fileFsync ok).1 = ok ∧ (s.fileFsync ok).2.Holds L x f := by
  obtain ⟨pre, file, hentries, hpre, hfile⟩ := h.split
  rw [fileFsync_open h.current h.isOpen]
  refine ⟨rfl, ?_⟩
  cases ok with
  | false => exact h
  | true =>
    have hset : (s.setWritten f.start (fun file => { file with durable := file.written.length })).dir.segments.entries =
        pre ++ [(L.active.start, ⟨file.written, file.written.length⟩)] := by
      rw [h.start]
      exact entries_setWritten hentries _
    exact holds_of_entries hset hpre hfile ((current_setWritten _ _ _).trans h.current) h.start h.isOpen

/-- Going back to the end of the layout removes what stands behind it. -/
theorem fileTruncate : (s.fileTruncate L.active.bytes.length .ok).1 = true ∧
    ∃ f', (s.fileTruncate L.active.bytes.length .ok).2.Holds L [] f' := by
  obtain ⟨_, f', hflush, hempty⟩ := h.fileFlush .ok
  obtain ⟨pre, file, hentries, hpre, hfile⟩ := hflush.split
  rw [fileTruncate_open h.current h.isOpen]
  refine ⟨rfl, f', ?_⟩
  have hset := entries_setWritten hentries
    (fun file => ⟨resize L.active.bytes.length file.written, min file.durable L.active.bytes.length⟩)
  rw [← h.start] at hset
  rw [hempty rfl, List.append_nil] at hfile
  refine holds_of_entries (by rw [← h.start]; exact hset) hpre ?_ ((current_setWritten _ _ _).trans hflush.current)
    hflush.start hflush.isOpen
  rw [hempty rfl, List.append_nil, List.append_nil, hfile, resize_of_le (by simp), List.take_left]

end Holds

end IngestLog

end Mdrap
