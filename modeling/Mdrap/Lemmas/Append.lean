import Mdrap.Lemmas.File

/-!
# Appending keeps the representation

Under failures that are rolled back (`Env.Recoverable`), a call of `append` or `append_batch` on a log that represents a layout
leaves a log that represents it again: with the new records at its end when the call returns offsets, and with the same
records when it raises.
-/

namespace Mdrap

open Lib

/-- The failures of a call that the log recovers from by itself: the old segment is flushed and the new one created, and a
failed write, flush or fsync is rolled back. -/
structure Env.Recoverable (env : Env) : Prop where
  flush : env.rotate.flush = .ok
  create : env.rotate.create = .ok
  rollback : env.rollback = .ok

instance (env : Env) : Decidable env.Recoverable :=
  decidable_of_iff (env.rotate.flush = .ok ∧ env.rotate.create = .ok ∧ env.rollback = .ok)
    ⟨fun h => ⟨h.1, h.2.1, h.2.2⟩, fun h => ⟨h.flush, h.create, h.rollback⟩⟩

theorem Env.recoverable_faultless (a b c d : UInt64) : (Env.faultless a b c d).Recoverable := ⟨rfl, rfl, rfl⟩

namespace IngestLog

/-! ## Holding and representing -/

theorem Represents.holds {s : IngestLog} {L : Layout} (h : s.Represents L) (hp : s.isPoisoned = false) {f : OpenFile}
    (hcur : s.current = some f) : s.Holds L [] f := by
  obtain ⟨hstart, _, _, hclosed⟩ := h.current f hcur
  refine ⟨by rw [h.contents, filesWith_nil], hcur, hstart, ?_⟩
  cases hc : f.closed with
  | false => rfl
  | true =>
    rw [(hclosed hc).1] at hp
    cases hp

theorem Holds.represents {s : IngestLog} {L : Layout} {f : OpenFile} (h : s.Holds L [] f) (hnext : s.nextOffset = L.next)
    (hstart : s.currentSegmentStartOffset = L.active.start) (hbytes : s.currentSegmentBytes = L.active.bytes.length) :
    s.Represents L := by
  refine ⟨by rw [h.contents, filesWith_nil], hnext, ?_⟩
  intro f' hf'
  rw [h.current, Option.some.injEq] at hf'
  subst hf'
  exact ⟨h.start, hstart, hbytes, by simp [h.isOpen]⟩

/-- The files of a log whose buffer is empty or whose file was closed. -/
theorem files_of_contents {s : IngestLog} {L : Layout} (h : s.contents = L.files)
    (hbuf : ∀ f, s.current = some f → f.buffer = []) : s.dir.files = L.files := by
  rw [← h, contents, LogDir.files]
  refine List.map_congr_left ?_
  intro e _
  have hpend : s.pending e.1 = [] := by
    cases hcur : s.current with
    | none => simp [pending, hcur]
    | some f => simp [pending, hcur, hbuf f hcur]
  rw [hpend, List.append_nil]

/-! ## Rotation -/

/-- A log whose buffer was written out into the files of a layout. -/
structure Drained (s : IngestLog) (L : Layout) : Prop where
  files : s.dir.files = L.files
  current : ∀ f, s.current = some f → f.start = L.active.start ∧ f.buffer = []

theorem Drained.contents {s : IngestLog} {L : Layout} (h : s.Drained L) : s.contents = L.files := by
  rw [← h.files]
  refine contents_eq_files ?_
  intro k
  unfold pending
  split
  · rename_i f hcur
    simp [(h.current f hcur).2]
  · rfl

theorem Holds.drained {s : IngestLog} {L : Layout} {f : OpenFile} (h : s.Holds L [] f) (hbuf : f.buffer = []) :
    s.Drained L := by
  have hcur : ∀ f', s.current = some f' → f'.start = L.active.start ∧ f'.buffer = [] := by
    intro f' hf'
    rw [h.current, Option.some.injEq] at hf'
    subst hf'
    exact ⟨h.start, hbuf⟩
  exact ⟨files_of_contents (by rw [h.contents, filesWith_nil]) (fun f' hf' => (hcur f' hf').2), hcur⟩

/-- Closing the open file writes out its buffer. -/
theorem sealFile_drained {s : IngestLog} {L : Layout} {f : OpenFile} (h : s.Holds L [] f) (io : RotateIo)
    (hio : io.flush = .ok) : (s.sealFile io).Drained L := by
  obtain ⟨hok, f', hflush, hbuf⟩ := h.fileFlush io.flush
  unfold sealFile
  split
  · rename_i heq
    rw [heq, hio] at hok
    cases hok
  · rename_i t heq
    rw [heq] at hflush
    obtain ⟨_, hsync⟩ := hflush.fileFsync io.fsync
    split
    · rename_i heq'
      rw [heq'] at hsync
      exact hsync.drained (hbuf hio)
    · rename_i t' heq'
      rw [heq'] at hsync
      refine ⟨(hsync.drained (hbuf hio)).files, ?_⟩
      intro f'' hf''
      rw [Option.map_eq_some_iff] at hf''
      obtain ⟨g, hg, rfl⟩ := hf''
      exact (hsync.drained (hbuf hio)).current g hg

/-- The end of the active segment leaves its file on disk. -/
theorem closeSegment_drained {s : IngestLog} {L : Layout} (h : s.Represents L) (hp : s.isPoisoned = false) (io : RotateIo)
    (hio : io.flush = .ok) : (s.closeSegment io).Drained L := by
  unfold closeSegment
  split
  · rename_i hcur
    exact ⟨files_of_contents h.contents (by simp [hcur]), by simp [hcur]⟩
  · rename_i f hcur
    have hd := sealFile_drained (h.holds hp hcur) io hio
    refine ⟨?_, hd.current⟩
    simp only [LogDir.files, buildSparseIndex_segments]
    exact hd.files

/-- The end of a segment changes only the files. -/
theorem closeSegment_keeps (s : IngestLog) (io : RotateIo) :
    s.closeSegment io = { s with dir := (s.closeSegment io).dir, current := (s.closeSegment io).current } := by
  unfold closeSegment
  split
  · rfl
  · simp only
    have h := s.keeps_sealFile io
    rw [h]

/-- A new file at the next offset, in the files of a layout. -/
theorem entries_put_rotate {dir : LogDir} {L : Layout} (h : dir.files = L.files) (ts : UInt64) (file : SegFile) :
    ∃ pre, (dir.segments.put L.next file).entries = pre ++ [(L.next, file)] ∧
      pre.map (fun e => (e.1, e.2.written)) = (L.rotate ts).sealed.map (fun g => (g.start, g.bytes)) := by
  rw [LogDir.files, Layout.files, Layout.segments, List.map_append, List.map_eq_append_iff] at h
  obtain ⟨pre, last, hentries, hpre, hlast⟩ := h
  rw [List.map_cons, List.map_nil, List.map_eq_singleton_iff] at hlast
  obtain ⟨⟨k, f⟩, rfl, hkf⟩ := hlast
  simp only [Prod.mk.injEq] at hkf
  obtain ⟨rfl, hbytes⟩ := hkf
  by_cases hnil : L.active.entries = []
  · have hnext : L.next = L.active.start := by simp [Layout.next, Segment.next, hnil]
    rw [← hnext] at hentries
    exact ⟨pre, Store.entries_put_middle hentries file, by simpa [Layout.rotate, hnil] using hpre⟩
  · have hlt : L.active.start < L.next := by
      have := List.length_pos_iff.mpr hnil
      simp only [Layout.next, Segment.next]
      omega
    refine ⟨pre ++ [(L.active.start, f)], ?_, ?_⟩
    · rw [Store.entries_put_last, hentries]
      intro e he
      rw [hentries] at he
      rcases List.mem_append.mp he with he | he
      · have := Store.lt_of_mem_left hentries e he
        omega
      · rw [List.mem_singleton.mp he]
        exact hlt
    · simp [Layout.rotate, hnil, hpre, hbytes]

/-- The log after a rotation that did not fail. -/
theorem rotateToNewSegment_ok (s : IngestLog) {start : Nat} (hstart : start < 2 ^ 64) (ts : UInt64) {io : RotateIo}
    (hcreate : io.create = .ok) : s.rotateToNewSegment start ts io = (.ok (), { s.closeSegment io with
      dir := { (s.closeSegment io).dir with
        segments := (s.closeSegment io).dir.segments.put start ⟨segmentHeaderBytes start ts, 32⟩ }
      current := some ⟨start, [], false⟩
      currentSegmentStartOffset := start
      currentSegmentBytes := 32
      bytesSinceFlush := 0
      bytesSinceFsync := 0 }) := by
  have hpack : packSegmentHeader start ts = some (segmentHeaderBytes start ts) := if_pos hstart
  simp [rotateToNewSegment, hpack, hcreate]

/-- The log between two calls, as far as appending looks at it: its files, and that nothing has failed for good. -/
structure Ready (s : IngestLog) (L : Layout) : Prop where
  represents : s.Represents L
  sound : s.isPoisoned = false
  isOpen : s.current.isSome

/-- A rotation at the next offset starts an empty segment there. -/
theorem rotateToNewSegment_spec {s : IngestLog} {L : Layout} (h : s.Represents L) (hp : s.isPoisoned = false) (ts : UInt64)
    {io : RotateIo} (hflush : io.flush = .ok) (hcreate : io.create = .ok) (hnext : L.next < 2 ^ 64) :
    (s.rotateToNewSegment s.nextOffset ts io).1 = .ok () ∧
      (s.rotateToNewSegment s.nextOffset ts io).2.Ready (L.rotate ts) ∧
      (s.rotateToNewSegment s.nextOffset ts io).2.config = s.config ∧
      (s.rotateToNewSegment s.nextOffset ts io).2.groupCommitFlushing = s.groupCommitFlushing := by
  obtain ⟨pre, hentries, hpre⟩ := entries_put_rotate (closeSegment_drained h hp io hflush).files ts
    ⟨segmentHeaderBytes L.next ts, 32⟩
  have hkeep := s.closeSegment_keeps io
  rw [h.next, rotateToNewSegment_ok s hnext ts hcreate]
  have hhold : ({ s.closeSegment io with
      dir := { (s.closeSegment io).dir with
        segments := (s.closeSegment io).dir.segments.put L.next ⟨segmentHeaderBytes L.next ts, 32⟩ }
      current := some ⟨L.next, [], false⟩
      currentSegmentStartOffset := L.next
      currentSegmentBytes := 32
      bytesSinceFlush := 0
      bytesSinceFsync := 0 } : IngestLog).Holds (L.rotate ts) [] ⟨L.next, [], false⟩ :=
    holds_of_entries (L := L.rotate ts) hentries hpre (by rw [L.bytes_active_rotate]) rfl rfl rfl
  refine ⟨rfl, ⟨hhold.represents ?_ rfl ?_, ?_, rfl⟩, ?_, ?_⟩
  · rw [L.next_rotate, ← h.next, hkeep]
  · rw [L.bytes_active_rotate]
    simp
  · rw [← hp, hkeep]
  · rw [hkeep]
  · rw [hkeep]

/-- Before frames of some size are written, the segment is rotated or not. -/
theorem rotateIfFull_spec {s : IngestLog} {L : Layout} (h : s.Represents L) (hp : s.isPoisoned = false) {env : Env}
    (henv : env.Recoverable) (size : Nat) (hnext : L.next < 2 ^ 64) :
    ∃ L', L.Rotated L' ∧ (s.rotateIfFull size env).1 = .ok () ∧ (s.rotateIfFull size env).2.Ready L' ∧
      (s.rotateIfFull size env).2.config = s.config ∧
      (s.rotateIfFull size env).2.groupCommitFlushing = s.groupCommitFlushing := by
  unfold rotateIfFull
  split
  · obtain ⟨hok, hready, hcfg, hidle⟩ :=
      rotateToNewSegment_spec h hp env.segmentTs henv.flush henv.create hnext
    exact ⟨L.rotate env.segmentTs, Or.inr ⟨_, rfl⟩, hok, hready, hcfg, hidle⟩
  · rename_i hcond
    refine ⟨L, Or.inl rfl, rfl, ⟨h, hp, ?_⟩, rfl, rfl⟩
    rw [not_or, Option.isNone_iff_eq_none] at hcond
    exact Option.isSome_iff_ne_none.mpr hcond.1

/-! ## Writing and going back -/

/-- The fields of a log that writing and going back leave alone. -/
structure SameCore (s t : IngestLog) : Prop where
  config : t.config = s.config
  nextOffset : t.nextOffset = s.nextOffset
  start : t.currentSegmentStartOffset = s.currentSegmentStartOffset
  isPoisoned : t.isPoisoned = s.isPoisoned
  idle : t.groupCommitFlushing = s.groupCommitFlushing

theorem Keeps.sameCore {s t : IngestLog} (h : s.Keeps t) : s.SameCore t :=
  ⟨h.config, h.nextOffset, h.currentSegmentStartOffset, h.isPoisoned, h.groupCommitFlushing⟩

theorem SameCore.trans {s t u : IngestLog} (h : s.SameCore t) (h' : t.SameCore u) : s.SameCore u :=
  ⟨h'.config.trans h.config, h'.nextOffset.trans h.nextOffset, h'.start.trans h.start, h'.isPoisoned.trans h.isPoisoned,
    h'.idle.trans h.idle⟩

/-- The flush after a write leaves what is held. -/
theorem flushIfDue_spec {s : IngestLog} {L : Layout} {x : Bytes} {f : OpenFile} (h : s.Holds L x f) (r : IoResult) :
    (∃ f', (s.flushIfDue r).2.Holds L x f') ∧ s.SameCore (s.flushIfDue r).2 ∧
      (s.flushIfDue r).2.currentSegmentBytes = s.currentSegmentBytes := by
  unfold flushIfDue
  split
  · obtain ⟨_, f', hflush, _⟩ := h.fileFlush r
    have hkeep := s.keeps_fileFlush r
    split
    · rename_i heq
      rw [heq] at hflush hkeep
      exact ⟨⟨f', ⟨hflush.contents, hflush.current, hflush.start, hflush.isOpen⟩⟩, ⟨hkeep.config, hkeep.nextOffset,
        hkeep.currentSegmentStartOffset, hkeep.isPoisoned, hkeep.groupCommitFlushing⟩, hkeep.currentSegmentBytes⟩
    · rename_i heq
      rw [heq] at hflush hkeep
      exact ⟨⟨f', hflush⟩, hkeep.sameCore, hkeep.currentSegmentBytes⟩
  · exact ⟨⟨f, h⟩, ⟨rfl, rfl, rfl, rfl, rfl⟩, rfl⟩

/-- After a write the log holds the bytes behind the layout, or what came through of them. -/
theorem writeFrames_spec {s : IngestLog} {L : Layout} {f : OpenFile} (h : s.Holds L [] f) (d : Bytes) (env : Env) :
    ∃ x f', (s.writeFrames d env).2.Holds L x f' ∧ s.SameCore (s.writeFrames d env).2 ∧
      ((s.writeFrames d env).1 = true → x = d ∧
        (s.writeFrames d env).2.currentSegmentBytes = s.currentSegmentBytes + d.length) := by
  obtain ⟨hok, f', hwrite⟩ := h.fileWrite d env.write
  have hkeep := s.keeps_fileWrite d env.write
  unfold writeFrames
  split
  · rename_i heq
    rw [heq] at hwrite hkeep
    exact ⟨_, f', hwrite, hkeep.sameCore, by simp⟩
  · rename_i t heq
    rw [heq] at hok hwrite hkeep
    have hr : env.write = .ok := by simpa using hok.symm
    simp only [hr, IoResult.count, List.nil_append, List.take_length] at hwrite
    obtain ⟨⟨f'', hflush⟩, hcore, hbytes⟩ := flushIfDue_spec (s := { t with
      currentSegmentBytes := t.currentSegmentBytes + d.length
      bytesSinceFlush := t.bytesSinceFlush + d.length })
      ⟨hwrite.contents, hwrite.current, hwrite.start, hwrite.isOpen⟩ env.flush
    refine ⟨d, f'', hflush, hkeep.sameCore.trans ⟨hcore.config, hcore.nextOffset, hcore.start, hcore.isPoisoned, hcore.idle⟩,
      fun _ => ⟨rfl, ?_⟩⟩
    rw [hbytes]
    show t.currentSegmentBytes + d.length = _
    rw [hkeep.currentSegmentBytes]

/-- Going back to the end of the layout gives the layout again. -/
theorem rollback_spec {s : IngestLog} {L : Layout} {x : Bytes} {f : OpenFile} (h : s.Holds L x f) :
    (∃ f', (s.rollback L.active.bytes.length .ok).Holds L [] f') ∧ s.SameCore (s.rollback L.active.bytes.length .ok) ∧
      (s.rollback L.active.bytes.length .ok).currentSegmentBytes = L.active.bytes.length := by
  obtain ⟨hok, f', htrunc⟩ := h.fileTruncate
  have hkeep := s.keeps_fileTruncate L.active.bytes.length .ok
  unfold rollback
  split
  · rename_i heq
    rw [heq] at htrunc hkeep
    exact ⟨⟨f', ⟨htrunc.contents, htrunc.current, htrunc.start, htrunc.isOpen⟩⟩, ⟨hkeep.config, hkeep.nextOffset,
      hkeep.currentSegmentStartOffset, hkeep.isPoisoned, hkeep.groupCommitFlushing⟩, rfl⟩
  · rename_i heq
    rw [heq] at hok
    cases hok

/-! ## One record -/

theorem Ready.holds {s : IngestLog} {L : Layout} (h : s.Ready L) : ∃ f, s.Holds L [] f := by
  obtain ⟨f, hf⟩ := Option.isSome_iff_exists.mp h.isOpen
  exact ⟨f, h.represents.holds h.sound hf⟩

theorem Ready.start {s : IngestLog} {L : Layout} (h : s.Ready L) : s.currentSegmentStartOffset = L.active.start := by
  obtain ⟨f, hf⟩ := Option.isSome_iff_exists.mp h.isOpen
  exact (h.represents.current f hf).2.1

theorem Ready.bytes {s : IngestLog} {L : Layout} (h : s.Ready L) : s.currentSegmentBytes = L.active.bytes.length := by
  obtain ⟨f, hf⟩ := Option.isSome_iff_exists.mp h.isOpen
  exact (h.represents.current f hf).2.2.1

/-- The record `append` logs for an input, with the time of its frame. -/
def appendEntry (raw : RawInput) (env : Env) : LogEntry := ⟨env.frameTs, appendRecord env.stampTs raw⟩

/-- Frames behind a layout are the layout with more records. -/
theorem Holds.extend {s : IngestLog} {L : Layout} {f : OpenFile} {es : List LogEntry}
    (hes : ∀ f ∈ framesFrom L.next es, f.Fits) (h : s.Holds L ((framesFrom L.next es).flatMap Frame.bytes) f) :
    s.Holds (L.extend es hes) [] f :=
  ⟨by rw [h.contents, L.filesWith_extend es hes], h.current, h.start, h.isOpen⟩

/-- Frames that are given up leave the layout as it was before them. -/
theorem Holds.of_extend {s : IngestLog} {L : Layout} {f : OpenFile} {es : List LogEntry}
    {hes : ∀ f ∈ framesFrom L.next es, f.Fits} (h : s.Holds (L.extend es hes) [] f) :
    s.Holds L ((framesFrom L.next es).flatMap Frame.bytes) f :=
  ⟨by rw [h.contents, L.filesWith_extend es hes], h.current, h.start, h.isOpen⟩

theorem packFrameHeader_eq_some {offset : Nat} {now : UInt64} {payload hdr : Bytes}
    (h : packFrameHeader offset now payload logVersion = some hdr) :
    (Frame.mk offset now payload).Fits ∧ hdr ++ payload = (Frame.mk offset now payload).bytes := by
  unfold packFrameHeader at h
  split at h
  · rename_i hfits
    cases h
    exact ⟨hfits, rfl⟩
  · cases h

/-- The start of `append`: a record is written at the next offset, or nothing but a rotation happened. -/
theorem appendBegin_spec {s : IngestLog} {L : Layout} (h : s.Represents L) {env : Env} (henv : env.Recoverable)
    (raw : RawInput) :
    (s.appendBegin raw env).2.config = s.config ∧
    (s.appendBegin raw env).2.groupCommitFlushing = s.groupCommitFlushing ∧
    ∃ L0, L.Rotated L0 ∧
      ((∃ e, (s.appendBegin raw env).1 = .error e ∧ (s.appendBegin raw env).2.Represents L0) ∨
        ∃ hes, (s.appendBegin raw env).1 = .ok (L.next, L0.active.bytes.length) ∧
          (s.appendBegin raw env).2.Ready (L0.extend [appendEntry raw env] hes) ∧
          (s.appendBegin raw env).2.pendingSyncOffset = L.next) := by
  unfold appendBegin
  split
  · exact ⟨rfl, rfl, L, Or.inl rfl, Or.inl ⟨_, rfl, h⟩⟩
  · rename_i hp
    rw [Bool.not_eq_true] at hp
    simp only
    split
    · exact ⟨rfl, rfl, L, Or.inl rfl, Or.inl ⟨_, rfl, h⟩⟩
    · rename_i hdr hpack
      rw [h.next] at hpack
      obtain ⟨hfits, hbytes⟩ := packFrameHeader_eq_some hpack
      obtain ⟨L0, hrot, hok, hready, hcfg, hidle⟩ := rotateIfFull_spec h hp henv
        (frameHeaderSize + (recordBytes (appendRecord env.stampTs raw)).length) hfits.1
      split
      · rename_i heq
        rw [heq] at hok
        cases hok
      · rename_i t heq
        rw [heq] at hready hcfg hidle
        simp only at hready hcfg hidle
        obtain ⟨f, hhold⟩ := hready.holds
        have hes : ∀ f ∈ framesFrom L0.next [appendEntry raw env], f.Fits := by
          simp only [framesFrom, List.mem_singleton, forall_eq, hrot.next]
          exact hfits
        have hframe : (framesFrom L0.next [appendEntry raw env]).flatMap Frame.bytes =
            hdr ++ recordBytes (appendRecord env.stampTs raw) := by
          rw [hbytes, hrot.next]
          simp [framesFrom, appendEntry, LogEntry.frame]
        obtain ⟨x, f', hwrite, hcore, hdone⟩ := writeFrames_spec hhold (hdr ++ recordBytes (appendRecord env.stampTs raw)) env
        split
        · rename_i heq'
          rw [heq'] at hwrite hcore
          simp only at hwrite hcore
          obtain ⟨⟨f'', hback⟩, hcore', hpos⟩ := rollback_spec hwrite
          have hcore := hcore.trans hcore'
          rw [henv.rollback, hready.bytes]
          refine ⟨by rw [hcore.config, hcfg], by rw [hcore.idle, hidle], L0, hrot, Or.inl ⟨_, rfl, hback.represents ?_ ?_ hpos⟩⟩
          · rw [hcore.nextOffset, hready.represents.next]
          · rw [hcore.start, hready.start]
        · rename_i u heq'
          rw [heq'] at hwrite hcore hdone
          obtain ⟨rfl, hpos⟩ := hdone rfl
          simp only at hwrite hcore hpos
          rw [← hframe] at hwrite hpos
          have hext := Holds.extend hes hwrite
          refine ⟨by rw [hcore.config, hcfg], by rw [hcore.idle, hidle], L0, hrot, Or.inr ⟨hes, ?_, ?_, ?_⟩⟩
          · rw [h.next, hready.bytes]
          · have hhold' : ({ u with
                bytesSinceFsync := u.bytesSinceFsync + frameHeaderSize + (recordBytes (appendRecord env.stampTs raw)).length
                nextOffset := s.nextOffset + 1
                pendingSyncOffset := s.nextOffset } : IngestLog).Holds (L0.extend [appendEntry raw env] hes) [] f' :=
              ⟨hext.contents, hext.current, hext.start, hext.isOpen⟩
            refine ⟨hhold'.represents ?_ ?_ ?_, ?_, ?_⟩
            · rw [Layout.next_extend, hrot.next, ← h.next]
              rfl
            · show u.currentSegmentStartOffset = L0.active.start
              rw [hcore.start, hready.start]
            · show u.currentSegmentBytes = (L0.active.extend [appendEntry raw env]).bytes.length
              rw [hpos, hready.bytes, Segment.bytes_extend, List.length_append]
              rfl
            · show u.isPoisoned = false
              rw [hcore.isPoisoned, hready.sound]
            · rw [hhold'.current]
              rfl
          · show (s.nextOffset : Int) = L.next
            rw [h.next]

/-- The failure branch of `append` takes the record back. -/
theorem appendAbort_spec {s : IngestLog} {L : Layout} {e : LogEntry} {hes : ∀ f ∈ framesFrom L.next [e], f.Fits}
    {f : OpenFile} (h : s.Holds (L.extend [e] hes) [] f) (hnext : s.nextOffset = L.next + 1)
    (hstart : s.currentSegmentStartOffset = L.active.start) :
    (s.appendAbort L.next L.active.bytes.length .ok).Represents L ∧
      (s.appendAbort L.next L.active.bytes.length .ok).config = s.config ∧
      (s.appendAbort L.next L.active.bytes.length .ok).groupCommitFlushing = s.groupCommitFlushing := by
  have hdirty := h.of_extend
  obtain ⟨⟨f', hback⟩, hcore, hpos⟩ := rollback_spec (s := { s with nextOffset := L.next })
    ⟨hdirty.contents, hdirty.current, hdirty.start, hdirty.isOpen⟩
  have habort : s.appendAbort L.next L.active.bytes.length .ok =
      ({ s with nextOffset := L.next } : IngestLog).rollback L.active.bytes.length .ok := by
    simp [appendAbort, hnext]
  rw [habort]
  exact ⟨hback.represents hcore.nextOffset (hcore.start.trans hstart) hpos, hcore.config, hcore.idle⟩

/-- What a call that may append one record leaves: the layout with it, or without it. -/
structure AppendResult (s : IngestLog) (L : Layout) (e : LogEntry) (r : Except IngestLogError Nat × IngestLog) : Prop where
  config : r.2.config = s.config
  idle : r.2.groupCommitFlushing = s.groupCommitFlushing
  outcome : ∃ L0, L.Rotated L0 ∧ ((∃ err, r.1 = .error err ∧ r.2.Represents L0) ∨
    ∃ hes, r.1 = .ok L.next ∧ r.2.Ready (L0.extend [e] hes))

/-- The syncs of `append` change nothing that is held. -/
theorem appendSync_spec {s : IngestLog} {L : Layout} {f : OpenFile} (h : s.Holds L [] f) (offset : Nat) (env : Env) :
    (s.appendSync offset env).2.Holds L [] f ∧ s.SameCore (s.appendSync offset env).2 ∧
      (s.appendSync offset env).2.currentSegmentBytes = s.currentSegmentBytes := by
  unfold appendSync
  split
  · obtain ⟨_, hsync⟩ := h.fileFsync env.fsync
    have hkeep := s.keeps_fileFsync env.fsync
    split
    · rename_i heq
      rw [heq] at hsync hkeep
      exact ⟨hsync, hkeep.sameCore, hkeep.currentSegmentBytes⟩
    · rename_i heq
      rw [heq] at hsync hkeep
      exact ⟨⟨hsync.contents, hsync.current, hsync.start, hsync.isOpen⟩, ⟨hkeep.config, hkeep.nextOffset,
        hkeep.currentSegmentStartOffset, hkeep.isPoisoned, hkeep.groupCommitFlushing⟩, hkeep.currentSegmentBytes⟩
  · exact ⟨h, ⟨rfl, rfl, rfl, rfl, rfl⟩, rfl⟩

theorem Ready.of_sameCore {s t : IngestLog} {L : Layout} {f : OpenFile} (h : s.Ready L) (hcore : s.SameCore t)
    (hbytes : t.currentSegmentBytes = s.currentSegmentBytes) (hhold : t.Holds L [] f) : t.Ready L :=
  ⟨hhold.represents (hcore.nextOffset.trans h.represents.next) (hcore.start.trans h.start) (hbytes.trans h.bytes),
    hcore.isPoisoned.trans h.sound, by rw [hhold.current]; rfl⟩

/-- The turn of a caller that is alone: it is done or it leads. -/
theorem groupTurn_alone {s : IngestLog} (hp : s.isPoisoned = false) (hidle : s.groupCommitFlushing = false) (offset : Nat) :
    s.groupTurn offset = .done ∨ s.groupTurn offset = .lead s.pendingSyncOffset := by
  unfold groupTurn
  split
  · exact Or.inl rfl
  · rw [hp, hidle]
    exact Or.inr rfl

/-- The group commit of a caller that is alone keeps its record or takes it back. -/
theorem appendGroupCommit_spec {s : IngestLog} {L : Layout} {e : LogEntry} {hes : ∀ f ∈ framesFrom L.next [e], f.Fits}
    (h : s.Ready (L.extend [e] hes)) (hidle : s.groupCommitFlushing = false) {env : Env} (henv : env.Recoverable)
    {r : Except IngestLogError Nat × IngestLog} (hr : s.appendGroupCommit L.next L.active.bytes.length env = r) :
    r.2.config = s.config ∧ r.2.groupCommitFlushing = false ∧
      ((∃ err, r.1 = .error err ∧ r.2.Represents L) ∨ r.1 = .ok L.next ∧ r.2.Ready (L.extend [e] hes)) := by
  obtain ⟨f, hhold⟩ := h.holds
  obtain ⟨_, hsync⟩ := hhold.fileFsync env.fsync
  have hkeep := s.keeps_fileFsync env.fsync
  unfold appendGroupCommit at hr
  rw [henv.rollback] at hr
  rcases groupTurn_alone h.sound hidle L.next with hturn | hturn
  · rw [hturn] at hr
    subst hr
    exact ⟨rfl, hidle, Or.inr ⟨rfl, h⟩⟩
  · rw [hturn] at hr
    simp only at hr
    split at hr
    · rename_i u heq
      rw [heq] at hsync hkeep
      subst hr
      refine ⟨hkeep.config, rfl, Or.inr ⟨rfl, ?_⟩⟩
      exact h.of_sameCore (f := f) ⟨hkeep.config, hkeep.nextOffset, hkeep.currentSegmentStartOffset, hkeep.isPoisoned,
        hidle.symm⟩ hkeep.currentSegmentBytes ⟨hsync.contents, hsync.current, hsync.start, hsync.isOpen⟩
    · rename_i u heq
      rw [heq] at hsync hkeep
      subst hr
      have hnext : s.nextOffset = L.next + 1 := by rw [h.represents.next, Layout.next_extend]; rfl
      obtain ⟨hrep, hcfg, hfl⟩ := appendAbort_spec (s := u.groupSynced s.pendingSyncOffset false)
        ⟨hsync.contents, hsync.current, hsync.start, hsync.isOpen⟩ (hkeep.nextOffset.trans hnext)
        (hkeep.currentSegmentStartOffset.trans h.start)
      exact ⟨hcfg.trans hkeep.config, hfl, Or.inl ⟨_, rfl, hrep⟩⟩

/-- `append` adds one record or none. -/
theorem append_spec {s : IngestLog} {L : Layout} (h : s.Represents L) (hidle : s.groupCommitFlushing = false) {env : Env}
    (henv : env.Recoverable) (raw : RawInput) : AppendResult s L (appendEntry raw env) (s.append raw env) := by
  obtain ⟨hcfg, hfl, L0, hrot, hcase⟩ := appendBegin_spec h henv raw
  unfold append
  split
  · rename_i err t heq
    rw [heq] at hcfg hfl hcase
    rcases hcase with ⟨_, _, hrep⟩ | ⟨_, hok, _⟩
    · exact ⟨hcfg, hfl, L0, hrot, Or.inl ⟨err, rfl, hrep⟩⟩
    · cases hok
  · rename_i offset writePos t heq
    rw [heq] at hcfg hfl hcase
    rcases hcase with ⟨_, herr, _⟩ | ⟨hes, hok, hready, hpend⟩
    · cases herr
    · simp only [Except.ok.injEq, Prod.mk.injEq] at hok hcfg hfl hready hpend
      obtain ⟨rfl, rfl⟩ := hok
      rw [← hrot.next]
      split
      · obtain ⟨hcfg', hfl', hcase⟩ := appendGroupCommit_spec hready (hfl.trans hidle) henv rfl
        refine ⟨hcfg'.trans hcfg, hfl'.trans hidle.symm, L0, hrot, ?_⟩
        rcases hcase with herr | ⟨hok, hready'⟩
        · exact Or.inl herr
        · exact Or.inr ⟨hes, by rw [hok, hrot.next], hready'⟩
      · obtain ⟨f, hhold⟩ := hready.holds
        obtain ⟨hsync, hcore, hbytes⟩ := appendSync_spec hhold L0.next env
        split
        · rename_i u heq'
          rw [heq'] at hsync hcore hbytes
          exact ⟨hcore.config.trans hcfg, hcore.idle.trans hfl, L0, hrot, Or.inr ⟨hes, by rw [hrot.next],
            hready.of_sameCore hcore hbytes hsync⟩⟩
        · rename_i u heq'
          rw [heq'] at hsync hcore
          have hnext : t.nextOffset = L0.next + 1 := by rw [hready.represents.next, Layout.next_extend]; rfl
          obtain ⟨hrep, hcfg', hfl'⟩ := appendAbort_spec hsync (hcore.nextOffset.trans hnext) (hcore.start.trans hready.start)
          rw [henv.rollback]
          exact ⟨hcfg'.trans (hcore.config.trans hcfg), hfl'.trans (hcore.idle.trans hfl), L0, hrot,
            Or.inl ⟨_, rfl, hrep⟩⟩

/-! ## A batch -/

/-- The records `append_batch` logs, with the time of their frames. -/
def batchEntries (raws : List RawInput) (env : Env) : List LogEntry :=
  raws.map (fun raw => ⟨env.frameTs, batchRecord env.frameTs raw⟩)

theorem batchFrames_eq (raws : List RawInput) (env : Env) (offset : Nat) :
    batchFrames env.frameTs offset (raws.map (fun e => recordBytes (batchRecord env.frameTs e))) =
      framesFrom offset (batchEntries raws env) := by
  induction raws generalizing offset with
  | nil => rfl
  | cons raw raws ih =>
    simp only [List.map_cons, batchFrames, batchEntries, framesFrom, ih, LogEntry.frame]

theorem packBatch_eq_some {frames : List Frame} {b : Bytes} (h : packBatch frames = some b) :
    (∀ f ∈ frames, f.Fits) ∧ b = frames.flatMap Frame.bytes := by
  unfold packBatch at h
  split at h
  · rename_i hall
    cases h
    exact ⟨by simpa using hall, rfl⟩
  · cases h

/-- A rotation at an offset that its header cannot hold only closes the old segment. -/
theorem rotateIfFull_overflow {s : IngestLog} {L : Layout} (h : s.Represents L) (hp : s.isPoisoned = false) {env : Env}
    (henv : env.Recoverable) (size : Nat) (hnext : ¬L.next < 2 ^ 64) :
    (s.rotateIfFull size env) = (.ok (), s) ∨
      (∃ e, (s.rotateIfFull size env).1 = .error e) ∧
        ({ (s.rotateIfFull size env).2 with isPoisoned := true } : IngestLog).Represents L ∧
        (s.rotateIfFull size env).2.config = s.config ∧
        (s.rotateIfFull size env).2.groupCommitFlushing = s.groupCommitFlushing := by
  unfold rotateIfFull
  split
  · refine Or.inr ?_
    have hrot : s.rotateToNewSegment s.nextOffset env.segmentTs env.rotate =
        (.error .structError, s.closeSegment env.rotate) := by
      simp only [rotateToNewSegment, packSegmentHeader, h.next]
      rw [if_neg hnext]
    have hd := closeSegment_drained h hp env.rotate henv.flush
    have hkeep := s.closeSegment_keeps env.rotate
    rw [hrot]
    refine ⟨⟨_, rfl⟩, ⟨?_, ?_, ?_⟩, by rw [hkeep], by rw [hkeep]⟩
    · have hd' : ({ s.closeSegment env.rotate with isPoisoned := true } : IngestLog).Drained L := ⟨hd.files, hd.current⟩
      exact hd'.contents
    · show (s.closeSegment env.rotate).nextOffset = L.next
      rw [hkeep, ← h.next]
    · intro f hf
      have hsome : ∃ f0, s.current = some f0 := by
        cases hcur : s.current with
        | none =>
          have : (s.closeSegment env.rotate).current = none := by simp [closeSegment, hcur]
          rw [show (s.closeSegment env.rotate).current = some f from hf] at this
          cases this
        | some f0 => exact ⟨f0, rfl⟩
      obtain ⟨f0, hf0⟩ := hsome
      obtain ⟨_, hstart, hbytes, _⟩ := h.current f0 hf0
      refine ⟨(hd.current f hf).1, ?_, ?_, fun _ => ⟨rfl, (hd.current f hf).2⟩⟩
      · show (s.closeSegment env.rotate).currentSegmentStartOffset = _
        rw [hkeep, ← hstart]
      · show (s.closeSegment env.rotate).currentSegmentBytes = _
        rw [hkeep, ← hbytes]
  · exact Or.inl rfl

/-- The sync of a batch changes nothing that is held. -/
theorem batchSync_spec {s : IngestLog} {L : Layout} {f : OpenFile} {x : Bytes} (h : s.Holds L x f) (last : Nat) (env : Env) :
    (s.batchSync last env).2.Holds L x f ∧ s.SameCore (s.batchSync last env).2 ∧
      (s.batchSync last env).2.currentSegmentBytes = s.currentSegmentBytes := by
  unfold batchSync
  split
  · obtain ⟨_, hsync⟩ := h.fileFsync env.fsync
    have hkeep := s.keeps_fileFsync env.fsync
    split
    · rename_i heq
      rw [heq] at hsync hkeep
      exact ⟨hsync, hkeep.sameCore, hkeep.currentSegmentBytes⟩
    · rename_i heq
      rw [heq] at hsync hkeep
      exact ⟨⟨hsync.contents, hsync.current, hsync.start, hsync.isOpen⟩, ⟨hkeep.config, hkeep.nextOffset,
        hkeep.currentSegmentStartOffset, hkeep.isPoisoned, hkeep.groupCommitFlushing⟩, hkeep.currentSegmentBytes⟩
  · exact ⟨h, ⟨rfl, rfl, rfl, rfl, rfl⟩, rfl⟩

/-- What a call that may append a batch leaves: the layout with all its records, or with none of them. -/
structure BatchResult (s : IngestLog) (L : Layout) (es : List LogEntry) (r : Except IngestLogError (List Nat) × IngestLog) :
    Prop where
  config : r.2.config = s.config
  idle : r.2.groupCommitFlushing = s.groupCommitFlushing
  outcome : ∃ L0, L.Rotated L0 ∧ ((∃ err, r.1 = .error err ∧ r.2.Represents L0) ∨
    (es = [] ∧ r.1 = .ok [] ∧ r.2 = s) ∨
    ∃ hes, r.1 = .ok (List.range' L.next es.length) ∧ r.2.Ready (L0.extend es hes))

/-- The last stage of a batch keeps all its records or none. -/
theorem batchCommit_spec {s : IngestLog} {L : Layout} (h : s.Ready L) {env : Env} (henv : env.Recoverable)
    {es : List LogEntry} (hes : ∀ f ∈ framesFrom L.next es, f.Fits) {r : Except IngestLogError (List Nat) × IngestLog}
    (hr : s.batchCommit L.next es.length ((framesFrom L.next es).flatMap Frame.bytes) env = r) :
    r.2.config = s.config ∧ r.2.groupCommitFlushing = s.groupCommitFlushing ∧
      ((∃ err, r.1 = .error err ∧ r.2.Represents L) ∨
        r.1 = .ok (List.range' L.next es.length) ∧ r.2.Ready (L.extend es hes)) := by
  obtain ⟨f, hhold⟩ := h.holds
  -- both failures go back to the end of the layout
  have hback : ∀ (t : IngestLog) (x : Bytes) (f : OpenFile), t.Holds L x f → s.SameCore t →
      (t.rollback s.currentSegmentBytes env.rollback).config = s.config ∧
      (t.rollback s.currentSegmentBytes env.rollback).groupCommitFlushing = s.groupCommitFlushing ∧
      (t.rollback s.currentSegmentBytes env.rollback).Represents L := by
    intro t x f ht hcore
    rw [henv.rollback, h.bytes]
    obtain ⟨⟨f', hb⟩, hcore', hpos⟩ := rollback_spec ht
    have hcore := hcore.trans hcore'
    exact ⟨hcore.config, hcore.idle, hb.represents (hcore.nextOffset.trans h.represents.next) (hcore.start.trans h.start) hpos⟩
  obtain ⟨x, f', hwrite, hcore, hdone⟩ := writeFrames_spec hhold ((framesFrom L.next es).flatMap Frame.bytes) env
  unfold batchCommit at hr
  simp only at hr
  split at hr
  · rename_i t heq
    rw [heq] at hwrite hcore
    subst hr
    obtain ⟨hcfg, hidle, hrep⟩ := hback t x f' hwrite hcore
    exact ⟨hcfg, hidle, Or.inl ⟨_, rfl, hrep⟩⟩
  · rename_i t heq
    rw [heq] at hwrite hcore hdone
    obtain ⟨rfl, hpos⟩ := hdone rfl
    simp only at hwrite hcore hpos hr
    obtain ⟨hsync, hcore', hbytes⟩ := batchSync_spec (s := { t with
      bytesSinceFsync := t.bytesSinceFsync + ((framesFrom L.next es).flatMap Frame.bytes).length })
      ⟨hwrite.contents, hwrite.current, hwrite.start, hwrite.isOpen⟩ (L.next + es.length - 1) env
    have hcore : s.SameCore _ := hcore.trans (u := _)
      ⟨hcore'.config, hcore'.nextOffset, hcore'.start, hcore'.isPoisoned, hcore'.idle⟩
    split at hr
    · rename_i u heq'
      rw [heq'] at hsync hcore
      subst hr
      obtain ⟨hcfg, hidle, hrep⟩ := hback u _ f' hsync hcore
      exact ⟨hcfg, hidle, Or.inl ⟨_, rfl, hrep⟩⟩
    · rename_i u heq'
      rw [heq'] at hsync hcore hbytes
      subst hr
      have hext := Holds.extend hes hsync
      have hhold' : ({ u with nextOffset := L.next + es.length } : IngestLog).Holds (L.extend es hes) [] f' :=
        ⟨hext.contents, hext.current, hext.start, hext.isOpen⟩
      refine ⟨hcore.config, hcore.idle, Or.inr ⟨rfl, hhold'.represents (by rw [Layout.next_extend]) ?_ ?_, ?_, ?_⟩⟩
      · exact hcore.start.trans h.start
      · show u.currentSegmentBytes = (L.active.extend es).bytes.length
        rw [Segment.bytes_extend, List.length_append, ← h.bytes]
        exact hbytes.trans hpos
      · exact hcore.isPoisoned.trans h.sound
      · rw [hhold'.current]
        rfl

/-- `append_batch` adds all its records or none. -/
theorem appendBatch_spec {s : IngestLog} {L : Layout} (h : s.Represents L) {env : Env} (henv : env.Recoverable)
    (raws : List RawInput) : BatchResult s L (batchEntries raws env) (s.appendBatch raws env) := by
  unfold appendBatch
  split
  · rename_i hnil
    subst hnil
    exact ⟨rfl, rfl, L, Or.inl rfl, Or.inr (Or.inl ⟨rfl, rfl, rfl⟩)⟩
  · rename_i hne
    split
    · exact ⟨rfl, rfl, L, Or.inl rfl, Or.inl ⟨_, rfl, h⟩⟩
    · rename_i hp
      rw [Bool.not_eq_true] at hp
      simp only [batchFrames_eq, h.next]
      generalize ((raws.map (fun e => recordBytes (batchRecord env.frameTs e))).map
        (fun p => frameHeaderSize + p.length)).sum = total
      have hlen : (raws.map (fun e => recordBytes (batchRecord env.frameTs e))).length = (batchEntries raws env).length := by
        simp [batchEntries]
      rw [hlen]
      by_cases hnext : L.next < 2 ^ 64
      · obtain ⟨L0, hrot, hok, hready, hcfg, hidle⟩ := rotateIfFull_spec h hp henv total hnext
        split
        · rename_i heq
          rw [heq] at hok
          cases hok
        · rename_i t heq
          rw [heq] at hready hcfg hidle
          simp only at hready hcfg hidle
          split
          · refine ⟨hcfg, hidle, L0, hrot, Or.inl ⟨_, rfl, ⟨hready.represents.contents, hready.represents.next, ?_⟩⟩⟩
            intro f hf
            obtain ⟨h1, h2, h3, h4⟩ := hready.represents.current f hf
            exact ⟨h1, h2, h3, fun hc => ⟨rfl, (h4 hc).2⟩⟩
          · rename_i buffer hpack
            obtain ⟨hes, rfl⟩ := packBatch_eq_some hpack
            rw [← hrot.next] at hes ⊢
            obtain ⟨hcfg', hidle', hcase⟩ := batchCommit_spec hready henv hes rfl
            refine ⟨hcfg'.trans hcfg, hidle'.trans hidle, L0, hrot, ?_⟩
            rcases hcase with herr | ⟨hok, hready'⟩
            · exact Or.inl herr
            · exact Or.inr (Or.inr ⟨hes, by rw [hok, hrot.next], hready'⟩)
      · rcases rotateIfFull_overflow h hp henv total hnext with heq | ⟨⟨e, herr⟩, hrep, hcfg, hidle⟩
        · rw [heq]
          have hpack : packBatch (framesFrom L.next (batchEntries raws env)) = none := by
            cases raws with
            | nil => exact absurd rfl hne
            | cons raw raws =>
              unfold packBatch
              rw [if_neg]
              intro hall
              simp only [batchEntries, List.map_cons, framesFrom, List.all_cons, Bool.and_eq_true, decide_eq_true_eq] at hall
              exact hnext hall.1.1
          rw [hpack]
          refine ⟨rfl, rfl, L, Or.inl rfl, Or.inl ⟨_, rfl, ⟨h.contents, h.next, ?_⟩⟩⟩
          intro f hf
          obtain ⟨h1, h2, h3, h4⟩ := h.current f hf
          exact ⟨h1, h2, h3, fun hc => ⟨rfl, (h4 hc).2⟩⟩
        · split
          · rename_i heq
            rw [heq] at hrep hcfg hidle
            exact ⟨hcfg, hidle, L, Or.inl rfl, Or.inl ⟨_, rfl, hrep⟩⟩
          · rename_i heq
            rw [heq] at herr
            cases herr

end IngestLog

end Mdrap
