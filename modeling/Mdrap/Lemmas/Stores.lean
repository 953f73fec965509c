import Mdrap.Lemmas.Crash
import Mdrap.Lemmas.Placed

/-!
# Appending, whatever fails

A call that appends keeps all frames that are there. The frames it writes stand behind them; when it fails they are taken back,
or the log is poisoned and writes no more.
-/

namespace Mdrap

open Lib

/-- Records written behind some bytes stand in their places. -/
theorem standsIn_itemsFrom {g offset pos : Nat} {es : List LogEntry} {i : Item} (hi : i ∈ itemsFrom g offset pos es) {b : Bytes}
    (hb : b.length = pos) : i.StandsIn (b ++ (framesFrom offset es).flatMap Frame.bytes) := by
  induction es generalizing offset pos b with
  | nil => simp [itemsFrom] at hi
  | cons e es ih =>
    rw [framesFrom, List.flatMap_cons, ← List.append_assoc]
    have hlen : (b ++ (e.frame offset).bytes).length = pos + e.size := by
      rw [List.length_append, hb, LogEntry.length_frame_bytes]
    rcases List.mem_cons.mp hi with rfl | hi
    · refine EndsAt.append ?_ _
      have hself := EndsAt.self b (e.frame offset).bytes
      rw [← List.length_append, hlen] at hself
      exact hself
    · exact ih hi hlen

theorem offset_of_mem_itemsFrom {g offset pos : Nat} {es : List LogEntry} {i : Item} (hi : i ∈ itemsFrom g offset pos es) :
    offset ≤ i.offset ∧ i.offset < offset + es.length := by
  have hmem := List.mem_map_of_mem (f := Item.offset) hi
  rwa [map_offset_itemsFrom, List.mem_range'_1] at hmem

theorem endPos_le_of_mem_itemsFrom {g offset pos : Nat} {es : List LogEntry} {i : Item} (hi : i ∈ itemsFrom g offset pos es) :
    i.endPos ≤ pos + entriesSize es := by
  induction es generalizing offset pos with
  | nil => simp [itemsFrom] at hi
  | cons e es ih =>
    rw [entriesSize_cons]
    rcases List.mem_cons.mp hi with rfl | hi
    · simp only
      omega
    · have := ih hi
      omega

namespace IngestLog

variable {s t : IngestLog} {A : List Item}

/-- Only the files, the offsets and the poison matter. -/
theorem Stores.congr {u : IngestLog} (h : t.Stores A) (hdir : u.dir.segments = t.dir.segments) (hcur : u.current = t.current)
    (hnext : u.nextOffset = t.nextOffset) (hstart : u.currentSegmentStartOffset = t.currentSegmentStartOffset)
    (hbytes : u.currentSegmentBytes = t.currentSegmentBytes) (hp : u.isPoisoned = false → t.isPoisoned = false) : u.Stores A := by
  refine ⟨⟨fun i hi => (Item.Kept.of_files hdir hcur).intact (h.intact i hi), by rw [hnext]; exact h.below,
    by rw [hcur, hstart]; exact h.current, by rw [hstart, hbytes]; exact h.ends⟩, ?_, ?_⟩
  · intro hsound
    obtain ⟨f, file, hw, hlen⟩ := h.sound (hp hsound)
    exact ⟨f, file, ⟨hcur.trans hw.current, hw.isOpen, by rw [hdir]; exact hw.file⟩, hlen.trans hbytes.symm⟩
  · intro hsound
    rw [hstart, hnext]
    exact h.started (hp hsound)

/-- A poisoned log stores what it carries. -/
theorem Carries.poison {u : IngestLog} (h : t.Carries A) (hdir : u.dir.segments = t.dir.segments) (hcur : u.current = t.current)
    (hnext : u.nextOffset = t.nextOffset) (hstart : u.currentSegmentStartOffset = t.currentSegmentStartOffset)
    (hbytes : u.currentSegmentBytes = t.currentSegmentBytes) (hp : u.isPoisoned = true) : u.Stores A := by
  refine ⟨⟨fun i hi => (Item.Kept.of_files hdir hcur).intact (h.intact i hi), by rw [hnext]; exact h.below,
    by rw [hcur, hstart]; exact h.current, by rw [hstart, hbytes]; exact h.ends⟩, by simp [hp], by simp [hp]⟩

/-- Fewer records are stored as well. -/
theorem Stores.subset {B : List Item} (h : s.Stores A) (hB : ∀ i ∈ B, i ∈ A) : s.Stores B :=
  ⟨⟨fun i hi => h.intact i (hB i hi), fun i hi => h.below i (hB i hi), h.current, fun i hi => h.ends i (hB i hi)⟩,
    h.sound, h.started⟩

/-- An operation that changes no byte of the open file leaves what is stored. -/
theorem Stores.of_sync {f : OpenFile} {file file' : SegFile} (h : s.Stores A) (hw : s.Writes f file) (hw' : t.Writes f file')
    (hwritten : file'.written = file.written) (hkept : ∀ i ∈ A, i.Kept s t) (hcore : s.SameCore t)
    (hbytes : t.currentSegmentBytes = s.currentSegmentBytes) : t.Stores A := by
  refine ⟨h.toCarries.of_kept hkept hcore hw'.current (h.writes_start hw) (by rw [hbytes]; exact h.ends), ?_, ?_⟩
  · intro hp
    obtain ⟨f0, file0, hw0, hlen⟩ := h.sound (hcore.isPoisoned.symm.trans hp)
    have hf0 : some f = some f0 := hw.current.symm.trans hw0.current
    rw [Option.some.injEq] at hf0
    subst hf0
    have hfile0 : some file = some file0 := hw.file.symm.trans hw0.file
    rw [Option.some.injEq] at hfile0
    subst hfile0
    exact ⟨f, file', hw', by rw [hwritten, hlen, hbytes]⟩
  · intro hp
    rw [hcore.start, hcore.nextOffset]
    exact h.started (hcore.isPoisoned.symm.trans hp)

/-- A flush moves bytes within the open file. -/
theorem Stores.fileFlush (h : s.Stores A) (r : IoResult) : (s.fileFlush r).2.Stores A := by
  have hkeeps := s.keeps_fileFlush r
  obtain ⟨f, hcur, hstart⟩ := h.current
  obtain ⟨f', hf', hstart'⟩ := current_fileFlush hcur r
  refine ⟨h.toCarries.of_kept (fun i _ => kept_fileFlush i s r) hkeeps.sameCore hf' (hstart'.trans hstart)
    (by rw [hkeeps.currentSegmentBytes]; exact h.ends), ?_, ?_⟩
  · intro hp
    obtain ⟨f0, file0, hw, hlen⟩ := h.sound (hkeeps.isPoisoned.symm.trans hp)
    refine ⟨_, _, (hw.fileFlush r).2, ?_⟩
    rw [hkeeps.currentSegmentBytes, ← hlen, ← List.length_append, ← List.length_append, List.append_assoc,
      List.take_append_drop]
  · intro hp
    rw [hkeeps.currentSegmentStartOffset, hkeeps.nextOffset]
    exact h.started (hkeeps.isPoisoned.symm.trans hp)

/-- An fsync changes no byte. -/
theorem Stores.fileFsync (h : s.Stores A) (ok : Bool) : (s.fileFsync ok).2.Stores A := by
  have hkeeps := s.keeps_fileFsync ok
  obtain ⟨f, hcur, hstart⟩ := h.current
  refine ⟨h.toCarries.of_kept (fun i _ => kept_fileFsync i s ok) hkeeps.sameCore ((current_fileFsync s ok).trans hcur) hstart
    (by rw [hkeeps.currentSegmentBytes]; exact h.ends), ?_, ?_⟩
  · intro hp
    obtain ⟨f0, file0, hw, hlen⟩ := h.sound (hkeeps.isPoisoned.symm.trans hp)
    refine ⟨_, _, (hw.fileFsync ok).2, ?_⟩
    rw [hkeeps.currentSegmentBytes, ← hlen]
    split <;> rfl
  · intro hp
    rw [hkeeps.currentSegmentStartOffset, hkeeps.nextOffset]
    exact h.started (hkeeps.isPoisoned.symm.trans hp)

@[simp] theorem syncedOffset_writeFrames (s : IngestLog) (d : Bytes) (env : Env) :
    (s.writeFrames d env).2.syncedOffset = s.syncedOffset := by
  have hwrite := (s.keeps_fileWrite d env.write).syncedOffset
  unfold writeFrames
  split
  · rename_i heq
    rw [heq] at hwrite
    exact hwrite
  · rename_i t heq
    rw [heq] at hwrite
    simp only [flushIfDue]
    split
    · have hflush := (keeps_fileFlush { t with
          currentSegmentBytes := t.currentSegmentBytes + d.length
          bytesSinceFlush := t.bytesSinceFlush + d.length } env.flush).syncedOffset
      split
      · rename_i heq'
        rw [heq'] at hflush
        exact hflush.trans hwrite
      · rename_i heq'
        rw [heq'] at hflush
        exact hflush.trans hwrite
    · exact hwrite

@[simp] theorem syncedOffset_rollback (s : IngestLog) (pos : Nat) (r : IoResult) :
    (s.rollback pos r).syncedOffset = s.syncedOffset := by
  have htrunc := (s.keeps_fileTruncate pos r).syncedOffset
  unfold rollback
  split
  · rename_i heq
    rw [heq] at htrunc
    exact htrunc
  · rename_i heq
    rw [heq] at htrunc
    exact htrunc

/-- Frames written at the end of the current segment. -/
theorem Stores.writeFrames (h : s.Stores A) (hp : s.isPoisoned = false) {es : List LogEntry} {env : Env}
    (ht : s.writeFrames ((framesFrom s.nextOffset es).flatMap Frame.bytes) env = (true, t)) :
    ({ t with nextOffset := s.nextOffset + es.length } : IngestLog).Stores
        (A ++ itemsFrom s.currentSegmentStartOffset s.nextOffset s.currentSegmentBytes es) ∧
      (∀ i ∈ A, i.Kept s t) ∧ s.SameCore t ∧ t.currentSegmentBytes = s.currentSegmentBytes + entriesSize es ∧
      ∃ f file, t.Writes f file ∧ f.start = s.currentSegmentStartOffset ∧
        (s.config.fsyncPolicy ≠ .never → f.buffer = []) := by
  obtain ⟨f, file, hw, hlen⟩ := h.sound hp
  have hstart := h.writes_start hw
  obtain ⟨hkept, hcore, _, f', file', hw', hstart', hdone⟩ := hw.writeFrames ((framesFrom s.nextOffset es).flatMap Frame.bytes) env
  rw [ht] at hkept hcore hw' hdone
  obtain ⟨hcontent, hbytes, hbuf⟩ := hdone rfl
  simp only at hkept hcore hw' hbytes
  rw [length_flatMap_framesFrom] at hbytes
  refine ⟨⟨⟨?_, ?_, ⟨f', hw'.current, ?_⟩, ?_⟩, ?_, ?_⟩, fun i _ => hkept i, hcore, hbytes, f', file', hw',
    hstart'.trans hstart, hbuf⟩
  · intro i hi
    rcases List.mem_append.mp hi with hi | hi
    · exact ((hkept i).trans (.of_files rfl rfl)).intact (h.intact i hi)
    · have hseg : i.segment = f'.start := by rw [segment_of_mem_itemsFrom hi, hstart', hstart]
      refine ⟨file', by rw [hseg]; exact hw'.file, ?_⟩
      have hpend : ({ t with nextOffset := s.nextOffset + es.length } : IngestLog).pending f'.start = f'.buffer :=
        Writes.pending_start ⟨hw'.current, hw'.isOpen, hw'.file⟩
      rw [hseg, hpend, hcontent]
      exact standsIn_itemsFrom hi (by rw [List.length_append, hlen])
  · intro i hi
    show i.segment ≤ i.offset ∧ i.offset < s.nextOffset + es.length
    rcases List.mem_append.mp hi with hi | hi
    · have := h.below i hi
      omega
    · have hoff := offset_of_mem_itemsFrom hi
      rw [segment_of_mem_itemsFrom hi]
      have := h.started hp
      omega
  · show f'.start = t.currentSegmentStartOffset
    rw [hcore.start, hstart', hstart]
  · show ∀ i ∈ A ++ _, i.segment = t.currentSegmentStartOffset → i.endPos ≤ t.currentSegmentBytes
    intro i hi hseg
    rw [hcore.start] at hseg
    rw [hbytes]
    rcases List.mem_append.mp hi with hi | hi
    · have := h.ends i hi hseg
      omega
    · exact endPos_le_of_mem_itemsFrom hi
  · intro _
    refine ⟨f', file', ⟨hw'.current, hw'.isOpen, hw'.file⟩, ?_⟩
    show file'.written.length + f'.buffer.length = t.currentSegmentBytes
    rw [← List.length_append, hcontent, hbytes, List.length_append, List.length_append, length_flatMap_framesFrom, hlen]
  · intro _
    show t.currentSegmentStartOffset ≤ s.nextOffset + es.length
    rw [hcore.start]
    have := h.started hp
    omega

/-- A write that fails is taken back. -/
theorem Stores.writeFrames_failed (h : s.Stores A) (hp : s.isPoisoned = false) {d : Bytes} {env : Env}
    (ht : s.writeFrames d env = (false, t)) (r : IoResult) :
    (t.rollback s.currentSegmentBytes r).Stores A ∧ (∀ i ∈ A, i.Kept s (t.rollback s.currentSegmentBytes r)) ∧
      (t.rollback s.currentSegmentBytes r).config = s.config ∧
      (t.rollback s.currentSegmentBytes r).nextOffset = s.nextOffset ∧
      (t.rollback s.currentSegmentBytes r).currentSegmentStartOffset = s.currentSegmentStartOffset ∧
      (t.rollback s.currentSegmentBytes r).groupCommitFlushing = s.groupCommitFlushing ∧
      ((t.rollback s.currentSegmentBytes r).isPoisoned = false →
        ∀ f, (t.rollback s.currentSegmentBytes r).current = some f → f.buffer = []) := by
  obtain ⟨f, file, hw, _⟩ := h.sound hp
  obtain ⟨hkept, hcore, hle, f', file', hw', hstart', _⟩ := hw.writeFrames d env
  rw [ht] at hkept hcore hle hw'
  have hcarries : t.Carries A := by
    refine h.toCarries.of_kept (fun i _ => hkept i) hcore hw'.current (hstart'.trans (h.writes_start hw)) ?_
    intro i hi hseg
    exact Nat.le_trans (h.ends i hi hseg) hle
  obtain ⟨hstores, hkept', hcfg, hnext, hstart, hidle, hdrained⟩ :=
    hcarries.rollback (by rw [hcore.start]; exact h.ends) (fun _ => ⟨f', file', hw'⟩)
      (fun _ => by rw [hcore.start, hcore.nextOffset]; exact h.started hp) r
  exact ⟨hstores, fun i hi => (hkept i).trans (hkept' i hi), hcfg.trans hcore.config, hnext.trans hcore.nextOffset,
    hstart.trans hcore.start, hidle.trans hcore.idle, hdrained⟩

/-! ## One record -/

/-- What a step that adds no record leaves; `P` stands for the condition on its rotation. -/
structure Unharmed (s : IngestLog) (A : List Item) (P : Prop) (t : IngestLog) : Prop where
  stores : t.Stores A
  kept : ∀ i ∈ A, i.Kept s t
  isSealed : P → s.Sealed A → t.Sealed A
  config : t.config = s.config
  next : t.nextOffset = s.nextOffset
  synced : t.syncedOffset = s.syncedOffset
  idle : t.groupCommitFlushing = s.groupCommitFlushing
  drained : (∀ f, s.current = some f → f.buffer = []) → t.isPoisoned = false → ∀ f, t.current = some f → f.buffer = []

theorem Unharmed.refl (h : s.Stores A) (P : Prop) : s.Unharmed A P s :=
  ⟨h, fun i _ => .refl i s, fun _ hs => hs, rfl, rfl, rfl, rfl, fun hnil _ => hnil⟩

/-- The log after the start of `append`: the record stands at the end of the current segment, behind a position. -/
structure Begun (s : IngestLog) (A : List Item) (P : Prop) (e : LogEntry) (writePos : Nat) (t : IngestLog) : Prop where
  stores : t.Stores (A ++ [⟨s.nextOffset, e, t.currentSegmentStartOffset, t.currentSegmentBytes⟩])
  kept : ∀ i ∈ A, i.Kept s t
  isSealed : P → s.Sealed A → t.Sealed A
  config : t.config = s.config
  next : t.nextOffset = s.nextOffset + 1
  synced : t.syncedOffset = s.syncedOffset
  idle : t.groupCommitFlushing = s.groupCommitFlushing
  sound : t.isPoisoned = false
  pending : t.pendingSyncOffset = s.nextOffset
  bytes : t.currentSegmentBytes = writePos + e.size
  before : ∀ i ∈ A, i.segment = t.currentSegmentStartOffset → i.endPos ≤ writePos
  started : t.currentSegmentStartOffset ≤ s.nextOffset
  drained : s.config.fsyncPolicy ≠ .never → ∀ f, t.current = some f → f.buffer = []

/-- The start of `append` writes the record, or leaves what is stored. -/
theorem Stores.appendBegin (h : s.Stores A) {raw : RawInput} {env : Env} (hdrains : s.Drains (appendEntry raw env).size env)
    {r : Except IngestLogError (Nat × Nat)} (ht : s.appendBegin raw env = (r, t)) :
    ((∃ e, r = .error e) ∧ s.Unharmed A (s.SealsDurably (appendEntry raw env).size env) t) ∨
      ∃ writePos, r = .ok (s.nextOffset, writePos) ∧
        s.Begun A (s.SealsDurably (appendEntry raw env).size env) (appendEntry raw env) writePos t := by
  unfold IngestLog.appendBegin at ht
  split at ht
  · cases ht
    exact Or.inl ⟨⟨_, rfl⟩, .refl h _⟩
  · rename_i hp
    rw [Bool.not_eq_true] at hp
    simp only at ht
    split at ht
    · cases ht
      exact Or.inl ⟨⟨_, rfl⟩, .refl h _⟩
    · rename_i hdr hpack
      obtain ⟨hfits, hbytes⟩ := packFrameHeader_eq_some hpack
      rcases hrot : s.rotateIfFull (frameHeaderSize + (recordBytes (appendRecord env.stampTs raw)).length) env with ⟨r', u⟩
      rw [hrot] at ht
      obtain ⟨hcarries, hkept, hcfg, hnext, hsynced, hidle, hok, herr, hsealed⟩ := h.rotateIfFull hp hdrains hrot
      cases r' with
      | error e =>
        cases ht
        have hpoison : t.isPoisoned = true := herr (by simp) hfits.1
        exact Or.inl ⟨⟨_, rfl⟩, hcarries.poison rfl rfl rfl rfl rfl hpoison, hkept, hsealed, hcfg, hnext, hsynced, hidle,
          by simp [hpoison]⟩
      | ok _ =>
        obtain ⟨hp', hstores, _⟩ := hok rfl
        simp only at ht
        have hframe : hdr ++ recordBytes (appendRecord env.stampTs raw) =
            (framesFrom u.nextOffset [appendEntry raw env]).flatMap Frame.bytes := by
          rw [hbytes, hnext]
          simp [framesFrom, appendEntry, LogEntry.frame]
        rcases hwrite : u.writeFrames (hdr ++ recordBytes (appendRecord env.stampTs raw)) env with ⟨b, v⟩
        have hsync := u.syncedOffset_writeFrames (hdr ++ recordBytes (appendRecord env.stampTs raw)) env
        rw [hwrite] at ht hsync
        cases b with
        | false =>
          cases ht
          obtain ⟨hstores', hkept', hcfg', hnext', hstart', hidle', hdrained⟩ := hstores.writeFrames_failed hp' hwrite env.rollback
          refine Or.inl ⟨⟨_, rfl⟩, hstores', fun i hi => (hkept i hi).trans (hkept' i hi), ?_, hcfg'.trans hcfg,
            hnext'.trans hnext, ?_, hidle'.trans hidle, fun _ => hdrained⟩
          · intro hseal hs
            exact (hsealed hseal hs).of_kept hkept' hstart'
          · rw [syncedOffset_rollback, hsync, hsynced]
        | true =>
          cases ht
          rw [hframe] at hwrite
          obtain ⟨hstores', hkept', hcore, hcsb, f, file, hw, _, hbuf⟩ := hstores.writeFrames hp' hwrite
          simp only [entriesSize_cons, entriesSize_nil, Nat.add_zero] at hcsb
          refine Or.inr ⟨u.currentSegmentBytes, rfl, ?_, fun i hi => ((hkept i hi).trans (hkept' i hi)).trans (.of_files rfl rfl),
            ?_, hcore.config.trans hcfg, rfl, hsync.trans hsynced, hcore.idle.trans hidle, hcore.isPoisoned.trans hp', rfl,
            hcsb, ?_, ?_, ?_⟩
          · have hitem : itemsFrom u.currentSegmentStartOffset u.nextOffset u.currentSegmentBytes [appendEntry raw env] =
                [⟨s.nextOffset, appendEntry raw env, v.currentSegmentStartOffset, v.currentSegmentBytes⟩] := by
              rw [hcsb, hcore.start, hnext]
              rfl
            rw [hitem] at hstores'
            exact hstores'.congr rfl rfl (by rw [hnext]; rfl) rfl rfl id
          · intro hseal hs
            exact (hsealed hseal hs).of_kept (fun i hi => (hkept' i hi).trans (.of_files rfl rfl)) hcore.start
          · intro i hi hseg
            exact hstores.ends i hi (hseg.trans hcore.start)
          · show v.currentSegmentStartOffset ≤ s.nextOffset
            rw [hcore.start, ← hnext]
            exact hstores.started hp'
          · intro hpolicy f' hf'
            have hf'' : some f = some f' := hw.current.symm.trans hf'
            rw [Option.some.injEq] at hf''
            rw [← hf'']
            exact hbuf (by rw [hcfg]; exact hpolicy)

/-- The failure branch of `append` takes back what stands behind the write position, and no frame before it. -/
theorem Stores.appendAbort {offset writePos : Nat} (h : t.Stores A)
    (hbefore : ∀ i ∈ A, i.segment = t.currentSegmentStartOffset → i.endPos ≤ writePos) (hoff : ∀ i ∈ A, i.offset ≠ offset)
    (hstarted : t.isPoisoned = false → t.currentSegmentStartOffset ≤ offset) (r : IoResult) :
    (t.appendAbort offset writePos r).Stores A ∧ (∀ i ∈ A, i.Kept t (t.appendAbort offset writePos r)) ∧
      (t.appendAbort offset writePos r).config = t.config ∧
      (t.appendAbort offset writePos r).nextOffset = (if t.nextOffset = offset + 1 then offset else t.nextOffset) ∧
      (t.appendAbort offset writePos r).currentSegmentStartOffset = t.currentSegmentStartOffset ∧
      (t.appendAbort offset writePos r).groupCommitFlushing = t.groupCommitFlushing ∧
      (t.appendAbort offset writePos r).syncedOffset = t.syncedOffset ∧
      ((t.appendAbort offset writePos r).isPoisoned = false →
        ∀ f, (t.appendAbort offset writePos r).current = some f → f.buffer = []) := by
  have hcarries : ({ t with nextOffset := if t.nextOffset = offset + 1 then offset else t.nextOffset } : IngestLog).Carries A := by
    refine ⟨fun i hi => (Item.Kept.of_files (s := t) rfl rfl).intact (h.intact i hi), ?_, h.current, h.ends⟩
    intro i hi
    obtain ⟨hseg, hlt⟩ := h.below i hi
    have hne := hoff i hi
    refine ⟨hseg, ?_⟩
    show i.offset < if t.nextOffset = offset + 1 then offset else t.nextOffset
    split
    · omega
    · exact hlt
  obtain ⟨hstores, hkept, hcfg, hnext, hstart, hidle, hdrained⟩ := hcarries.rollback hbefore
    (fun hp => by
      obtain ⟨f, file, hw, _⟩ := h.sound hp
      exact ⟨f, file, hw.current, hw.isOpen, hw.file⟩)
    (fun hp => by
      show t.currentSegmentStartOffset ≤ if t.nextOffset = offset + 1 then offset else t.nextOffset
      split
      · exact hstarted hp
      · exact h.started hp) r
  refine ⟨hstores, ?_, hcfg, hnext, hstart, hidle, syncedOffset_rollback _ _ _, hdrained⟩
  intro i hi
  refine Item.Kept.trans ?_ (hkept i hi)
  exact .of_files rfl rfl

/-! ## A batch -/

/-- The log after a batch that was written: its records stand at the end of the current segment. -/
structure Batched (s : IngestLog) (A : List Item) (P : Prop) (es : List LogEntry) (t : IngestLog) : Prop where
  stores : t.Stores (A ++ itemsFrom t.currentSegmentStartOffset s.nextOffset (t.currentSegmentBytes - entriesSize es) es)
  kept : ∀ i ∈ A, i.Kept s t
  isSealed : P → s.Sealed A → t.Sealed A
  config : t.config = s.config
  next : t.nextOffset = s.nextOffset + es.length
  idle : t.groupCommitFlushing = s.groupCommitFlushing
  sound : t.isPoisoned = false
  started : t.currentSegmentStartOffset ≤ s.nextOffset
  bytes : entriesSize es ≤ t.currentSegmentBytes
  before : ∀ i ∈ A, i.segment = t.currentSegmentStartOffset → i.endPos ≤ t.currentSegmentBytes - entriesSize es
  synced : t.syncedOffset = s.syncedOffset ∨
    (t.syncedOffset = (s.nextOffset + es.length - 1 : Nat) ∧
      ∀ i ∈ A ++ itemsFrom t.currentSegmentStartOffset s.nextOffset (t.currentSegmentBytes - entriesSize es) es,
        i.segment = t.currentSegmentStartOffset → i.Durable t)
  drained : s.config.fsyncPolicy ≠ .never → ∀ f, t.current = some f → f.buffer = []

/-- The fsync of a batch, where one is due. -/
theorem batchSync_places {f : OpenFile} {file : SegFile} (hw : s.Writes f file) (last : Nat) (env : Env) {b : Bool}
    (ht : s.batchSync last env = (b, t)) :
    (∀ i : Item, i.Kept s t) ∧ s.SameCore t ∧ t.currentSegmentBytes = s.currentSegmentBytes ∧
      (∃ file', t.Writes f file' ∧ file'.written = file.written) ∧
      (b = false → t.syncedOffset = s.syncedOffset) ∧
      (b = true → t.syncedOffset = s.syncedOffset ∨ (t.syncedOffset = last ∧ s.config.fsyncPolicy ≠ .never ∧
        (f.buffer = [] → ∀ i : Item, i.Intact s → i.segment = f.start → i.Durable t))) := by
  unfold batchSync at ht
  split at ht
  · rename_i hdue
    have hpolicy : s.config.fsyncPolicy ≠ .never := by
      intro hnever
      simp [batchSyncDue, hnever] at hdue
    have hkept := fun i : Item => kept_fileFsync i s env.fsync
    have hkeeps := s.keeps_fileFsync env.fsync
    obtain ⟨hok, hw'⟩ := hw.fileFsync env.fsync
    split at ht
    · rename_i u heq
      cases ht
      rw [heq] at hkept hkeeps hw'
      refine ⟨hkept, hkeeps.sameCore, hkeeps.currentSegmentBytes, ⟨_, hw', ?_⟩, fun _ => hkeeps.syncedOffset, by simp⟩
      split <;> rfl
    · rename_i u heq
      cases ht
      have htrue : env.fsync = true := by
        rw [heq] at hok
        exact hok.symm
      rw [htrue] at heq
      rw [htrue, heq] at hkept hkeeps hw'
      refine ⟨fun i => (hkept i).trans (.of_files rfl rfl), ⟨hkeeps.config, hkeeps.nextOffset, hkeeps.currentSegmentStartOffset,
        hkeeps.isPoisoned, hkeeps.groupCommitFlushing⟩, hkeeps.currentSegmentBytes,
        ⟨_, ⟨hw'.current, hw'.isOpen, hw'.file⟩, rfl⟩, by simp, ?_⟩
      intro _
      refine Or.inr ⟨rfl, hpolicy, ?_⟩
      intro hbuf i hintact hseg
      obtain ⟨file', hfile', hstands⟩ := durable_of_fsync hw.current hw.isOpen hbuf heq hintact hseg
      exact ⟨file', hfile', hstands⟩
  · cases ht
    exact ⟨fun i => .refl i _, ⟨rfl, rfl, rfl, rfl, rfl⟩, rfl, ⟨file, hw, rfl⟩, by simp, fun _ => Or.inl rfl⟩

/-- The last stage of `append_batch` writes all its records, or leaves what is stored. -/
theorem Stores.batchCommit (h : s.Stores A) (hp : s.isPoisoned = false) {es : List LogEntry} {env : Env}
    {r : Except IngestLogError (List Nat)}
    (ht : s.batchCommit s.nextOffset es.length ((framesFrom s.nextOffset es).flatMap Frame.bytes) env = (r, t)) :
    ((∃ e, r = .error e) ∧ s.Unharmed A True t) ∨
      (r = .ok (List.range' s.nextOffset es.length) ∧ s.Batched A True es t) := by
  unfold IngestLog.batchCommit at ht
  simp only at ht
  rcases hwrite : s.writeFrames ((framesFrom s.nextOffset es).flatMap Frame.bytes) env with ⟨b, u⟩
  have hsync := s.syncedOffset_writeFrames ((framesFrom s.nextOffset es).flatMap Frame.bytes) env
  rw [hwrite] at ht hsync
  cases b with
  | false =>
    cases ht
    obtain ⟨hstores, hkept, hcfg, hnext, hstart, hidle, hdrained⟩ := h.writeFrames_failed hp hwrite env.rollback
    exact Or.inl ⟨⟨_, rfl⟩, hstores, hkept, fun _ hs => hs.of_kept hkept hstart, hcfg, hnext,
      (syncedOffset_rollback _ _ _).trans hsync, hidle, fun _ => hdrained⟩
  | true =>
    simp only at ht
    obtain ⟨hstores, hkept, hcore, hcsb, f, file, hw, hfstart, hbuf⟩ := h.writeFrames hp hwrite
    rcases hbatch : ({ u with
        bytesSinceFsync := u.bytesSinceFsync + ((framesFrom s.nextOffset es).flatMap Frame.bytes).length } : IngestLog).batchSync
        (s.nextOffset + es.length - 1) env with ⟨b', v⟩
    have hcounted : ({ u with
        bytesSinceFsync := u.bytesSinceFsync + ((framesFrom s.nextOffset es).flatMap Frame.bytes).length } : IngestLog).Writes
        f file := ⟨hw.current, hw.isOpen, hw.file⟩
    obtain ⟨hcounts, hcore', hcsb', ⟨file', hw', hwritten⟩, hfailed, hsynced⟩ := batchSync_places hcounted _ _ hbatch
    have hkept' : ∀ i : Item, i.Kept u v := by
      intro i
      refine Item.Kept.trans ?_ (hcounts i)
      exact .of_files rfl rfl
    have hstart : v.currentSegmentStartOffset = s.currentSegmentStartOffset := hcore'.start.trans hcore.start
    rw [hbatch] at ht
    cases b' with
    | false =>
      cases ht
      have hcarries : v.Carries A := by
        refine h.toCarries.of_kept (fun i hi => (hkept i hi).trans (hkept' i))
          ⟨hcore'.config.trans hcore.config, hcore'.nextOffset.trans hcore.nextOffset, hstart,
            hcore'.isPoisoned.trans hcore.isPoisoned, hcore'.idle.trans hcore.idle⟩ hw'.current hfstart ?_
        intro i hi hseg
        have hle := h.ends i hi hseg
        have hbytes : v.currentSegmentBytes = u.currentSegmentBytes := hcsb'
        omega
      have hnext' : v.nextOffset = s.nextOffset := hcore'.nextOffset.trans hcore.nextOffset
      have hends : ∀ i ∈ A, i.segment = v.currentSegmentStartOffset → i.endPos ≤ s.currentSegmentBytes := by
        rw [hstart]
        exact h.ends
      obtain ⟨hstores', hkept'', hcfg'', hnext'', hstart'', hidle'', hdrained⟩ := hcarries.rollback hends
        (fun _ => ⟨f, file', hw'⟩) (fun _ => by rw [hstart, hnext']; exact h.started hp)
        env.rollback
      have hall : ∀ i ∈ A, i.Kept s (v.rollback s.currentSegmentBytes env.rollback) := fun i hi =>
        ((hkept i hi).trans (hkept' i)).trans (hkept'' i hi)
      refine Or.inl ⟨⟨_, rfl⟩, hstores', hall, fun _ hs => hs.of_kept hall (hstart''.trans hstart),
        hcfg''.trans (hcore'.config.trans hcore.config), hnext''.trans hnext', ?_, hidle''.trans (hcore'.idle.trans hcore.idle), fun _ => hdrained⟩
      rw [syncedOffset_rollback, hfailed rfl]
      exact hsync
    | true =>
      cases ht
      have hall : ∀ i ∈ A, i.Kept s { v with nextOffset := s.nextOffset + es.length } := fun i hi =>
        ((hkept i hi).trans (hkept' i)).trans (.of_files rfl rfl)
      have hbytes : v.currentSegmentBytes = s.currentSegmentBytes + entriesSize es := hcsb'.trans hcsb
      have hitems : itemsFrom v.currentSegmentStartOffset s.nextOffset (v.currentSegmentBytes - entriesSize es) es =
          itemsFrom s.currentSegmentStartOffset s.nextOffset s.currentSegmentBytes es := by
        rw [hstart, hbytes, Nat.add_sub_cancel]
      -- the sync changes no byte, so the records stand where the write put them
      have hstores' : ({ v with nextOffset := s.nextOffset + es.length } : IngestLog).Stores
          (A ++ itemsFrom s.currentSegmentStartOffset s.nextOffset s.currentSegmentBytes es) := by
        have hwu : ({ u with nextOffset := s.nextOffset + es.length } : IngestLog).Writes f file :=
          ⟨hw.current, hw.isOpen, hw.file⟩
        refine hstores.of_sync hwu ⟨hw'.current, hw'.isOpen, hw'.file⟩ hwritten ?_
          ⟨hcore'.config, rfl, hcore'.start, hcore'.isPoisoned, hcore'.idle⟩ hcsb'
        intro i _
        exact Item.Kept.trans (t := u) (.of_files rfl rfl) ((hkept' i).trans (.of_files rfl rfl))
      refine Or.inr ⟨rfl, by rw [hitems]; exact hstores', hall, fun _ hs => hs.of_kept hall hstart,
        hcore'.config.trans hcore.config, rfl, hcore'.idle.trans hcore.idle, hcore'.isPoisoned.trans (hcore.isPoisoned.trans hp),
        by rw [hstart]; exact h.started hp, ?_, ?_, ?_, ?_⟩
      · show entriesSize es ≤ v.currentSegmentBytes
        omega
      · intro i hi hseg
        show i.endPos ≤ v.currentSegmentBytes - entriesSize es
        rw [hbytes, Nat.add_sub_cancel]
        exact h.ends i hi (hseg.trans hstart)
      · rcases hsynced rfl with hsame | ⟨hlast, hpolicy, hdurable⟩
        · exact Or.inl (hsame.trans hsync)
        · refine Or.inr ⟨hlast, ?_⟩
          intro i hi hseg
          rw [hitems] at hi
          have hbuf' : f.buffer = [] := hbuf (by rw [← hcore.config]; exact hpolicy)
          obtain ⟨file0, hfile0, hstands⟩ := hdurable hbuf' i
            ((Item.Kept.of_files (s := { u with nextOffset := s.nextOffset + es.length }) rfl rfl).intact (hstores.intact i hi))
            (hseg.trans (hstart.trans hfstart.symm))
          exact ⟨file0, hfile0, hstands⟩
      · intro hpolicy f0 hf0
        have hf0' : some f = some f0 := hw'.current.symm.trans hf0
        rw [Option.some.injEq] at hf0'
        rw [← hf0']
        exact hbuf hpolicy

/-- `append_batch` writes all its records, or leaves what is stored. -/
theorem Stores.appendBatch (h : s.Stores A) {raws : List RawInput} {env : Env}
    (hdrains : s.Drains (entriesSize (batchEntries raws env)) env) {r : Except IngestLogError (List Nat)}
    (ht : s.appendBatch raws env = (r, t)) :
    ((∃ e, r = .error e) ∧ s.Unharmed A (s.SealsDurably (entriesSize (batchEntries raws env)) env) t) ∨
      (raws = [] ∧ r = .ok [] ∧ t = s) ∨
      (raws ≠ [] ∧ r = .ok (List.range' s.nextOffset (batchEntries raws env).length) ∧
        s.Batched A (s.SealsDurably (entriesSize (batchEntries raws env)) env) (batchEntries raws env) t) := by
  unfold IngestLog.appendBatch at ht
  split at ht
  · rename_i hnil
    cases ht
    exact Or.inr (Or.inl ⟨hnil, rfl, rfl⟩)
  · rename_i hne
    split at ht
    · cases ht
      exact Or.inl ⟨⟨_, rfl⟩, .refl h _⟩
    · rename_i hp
      rw [Bool.not_eq_true] at hp
      have htotal : ((raws.map (fun e => recordBytes (batchRecord env.frameTs e))).map
          (fun p => frameHeaderSize + p.length)).sum = entriesSize (batchEntries raws env) := by
        simp only [entriesSize, batchEntries, List.map_map]
        rfl
      have hcount : (raws.map (fun e => recordBytes (batchRecord env.frameTs e))).length = (batchEntries raws env).length := by
        simp [batchEntries]
      simp only [batchFrames_eq, htotal, hcount] at ht
      rcases hrot : s.rotateIfFull (entriesSize (batchEntries raws env)) env with ⟨r', u⟩
      rw [hrot] at ht
      obtain ⟨hcarries, hkept, hcfg, hnext, hsynced, hidle, hok, _, hsealed⟩ := h.rotateIfFull hp hdrains hrot
      have hpoisoned : s.Unharmed A (s.SealsDurably (entriesSize (batchEntries raws env)) env) { u with isPoisoned := true } := by
        refine ⟨hcarries.poison rfl rfl rfl rfl rfl rfl, fun i hi => (hkept i hi).trans (.of_files rfl rfl), ?_, hcfg, hnext,
          hsynced, hidle, by simp⟩
        intro hseal hs
        exact (hsealed hseal hs).of_kept (fun i _ => .of_files rfl rfl) rfl
      cases r' with
      | error e =>
        cases ht
        exact Or.inl ⟨⟨_, rfl⟩, hpoisoned⟩
      | ok _ =>
        obtain ⟨hp', hstores, hdrained⟩ := hok rfl
        simp only at ht
        cases hpack : packBatch (framesFrom s.nextOffset (batchEntries raws env)) with
        | none =>
          rw [hpack] at ht
          cases ht
          exact Or.inl ⟨⟨_, rfl⟩, hpoisoned⟩
        | some buffer =>
          obtain ⟨_, rfl⟩ := packBatch_eq_some hpack
          rw [hpack] at ht
          simp only at ht
          rw [← hnext] at ht ⊢
          rcases hstores.batchCommit hp' ht with ⟨herr, hun⟩ | ⟨hr, hb⟩
          · refine Or.inl ⟨herr, hun.stores, fun i hi => (hkept i hi).trans (hun.kept i hi), ?_, hun.config.trans hcfg,
              hun.next.trans hnext, hun.synced.trans hsynced, hun.idle.trans hidle, ?_⟩
            · intro hseal hs
              exact hun.isSealed trivial (hsealed hseal hs)
            · intro hnil
              exact hun.drained (hdrained hnil)
          · have hsyn : t.syncedOffset = s.syncedOffset ∨ _ := hb.synced.imp_left (fun h => h.trans hsynced)
            refine Or.inr (Or.inr ⟨hne, hr, ?_⟩)
            refine ⟨?_, fun i hi => (hkept i hi).trans (hb.kept i hi), ?_, hb.config.trans hcfg, ?_, hb.idle.trans hidle,
              hb.sound, ?_, hb.bytes, hb.before, ?_, ?_⟩
            · rw [← hnext]
              exact hb.stores
            · intro hseal hs
              exact hb.isSealed trivial (hsealed hseal hs)
            · rw [← hnext]
              exact hb.next
            · rw [← hnext]
              exact hb.started
            · rw [← hnext]
              exact hsyn
            · rw [← hcfg]
              exact hb.drained

/-- A new log stores no record. -/
theorem stores_of_openLog {cfg : LogConfig} {now ts : UInt64} (hopen : openLog cfg LogDir.empty now ts = .ok s) :
    s.Stores [] := by
  have h := openLog_new hopen
  obtain ⟨_, hstart, hbytes, _⟩ := h.represents.current _ h.current
  refine ⟨⟨by simp, by simp, ⟨_, h.current, hstart.symm⟩, by simp⟩, ?_, ?_⟩
  · intro _
    obtain ⟨pre, file, hentries, _, hfile⟩ := h.represents.split
    rw [pending_of_current h.current, ite_self, List.append_nil] at hfile
    refine ⟨_, file, ⟨h.current, rfl, Store.get?_of_mem (by rw [hentries]; simp)⟩, ?_⟩
    rw [hbytes, hfile]
    rfl
  · intro _
    rw [hstart]
    exact Nat.zero_le _

end IngestLog

end Mdrap
