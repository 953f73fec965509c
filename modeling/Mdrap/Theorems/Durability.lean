import Mdrap.Lemmas.Stores

/-!
# What the log reports as synced

The log reports an offset up to which all is synced, after an fsync of one file. It is true of the older files as well as long as
a rotation never goes on from a segment that is not durable. Where a rotation passes over an error of the last fsync of the old
segment, a later fsync reports its records too.
-/

namespace Mdrap

open Lib IngestLog

/-- The invariant of a run of one thread: all records are there, those of older segments and those reported as synced are
durable. -/
structure SyncedUpTo (s : IngestLog) (A : List Item) : Prop where
  stores : s.Stores A
  offsets : A.map Item.offset = List.range s.nextOffset
  idle : s.groupCommitFlushing = false
  synced : s.syncedOffset < s.nextOffset
  durable : ∀ i ∈ A, (i.offset : Int) ≤ s.syncedOffset → i.Durable s
  isSealed : s.Sealed A

namespace SyncedUpTo

variable {s t : IngestLog} {A : List Item}

theorem offset_lt (h : SyncedUpTo s A) : ∀ i ∈ A, i.offset < s.nextOffset := by
  intro i hi
  have hmem := List.mem_map_of_mem (f := Item.offset) hi
  rwa [h.offsets, List.mem_range] at hmem

/-- A rotation that syncs the old segment loses nothing. -/
theorem drains_of_sealsDurably {size : Nat} {env : Env} (h : s.SealsDurably size env) : s.Drains size env := by
  intro hp hdue hcreate
  rcases h hp hdue hcreate with ⟨hflush, _⟩ | hall
  · exact Or.inl hflush
  · exact Or.inr (fun f hf => (hall f hf).1)

/-- A step that adds no record. -/
theorem of_unharmed {P : Prop} (h : SyncedUpTo s A) (ht : s.Unharmed A P t) (hP : P) : SyncedUpTo t A := by
  refine ⟨ht.stores, by rw [ht.next]; exact h.offsets, ht.idle.trans h.idle, by rw [ht.synced, ht.next]; exact h.synced, ?_,
    ht.isSealed hP h.isSealed⟩
  intro i hi hle
  rw [ht.synced] at hle
  exact (ht.kept i hi).durable (h.durable i hi hle)

/-- After an fsync of the open file, with nothing in the buffer, all frames are durable. -/
theorem durable_all {B : List Item} {f : OpenFile} (hstores : s.Stores B) (hsealed : s.Sealed B) (hcur : s.current = some f)
    (hopen : f.closed = false) (hbuf : f.buffer = []) (ht : s.fileFsync true = (true, t)) : ∀ i ∈ B, i.Durable t := by
  intro i hi
  by_cases hseg : i.segment = s.currentSegmentStartOffset
  · obtain ⟨f', hf', hstart⟩ := hstores.current
    rw [hcur, Option.some.injEq] at hf'
    subst hf'
    exact durable_of_fsync hcur hopen hbuf ht (hstores.intact i hi) (hseg.trans hstart.symm)
  · have hkept := kept_fileFsync i s true
    rw [ht] at hkept
    exact hkept.durable (hsealed i hi hseg)

/-- After such an fsync the log may report any offset it has given. -/
theorem of_fsync {B : List Item} {u v : IngestLog} {f : OpenFile} (hstores : t.Stores B) (hsealed : t.Sealed B)
    (hoffsets : B.map Item.offset = List.range t.nextOffset) (hcurrent : t.current = some f) (hopen : f.closed = false)
    (hbuf : f.buffer = []) (hu : t.fileFsync true = (true, u)) (hdir : v.dir.segments = u.dir.segments) (hcur : v.current = u.current)
    (hnext : v.nextOffset = u.nextOffset) (hstart : v.currentSegmentStartOffset = u.currentSegmentStartOffset)
    (hbytes : v.currentSegmentBytes = u.currentSegmentBytes) (hp : v.isPoisoned = u.isPoisoned)
    (hidle : v.groupCommitFlushing = false) (hsynced : v.syncedOffset < v.nextOffset) : SyncedUpTo v B := by
  have hall := durable_all hstores hsealed hcurrent hopen hbuf hu
  have hkeeps := t.keeps_fileFsync true
  have hstores' := hstores.fileFsync true
  rw [hu] at hkeeps hstores'
  have hdurable : ∀ i ∈ B, i.Durable v := fun i hi => (Item.Kept.of_files hdir hcur).durable (hall i hi)
  refine ⟨hstores'.congr hdir hcur hnext hstart hbytes (fun h => hp ▸ h), ?_, hidle, hsynced, fun i hi _ => hdurable i hi,
    fun i hi _ => hdurable i hi⟩
  rw [hnext, hkeeps.nextOffset]
  exact hoffsets

/-! ## Appending -/

section Append

variable {P : Prop} {e : LogEntry} {writePos : Nat} (h : SyncedUpTo s A) (hb : s.Begun A P e writePos t) (hP : P)

include h hb hP

theorem sealed_begun : t.Sealed (A ++ [⟨s.nextOffset, e, t.currentSegmentStartOffset, t.currentSegmentBytes⟩]) := by
  intro i hi hseg
  rcases List.mem_append.mp hi with hi | hi
  · exact hb.isSealed hP h.isSealed i hi hseg
  · rw [List.mem_singleton.mp hi] at hseg
    exact absurd rfl hseg

omit hP in
theorem offsets_begun : (A ++ [Item.mk s.nextOffset e t.currentSegmentStartOffset t.currentSegmentBytes]).map Item.offset =
    List.range t.nextOffset := by
  rw [List.map_append, h.offsets, hb.next, List.range_succ]
  rfl

/-- A record that needs no sync. -/
theorem of_begun : SyncedUpTo t (A ++ [⟨s.nextOffset, e, t.currentSegmentStartOffset, t.currentSegmentBytes⟩]) := by
  have hsynced := h.synced
  refine ⟨hb.stores, offsets_begun h hb, hb.idle.trans h.idle, by rw [hb.synced, hb.next]; omega, ?_, sealed_begun h hb hP⟩
  intro i hi hle
  rw [hb.synced] at hle
  rcases List.mem_append.mp hi with hi | hi
  · exact (hb.kept i hi).durable (h.durable i hi hle)
  · rw [List.mem_singleton.mp hi] at hle
    simp only at hle
    omega

/-- A record that could not be synced is taken back. -/
theorem of_aborted {v : IngestLog} (hdir : v.dir.segments = t.dir.segments) (hcur : v.current = t.current)
    (hnext : v.nextOffset = t.nextOffset) (hstart : v.currentSegmentStartOffset = t.currentSegmentStartOffset)
    (hbytes : v.currentSegmentBytes = t.currentSegmentBytes) (hidle : v.groupCommitFlushing = false)
    (hsynced : v.syncedOffset = t.syncedOffset) (r : IoResult) : SyncedUpTo (v.appendAbort s.nextOffset writePos r) A := by
  have hkept : ∀ i ∈ A, i.Kept s v := fun i hi => (hb.kept i hi).trans (.of_files hdir hcur)
  have hv : v.Stores A := (hb.stores.congr hdir hcur hnext hstart hbytes (fun _ => hb.sound)).subset
    (fun i hi => List.mem_append_left _ hi)
  have hlt := h.offset_lt
  have hoff : ∀ i ∈ A, i.offset ≠ s.nextOffset := fun i hi => Nat.ne_of_lt (hlt i hi)
  obtain ⟨hstores, hkept', _, hnext', hstart', hidle', hsynced', _⟩ := hv.appendAbort
    (by rw [hstart]; exact hb.before) hoff (fun _ => by rw [hstart]; exact hb.started) r
  have hnext'' : (v.appendAbort s.nextOffset writePos r).nextOffset = s.nextOffset := by
    rw [hnext', hnext, hb.next, if_pos rfl]
  refine ⟨hstores, by rw [hnext'']; exact h.offsets, hidle'.trans hidle, ?_, ?_, ?_⟩
  · rw [hsynced', hsynced, hb.synced, hnext'']
    exact h.synced
  · intro i hi hle
    rw [hsynced', hsynced, hb.synced] at hle
    exact ((hkept i hi).trans (hkept' i hi)).durable (h.durable i hi hle)
  · refine (hb.isSealed hP h.isSealed).of_kept ?_ (hstart'.trans hstart)
    intro i hi
    exact Item.Kept.trans (.of_files hdir hcur) (hkept' i hi)

end Append

/-- `append` keeps the invariant, with its record if it returns an offset. -/
theorem append (h : SyncedUpTo s A) {raw : RawInput} {env : Env} (hseal : s.SealsDurably (appendEntry raw env).size env)
    {r : Except IngestLogError Nat} (ht : s.append raw env = (r, t)) :
    ((∃ e, r = .error e) ∧ SyncedUpTo t A) ∨ (r = .ok s.nextOffset ∧ (appendEntry raw env).size ≤ t.currentSegmentBytes ∧
      SyncedUpTo t (A ++ [⟨s.nextOffset, appendEntry raw env, t.currentSegmentStartOffset, t.currentSegmentBytes⟩])) := by
  rcases hbegin : s.appendBegin raw env with ⟨r', u⟩
  unfold IngestLog.append at ht
  rw [hbegin] at ht
  rcases h.stores.appendBegin (drains_of_sealsDurably hseal) hbegin with ⟨⟨e, rfl⟩, hun⟩ | ⟨writePos, rfl, hb⟩
  · cases ht
    exact Or.inl ⟨⟨_, rfl⟩, h.of_unharmed hun hseal⟩
  · simp only at ht
    obtain ⟨f, file, hw, _⟩ := hb.stores.sound hb.sound
    have hsize : (appendEntry raw env).size ≤ u.currentSegmentBytes := by
      rw [hb.bytes]
      exact Nat.le_add_left _ _
    have hidle := hb.idle.trans h.idle
    have hlt := h.synced
    -- whichever fsync it is, if it does not fail then all is durable
    have hsync : u.config.fsyncPolicy ≠ .never → ∀ v w : IngestLog, u.fileFsync true = (true, v) → w.dir.segments = v.dir.segments →
        w.current = v.current → w.nextOffset = v.nextOffset → w.currentSegmentStartOffset = v.currentSegmentStartOffset →
        w.currentSegmentBytes = v.currentSegmentBytes → w.isPoisoned = v.isPoisoned → w.groupCommitFlushing = false →
        w.syncedOffset = (s.nextOffset : Int) → (appendEntry raw env).size ≤ w.currentSegmentBytes ∧ SyncedUpTo w
          (A ++ [⟨s.nextOffset, appendEntry raw env, w.currentSegmentStartOffset, w.currentSegmentBytes⟩]) := by
      intro hpolicy v w hv hdir hcur hnext hstart hbytes hp hidle' hsynced
      have hkeeps := u.keeps_fileFsync true
      rw [hv] at hkeeps
      have hbuf := hb.drained (by rw [← hb.config]; exact hpolicy) f hw.current
      have hstart' : w.currentSegmentStartOffset = u.currentSegmentStartOffset := hstart.trans hkeeps.currentSegmentStartOffset
      have hbytes' : w.currentSegmentBytes = u.currentSegmentBytes := hbytes.trans hkeeps.currentSegmentBytes
      have hnext' : w.nextOffset = u.nextOffset := hnext.trans hkeeps.nextOffset
      rw [hstart', hbytes']
      refine ⟨hsize, of_fsync hb.stores (sealed_begun h hb hseal) (offsets_begun h hb) hw.current hw.isOpen hbuf hv hdir hcur
        hnext hstart hbytes hp hidle' ?_⟩
      rw [hsynced, hnext', hb.next]
      omega
    rcases hfsync : u.fileFsync env.fsync with ⟨b, v⟩
    have hb' := (hw.fileFsync env.fsync).1
    rw [hfsync] at hb'
    have hb'' : b = env.fsync := hb'
    split at ht
    · -- group commit: the caller leads its own sync
      rename_i hpolicy
      have hturn : u.groupTurn s.nextOffset = .lead s.nextOffset := by
        rw [groupTurn, if_neg (by rw [hb.synced]; omega), hb.sound, hidle, hb.pending]
        rfl
      simp only [appendGroupCommit, hturn, hfsync] at ht
      cases b with
      | true =>
        cases ht
        rw [← hb''] at hfsync
        have hkeeps := u.keeps_fileFsync true
        rw [hfsync] at hkeeps
        refine Or.inr ⟨rfl, hsync (by rw [hpolicy]; decide) v _ hfsync rfl rfl rfl rfl rfl rfl rfl ?_⟩
        show max v.syncedOffset (s.nextOffset : Int) = s.nextOffset
        rw [hkeeps.syncedOffset, hb.synced]
        omega
      | false =>
        cases ht
        rw [← hb'', fileFsync_open hw.current hw.isOpen, if_neg (by simp)] at hfsync
        cases hfsync
        exact Or.inl ⟨⟨_, rfl⟩, of_aborted h hb hseal (v := u.groupSynced s.nextOffset false) rfl rfl rfl rfl rfl rfl rfl _⟩
    · simp only [appendSync] at ht
      by_cases hdue : u.appendSyncDue env = true
      · have hpolicy : u.config.fsyncPolicy ≠ .never := by
          intro hnever
          simp [appendSyncDue, hnever] at hdue
        simp only [hdue, if_true, hfsync] at ht
        cases b with
        | true =>
          cases ht
          rw [← hb''] at hfsync
          have hkeeps := u.keeps_fileFsync true
          rw [hfsync] at hkeeps
          exact Or.inr ⟨rfl, hsync hpolicy v _ hfsync rfl rfl rfl rfl rfl rfl (hkeeps.groupCommitFlushing.trans hidle) rfl⟩
        | false =>
          cases ht
          rw [← hb'', fileFsync_open hw.current hw.isOpen, if_neg (by simp)] at hfsync
          cases hfsync
          exact Or.inl ⟨⟨_, rfl⟩, of_aborted h hb hseal rfl rfl rfl rfl rfl hidle rfl _⟩
      · rw [if_neg hdue] at ht
        cases ht
        exact Or.inr ⟨rfl, hsize, of_begun h hb hseal⟩

/-- `append_batch` keeps the invariant, with its records if it returns offsets. -/
theorem appendBatch (h : SyncedUpTo s A) {raws : List RawInput} {env : Env}
    (hseal : s.SealsDurably (entriesSize (batchEntries raws env)) env) {r : Except IngestLogError (List Nat)}
    (ht : s.appendBatch raws env = (r, t)) :
    ((∃ e, r = .error e) ∧ SyncedUpTo t A) ∨ (raws = [] ∧ r = .ok [] ∧ t = s) ∨
      (raws ≠ [] ∧ r = .ok (List.range' s.nextOffset (batchEntries raws env).length) ∧
        SyncedUpTo t (A ++ itemsFrom t.currentSegmentStartOffset s.nextOffset
          (t.currentSegmentBytes - entriesSize (batchEntries raws env)) (batchEntries raws env))) := by
  rcases h.stores.appendBatch (drains_of_sealsDurably hseal) ht with ⟨herr, hun⟩ | hnil | ⟨hne, hr, hb⟩
  · exact Or.inl ⟨herr, h.of_unharmed hun hseal⟩
  · exact Or.inr (Or.inl hnil)
  · refine Or.inr (Or.inr ⟨hne, hr, ?_⟩)
    have hlt := h.synced
    have hpos : 0 < (batchEntries raws env).length := by
      rw [List.length_pos_iff]
      intro hnil
      exact hne (by simpa [batchEntries] using hnil)
    have hsealed : t.Sealed (A ++ itemsFrom t.currentSegmentStartOffset s.nextOffset
        (t.currentSegmentBytes - entriesSize (batchEntries raws env)) (batchEntries raws env)) := by
      intro i hi hseg
      rcases List.mem_append.mp hi with hi | hi
      · exact hb.isSealed hseal h.isSealed i hi hseg
      · exact absurd (segment_of_mem_itemsFrom hi) hseg
    refine ⟨hb.stores, ?_, hb.idle.trans h.idle, ?_, ?_, hsealed⟩
    · rw [List.map_append, h.offsets, map_offset_itemsFrom, hb.next, List.range_eq_range', List.range_eq_range']
      simpa using List.range'_append_1 (s := 0) (m := s.nextOffset) (n := (batchEntries raws env).length)
    · rw [hb.next]
      rcases hb.synced with hsame | ⟨hlast, _⟩
      · rw [hsame]
        omega
      · rw [hlast]
        omega
    · intro i hi hle
      rcases hb.synced with hsame | ⟨_, hdurable⟩
      · rw [hsame] at hle
        rcases List.mem_append.mp hi with hi | hi
        · exact (hb.kept i hi).durable (h.durable i hi hle)
        · have := offset_of_mem_itemsFrom hi
          omega
      · by_cases hseg : i.segment = t.currentSegmentStartOffset
        · exact hdurable i hi hseg
        · exact hsealed i hi hseg

/-! ## Flushing -/

/-- A flush of the open file, which may fail. -/
theorem fileFlush (h : SyncedUpTo s A) (r : IoResult) : SyncedUpTo (s.fileFlush r).2 A := by
  have hkeeps := s.keeps_fileFlush r
  have hkept := fun i : Item => kept_fileFlush i s r
  refine ⟨h.stores.fileFlush r, by rw [hkeeps.nextOffset]; exact h.offsets, hkeeps.groupCommitFlushing.trans h.idle,
    by rw [hkeeps.syncedOffset, hkeeps.nextOffset]; exact h.synced, ?_, h.isSealed.of_kept (fun i _ => hkept i)
      hkeeps.currentSegmentStartOffset⟩
  intro i hi hle
  rw [hkeeps.syncedOffset] at hle
  exact (hkept i).durable (h.durable i hi hle)

/-- Other counters do not matter. -/
theorem congr (h : SyncedUpTo s A) (hdir : t.dir.segments = s.dir.segments) (hcur : t.current = s.current)
    (hnext : t.nextOffset = s.nextOffset) (hstart : t.currentSegmentStartOffset = s.currentSegmentStartOffset)
    (hbytes : t.currentSegmentBytes = s.currentSegmentBytes) (hp : t.isPoisoned = s.isPoisoned)
    (hidle : t.groupCommitFlushing = s.groupCommitFlushing) (hsynced : t.syncedOffset = s.syncedOffset) : SyncedUpTo t A := by
  refine ⟨h.stores.congr hdir hcur hnext hstart hbytes (fun h => hp ▸ h), by rw [hnext]; exact h.offsets, hidle.trans h.idle,
    by rw [hsynced, hnext]; exact h.synced, ?_, h.isSealed.of_kept (fun i _ => .of_files hdir hcur) hstart⟩
  intro i hi hle
  rw [hsynced] at hle
  exact (Item.Kept.of_files hdir hcur).durable (h.durable i hi hle)

/-- An fsync of the open file that fails. -/
theorem fsync_failed (h : SyncedUpTo s A) {ok : Bool} (ht : s.fileFsync ok = (false, t)) : SyncedUpTo t A := by
  have hs : t = s := by
    unfold fileFsync at ht
    split at ht
    · exact (Prod.mk.inj ht).2.symm
    · split at ht
      · exact (Prod.mk.inj ht).2.symm
      · split at ht
        · cases ht
        · exact (Prod.mk.inj ht).2.symm
  rw [hs]
  exact h

/-- After a flush and an fsync that do not fail, the log may report all its offsets. -/
theorem fsync_done (h : SyncedUpTo s A) (hflushed : ∀ f, s.current = some f → f.buffer = [] ∧ f.closed = false) {ok : Bool}
    (ht : s.fileFsync ok = (true, t)) {v : IngestLog} (hdir : v.dir.segments = t.dir.segments) (hcur : v.current = t.current)
    (hnext : v.nextOffset = t.nextOffset) (hstart : v.currentSegmentStartOffset = t.currentSegmentStartOffset)
    (hbytes : v.currentSegmentBytes = t.currentSegmentBytes) (hp : v.isPoisoned = t.isPoisoned)
    (hidle : v.groupCommitFlushing = t.groupCommitFlushing) (hsynced : v.syncedOffset = (t.nextOffset : Int) - 1) :
    SyncedUpTo v A := by
  obtain ⟨f, hf, _⟩ := h.stores.current
  obtain ⟨hbuf, hopen⟩ := hflushed f hf
  have hok : ok = true := by
    have hresult := congrArg Prod.fst (fileFsync_open hf hopen ok)
    rw [ht] at hresult
    exact hresult.symm
  subst hok
  have hkeeps := s.keeps_fileFsync true
  rw [ht] at hkeeps
  refine of_fsync h.stores h.isSealed h.offsets hf hopen hbuf ht hdir hcur hnext hstart hbytes hp
    (hidle.trans (hkeeps.groupCommitFlushing.trans h.idle)) ?_
  rw [hsynced, hnext]
  omega

/-- `flush` keeps the invariant. -/
theorem flush (h : SyncedUpTo s A) (flushIo : IoResult) (fsyncIo : Bool) (now : UInt64) :
    SyncedUpTo (s.flush flushIo fsyncIo now).2 A := by
  have hflush := h.fileFlush flushIo
  unfold IngestLog.flush
  split
  · exact h
  · split
    · exact h
    · split
      · rename_i heq
        rw [heq] at hflush
        exact hflush
      · rename_i u heq
        rw [heq] at hflush
        have hcounted : SyncedUpTo { u with bytesSinceFlush := 0 } A := hflush.congr rfl rfl rfl rfl rfl rfl rfl rfl
        split
        · rename_i v heq'
          exact hcounted.fsync_failed heq'
        · rename_i v heq'
          refine hcounted.fsync_done ?_ heq' rfl rfl rfl rfl rfl rfl rfl rfl
          intro f hf
          obtain ⟨hbuf, hopen, _⟩ := buffer_fileFlush heq hf
          exact ⟨hbuf, hopen⟩

/-- A round of the background flusher keeps the invariant. -/
theorem flusherStep (h : SyncedUpTo s A) (flushIo : IoResult) (fsyncIo : Bool) (now : UInt64) :
    SyncedUpTo (s.flusherStep flushIo fsyncIo now) A := by
  have hflush := h.fileFlush flushIo
  unfold IngestLog.flusherStep
  split
  · split
    · rename_i heq
      rw [heq] at hflush
      exact hflush
    · rename_i u heq
      rw [heq] at hflush
      split
      · rename_i v heq'
        exact hflush.fsync_failed heq'
      · rename_i v heq'
        refine hflush.fsync_done ?_ heq' rfl rfl rfl rfl rfl rfl rfl rfl
        intro f hf
        obtain ⟨hbuf, hopen, _⟩ := buffer_fileFlush heq hf
        exact ⟨hbuf, hopen⟩
  · exact h

/-! ## Runs -/

/-- A call keeps the invariant, with the records it acknowledges. -/
theorem call (h : SyncedUpTo s A) (c : Call) (hseal : (LogOp.call c).SealsDurably s) :
    SyncedUpTo (c.run s).2 (A ++ (c.run s).1) := by
  cases c with
  | append raw env =>
    have hseal' : s.SealsDurably (appendEntry raw env).size env := by
      simpa [LogOp.SealsDurably, Call.entries, Call.env, appendEntry] using hseal
    rcases ht : s.append raw env with ⟨r, t⟩
    rcases h.append hseal' ht with ⟨⟨e, rfl⟩, hinv⟩ | ⟨rfl, hsize, hinv⟩
    · simp only [Call.run, ht, List.append_nil]
      exact hinv
    · simp only [Call.run, ht]
      have hitems : itemsFrom t.currentSegmentStartOffset s.nextOffset
          (t.currentSegmentBytes - ((Call.append raw env).entries.map LogEntry.size).sum) (Call.append raw env).entries =
          [⟨s.nextOffset, appendEntry raw env, t.currentSegmentStartOffset, t.currentSegmentBytes⟩] := by
        have hsum : ((Call.append raw env).entries.map LogEntry.size).sum = (appendEntry raw env).size := by
          simp [Call.entries, appendEntry]
        rw [hsum]
        simp only [Call.entries, itemsFrom, List.cons.injEq, Item.mk.injEq, true_and, and_true]
        exact ⟨rfl, Nat.sub_add_cancel hsize⟩
      rw [hitems]
      exact hinv
  | appendBatch raws env =>
    rcases ht : s.appendBatch raws env with ⟨r, t⟩
    rcases h.appendBatch (show s.SealsDurably (entriesSize (batchEntries raws env)) env from hseal) ht with
      ⟨⟨e, rfl⟩, hinv⟩ | ⟨_, rfl, rfl⟩ | ⟨hne, rfl, hinv⟩
    · simp only [Call.run, ht, List.append_nil]
      exact hinv
    · simp only [Call.run, ht, List.append_nil]
      exact h
    · cases raws with
      | nil => exact absurd rfl hne
      | cons raw raws =>
        simp only [Call.run, ht, batchEntries, List.map_cons, List.length_cons, List.range'_succ]
        exact hinv

theorem op (h : SyncedUpTo s A) (op : LogOp) (hseal : op.SealsDurably s) : SyncedUpTo (op.run s).2 (A ++ (op.run s).1) := by
  cases op with
  | call c => exact h.call c hseal
  | flush flushIo fsyncIo now =>
    rw [LogOp.run, List.append_nil]
    exact h.flush flushIo fsyncIo now
  | flusher flushIo fsyncIo now =>
    rw [LogOp.run, List.append_nil]
    exact h.flusherStep flushIo fsyncIo now

theorem run (ops : List LogOp) (h : SyncedUpTo s A) (hseal : SealsRun ops s) :
    SyncedUpTo (runOps ops s).2 (A ++ (runOps ops s).1) := by
  induction ops generalizing s A with
  | nil =>
    rw [runOps, List.append_nil]
    exact h
  | cons op ops ih =>
    have hrest := ih (h.op op hseal.1) hseal.2
    rw [List.append_assoc] at hrest
    exact hrest

/-- A new log has no records. -/
theorem of_openLog {cfg : LogConfig} {now ts : UInt64} (hopen : openLog cfg LogDir.empty now ts = .ok s) : SyncedUpTo s [] := by
  have h := openLog_new hopen
  have hnext : s.nextOffset = 0 := h.represents.next
  refine ⟨stores_of_openLog hopen, by simp [hnext], h.idle, ?_, by simp, by simp [IngestLog.Sealed]⟩
  rw [h.synced]
  omega

end SyncedUpTo

/-- Every acknowledged record up to the synced offset is in the durable part of its segment file, and there is one for every
offset up to it. -/
def ReportsDurable (s : IngestLog) (acks : List Item) : Prop :=
  (∀ i ∈ acks, (i.offset : Int) ≤ s.syncedOffset → i.Durable s) ∧
    ∀ offset : Nat, (offset : Int) ≤ s.syncedOffset → offset ∈ acks.map Item.offset

/-- Over any run of one thread on a new log, under every policy and whatever fails, the log reports nothing as synced that is
not durable, as long as every rotation syncs the old segment or finds all of it durable. -/
theorem syncedOffset_durable (cfg : LogConfig) {now ts : UInt64} {s : IngestLog}
    (hopen : openLog cfg LogDir.empty now ts = .ok s) (ops : List LogOp) (hseal : SealsRun ops s) :
    ReportsDurable (runOps ops s).2 (runOps ops s).1 := by
  have hinv := (SyncedUpTo.of_openLog hopen).run ops hseal
  rw [List.nil_append] at hinv
  refine ⟨hinv.durable, ?_⟩
  intro offset hle
  have hlt := hinv.synced
  rw [hinv.offsets, List.mem_range]
  omega

/-- Two records in two segments, the first of which is synced by the rotation. -/
theorem syncedOffset_durable_two : ∃ s, openLog ⟨.groupedBySize, 100, 128⟩ LogDir.empty 0 0 = .ok s ∧
    (runOps [.call (.append (.dict [("receive_timestamp", .int 1)]) (Env.faultless 0 0 0 0)),
      .call (.append (.dict [("receive_timestamp", .int 2)]) (Env.faultless 0 0 0 0)), .flush .ok true 0] s).2.syncedOffset = 1 ∧
    ReportsDurable (runOps [.call (.append (.dict [("receive_timestamp", .int 1)]) (Env.faultless 0 0 0 0)),
        .call (.append (.dict [("receive_timestamp", .int 2)]) (Env.faultless 0 0 0 0)), .flush .ok true 0] s).2
      (runOps [.call (.append (.dict [("receive_timestamp", .int 1)]) (Env.faultless 0 0 0 0)),
        .call (.append (.dict [("receive_timestamp", .int 2)]) (Env.faultless 0 0 0 0)), .flush .ok true 0] s).1 := by
  obtain ⟨s, hopen, _⟩ := exists_openLog_new ⟨.groupedBySize, 100, 128⟩ 0 0
  have hrun : (openLog ⟨.groupedBySize, 100, 128⟩ LogDir.empty 0 0).map (fun s =>
      (decide (SealsRun [.call (.append (.dict [("receive_timestamp", .int 1)]) (Env.faultless 0 0 0 0)),
        .call (.append (.dict [("receive_timestamp", .int 2)]) (Env.faultless 0 0 0 0)), .flush .ok true 0] s),
      (runOps [.call (.append (.dict [("receive_timestamp", .int 1)]) (Env.faultless 0 0 0 0)),
        .call (.append (.dict [("receive_timestamp", .int 2)]) (Env.faultless 0 0 0 0)), .flush .ok true 0] s).2.syncedOffset)) =
      .ok (true, 1) := by
    decide
  have hrun := eq_of_map_ok hopen hrun
  simp only [Prod.mk.injEq, decide_eq_true_eq] at hrun
  exact ⟨s, hopen, hrun.2, syncedOffset_durable _ hopen _ hrun.1⟩

/-- The rotation passes over the failed fsync of the first segment; a flush of the second one then reports both records. -/
theorem syncedOffset_durable_false : ∃ s, openLog ⟨.groupedBySize, 100, 128⟩ LogDir.empty 0 0 = .ok s ∧
    ¬ReportsDurable (runOps [.call (.append (.dict [("receive_timestamp", .int 1)]) (Env.faultless 0 0 0 0)),
        .call (.append (.dict [("receive_timestamp", .int 2)]) { Env.faultless 0 0 0 0 with rotate := ⟨.ok, false, .ok⟩ }),
        .flush .ok true 0] s).2
      (runOps [.call (.append (.dict [("receive_timestamp", .int 1)]) (Env.faultless 0 0 0 0)),
        .call (.append (.dict [("receive_timestamp", .int 2)]) { Env.faultless 0 0 0 0 with rotate := ⟨.ok, false, .ok⟩ }),
        .flush .ok true 0] s).1 := by
  obtain ⟨s, hopen, _⟩ := exists_openLog_new ⟨.groupedBySize, 100, 128⟩ 0 0
  have hrun : (openLog ⟨.groupedBySize, 100, 128⟩ LogDir.empty 0 0).map (fun s =>
      let r := runOps [.call (.append (.dict [("receive_timestamp", .int 1)]) (Env.faultless 0 0 0 0)),
        .call (.append (.dict [("receive_timestamp", .int 2)]) { Env.faultless 0 0 0 0 with rotate := ⟨.ok, false, .ok⟩ }),
        .flush .ok true 0] s
      decide (∀ i ∈ r.1, (i.offset : Int) ≤ r.2.syncedOffset → i.Durable r.2)) = .ok false := by
    decide +kernel
  have hrun := eq_of_map_ok hopen hrun
  simp only [decide_eq_false_iff_not] at hrun
  exact ⟨s, hopen, fun h => hrun h.1⟩

end Mdrap
