import Mathlib.Data.List.Nodup
import Mdrap.IngestLog.Read
import Mdrap.Lemmas.Repair
import Mdrap.Lemmas.Append

/-!
# What reading the log gives

Reading a segment of the log from an offset on gives the events of its records from that offset on, whether the reading begins
at the first frame or at a frame that the sparse index leads to; the entries of an index only have to be positions of frames
of the segment (`Segment.FrameAt`). Reading a log gives the events of all its records from the offset on.
-/

namespace Mdrap

open Lib

/-- The event read from an item, with its offset. -/
def Item.event (i : Item) : Nat × RawEvent := (i.offset, eventOfRecord i.entry.ts (.obj i.entry.record))

/-- The events of frames from an offset on. A payload that is not a JSON object gives none. -/
def eventsOf (startOffset : Nat) (fs : List Frame) : List (Nat × RawEvent) :=
  fs.filterMap (fun f => if startOffset ≤ f.offset then (decodeRecord f).map (fun e => (f.offset, e)) else none)

/-- The frames of records give their events. -/
theorem eventsOf_framesFrom (startOffset offset segment pos : Nat) (es : List LogEntry) :
    eventsOf startOffset (framesFrom offset es) =
      ((itemsFrom segment offset pos es).filter (fun i => startOffset ≤ i.offset)).map Item.event := by
  induction es generalizing offset pos with
  | nil => rfl
  | cons e es ih =>
    have hdec : decodeRecord (e.frame offset) = some (eventOfRecord e.ts (.obj e.record)) :=
      decodeRecord_recordBytes offset e.ts e.record
    have ih := ih (offset + 1) (pos + e.size)
    unfold eventsOf at ih ⊢
    simp only [framesFrom, itemsFrom, List.filterMap_cons, hdec]
    by_cases hle : startOffset ≤ offset
    · simp [LogEntry.frame, hle, ih, Item.event]
    · simp [LogEntry.frame, hle, ih]

theorem eventsOf_append (startOffset : Nat) (fs fs' : List Frame) :
    eventsOf startOffset (fs ++ fs') = eventsOf startOffset fs ++ eventsOf startOffset fs' := by
  simp [eventsOf]

/-- Frames below the offset give no events. -/
theorem eventsOf_eq_nil {startOffset : Nat} {fs : List Frame} (h : ∀ f ∈ fs, f.offset < startOffset) :
    eventsOf startOffset fs = [] := by
  rw [eventsOf, List.filterMap_eq_nil_iff]
  intro f hf
  rw [if_neg (by have := h f hf; omega)]

/-- The reading loop goes over frames, wherever it began. -/
theorem Frames.iterLoop {limit : Int} {v : Nat} {b t : Bytes} {fs : List Frame} (h : Frames limit v b fs t)
    (startOffset : Nat) (file : Bytes) (n : Nat) (sought yielded : Bool) (hn : b.length < n) :
    ∃ m y, t.length < m ∧ Mdrap.iterLoop limit v startOffset file n b sought yielded =
      (eventsOf startOffset fs ++ (Mdrap.iterLoop limit v startOffset file m t sought y).1,
        (Mdrap.iterLoop limit v startOffset file m t sought y).2) := by
  induction h generalizing n yielded with
  | nil b => exact ⟨n, yielded, hn, rfl⟩
  | @cons b r t f fs hread _ ih =>
    obtain ⟨chunk, rfl, hlen, _⟩ := readFrame_frame hread
    rw [List.length_append, hlen] at hn
    obtain ⟨n, rfl⟩ : ∃ n', n = n' + 1 := ⟨n - 1, by omega⟩
    rw [Mdrap.iterLoop, hread]
    simp only [eventsOf, List.filterMap_cons]
    cases hev : (if startOffset ≤ f.offset then decodeRecord f else none) with
    | none =>
      have hnone : (if startOffset ≤ f.offset then (decodeRecord f).map (fun e => (f.offset, e)) else none) = none := by
        by_cases hle : startOffset ≤ f.offset <;> simp_all
      obtain ⟨m, y, hm, heq⟩ := ih n yielded (by omega)
      refine ⟨m, y, hm, ?_⟩
      simp only [hnone, heq, eventsOf]
    | some e =>
      have hsome : (if startOffset ≤ f.offset then (decodeRecord f).map (fun e => (f.offset, e)) else none) =
          some (f.offset, e) := by
        by_cases hle : startOffset ≤ f.offset <;> simp_all
      obtain ⟨m, y, hm, heq⟩ := ih n true (by omega)
      refine ⟨m, y, hm, ?_⟩
      simp only [hsome, heq, eventsOf, List.cons_append]

/-- The reading loop over frames up to the end of the file. -/
theorem Frames.iterLoop_eof {limit : Int} {v : Nat} {b : Bytes} {fs : List Frame} (h : Frames limit v b fs [])
    (startOffset : Nat) (file : Bytes) (n : Nat) (sought : Bool) (hn : b.length < n) :
    Mdrap.iterLoop limit v startOffset file n b sought false = (eventsOf startOffset fs, 0) := by
  obtain ⟨m, y, hm, heq⟩ := h.iterLoop startOffset file n sought false hn
  obtain ⟨m, rfl⟩ : ∃ m', m = m' + 1 := ⟨m - 1, by simp at hm; omega⟩
  have heof : Mdrap.iterLoop limit v startOffset file (m + 1) [] sought y = ([], 0) := by
    rw [Mdrap.iterLoop]
    rfl
  rw [heq, heof, List.append_nil]

/-! ## The sparse index -/

/-- A frame of the segment with this offset begins at this position. -/
def Segment.FrameAt (g : Segment) (offset pos : Nat) : Prop :=
  ∃ es e rest, g.entries = es ++ e :: rest ∧ offset = g.start + es.length ∧ pos = segmentHeaderSize + entriesSize es

/-- The loop that builds an index notes positions of frames. -/
theorem buildIndexLoop_sound {interval : Nat} {g : Segment} (hf : g.Fits) (n : Nat) {es todo : List LogEntry} (hg : g.entries = es ++ todo) (entries : List (Nat × Nat)) (last : Int)
    (hentries : ∀ e ∈ entries, g.FrameAt e.1 e.2) :
    ∀ e ∈ (buildIndexLoop interval n ((framesFrom (g.start + es.length) todo).flatMap Frame.bytes)
      (segmentHeaderSize + entriesSize es) entries last).1, g.FrameAt e.1 e.2 := by
  induction n generalizing es todo entries last with
  | zero => exact hentries
  | succ n ih =>
    cases todo with
    | nil => exact hentries
    | cons e todo =>
      have hmem : e.frame (g.start + es.length) ∈ g.frames := by
        rw [Segment.frames, hg, framesFrom_append]
        exact List.mem_append_right _ List.mem_cons_self
      have hhdr : ((framesFrom (g.start + es.length) (e :: todo)).flatMap Frame.bytes).take frameHeaderSize =
          frameHeaderBytes (e.frame (g.start + es.length)) logVersion := take_header_bytes _ _
      have hlen : ¬((framesFrom (g.start + es.length) (e :: todo)).flatMap Frame.bytes).length < frameHeaderSize := by
        rw [length_flatMap_framesFrom, entriesSize_cons, LogEntry.size]
        omega
      have hdrop : ((framesFrom (g.start + es.length) (e :: todo)).flatMap Frame.bytes).drop
          (frameHeaderSize + (e.frame (g.start + es.length)).payload.length) =
          (framesFrom (g.start + (es ++ [e]).length) todo).flatMap Frame.bytes := by
        rw [framesFrom, List.flatMap_cons, List.length_append, List.length_singleton, ← Nat.add_assoc]
        exact List.drop_left' (by simp [frameHeaderSize])
      have hpos : segmentHeaderSize + entriesSize es + frameHeaderSize +
          (e.frame (g.start + es.length)).payload.length = segmentHeaderSize + entriesSize (es ++ [e]) := by
        simp only [entriesSize_append, entriesSize_cons, entriesSize_nil, LogEntry.size, LogEntry.frame]
        omega
      rw [buildIndexLoop, if_neg hlen, hhdr, unpackFrameHeader_bytes (hf _ hmem)]
      simp only [ne_eq, not_true_eq_false, false_or]
      by_cases hsize : maxFramePayloadBytes < (e.frame (g.start + es.length)).payload.length
      · rw [if_pos hsize]
        exact hentries
      · rw [if_neg hsize, hdrop, hpos]
        have hg' : g.entries = (es ++ [e]) ++ todo := by rw [hg, List.append_assoc, List.singleton_append]
        refine ih hg' _ _ ?_
        intro x hx
        split at hx
        · rcases List.mem_append.mp hx with hx | hx
          · exact hentries x hx
          · rw [List.mem_singleton.mp hx]
            exact ⟨es, e, todo, hg, rfl, rfl⟩
        · exact hentries x hx

/-- The index of a segment of the log notes positions of its frames. -/
theorem sparseIndexOf_sound {interval : Nat} {g : Segment} (hf : g.Fits) {x : SparseIndex} (h : sparseIndexOf interval g.bytes = some x) : ∀ e ∈ x.entries, g.FrameAt e.1 e.2 := by
  unfold sparseIndexOf at h
  split at h
  · cases h
  · have hdrop : g.bytes.drop segmentHeaderSize = (framesFrom (g.start + ([] : List LogEntry).length) g.entries).flatMap Frame.bytes :=
      List.drop_left' (by simp [segmentHeaderSize])
    simp only [Option.some.injEq] at h
    subst h
    simp only
    rw [hdrop]
    exact buildIndexLoop_sound hf _ (show g.entries = [] ++ g.entries from rfl) [] (-1) (by simp)

/-- `bisect_right` stops behind an element that is not greater, or at the start. -/
theorem bisectRight_spec (a : List Nat) (x n lo hi : Nat) (hlo : lo = 0 ∨ a.getD (lo - 1) 0 ≤ x) :
    bisectRight a x n lo hi = 0 ∨ a.getD (bisectRight a x n lo hi - 1) 0 ≤ x := by
  induction n generalizing lo hi with
  | zero => exact hlo
  | succ n ih =>
    rw [bisectRight]
    split
    · simp only
      split
      · exact ih lo _ hlo
      · rename_i hle
        exact ih _ hi (Or.inr (by simpa using hle))
    · exact hlo

/-- The entry to begin at is an entry at or before the wanted offset. -/
theorem indexEntry_spec {startOffset : Nat} {entries : List (Nat × Nat)} {e : Nat × Nat}
    (h : indexEntry startOffset entries = some e) : e ∈ entries ∧ e.1 ≤ startOffset := by
  unfold indexEntry at h
  have hspec := bisectRight_spec (entries.map (·.1)) startOffset (entries.length + 1) 0 entries.length (Or.inl rfl)
  split at h
  · cases h
  · rename_i i hi
    rw [hi] at hspec
    refine ⟨List.mem_of_getElem? h, ?_⟩
    rcases hspec with h0 | hle
    · cases h0
    · simpa [List.getD_eq_getElem?_getD, h] using hle

/-- The entries of an index are positions of frames of a segment. -/
def SparseIndex.Sound (g : Segment) (x : SparseIndex) : Prop := ∀ e ∈ x.entries, g.FrameAt e.1 e.2

/-- The index files of the segments note positions of frames. -/
def LogDir.IndexesSound (dir : LogDir) (gs : List Segment) : Prop :=
  ∀ g ∈ gs, ∀ x, dir.indexes.get? g.start = some x → x.Sound g

/-- The directory `dir'` is `dir`, but for a sound index file of a segment. -/
def LogDir.Indexed (g : Segment) (dir dir' : LogDir) : Prop :=
  dir'.segments = dir.segments ∧ (dir'.indexes = dir.indexes ∨ ∃ x, x.Sound g ∧ dir'.indexes = dir.indexes.put g.start x)

theorem LogDir.Indexed.sound {g : Segment} {dir dir' : LogDir} (h : LogDir.Indexed g dir dir') {gs : List Segment}
    (huniq : ∀ g' ∈ gs, g'.start = g.start → g' = g) (hs : dir.IndexesSound gs) : dir'.IndexesSound gs := by
  intro g' hg' x hx
  rcases h.2 with heq | ⟨y, hy, heq⟩
  · rw [heq] at hx
    exact hs g' hg' x hx
  · rw [heq, Store.get?_put] at hx
    split at hx
    · rename_i hstart
      cases hx
      rw [huniq g' hg' hstart]
      exact hy
    · exact hs g' hg' x hx

theorem LogDir.Indexed.trans {g : Segment} {a b c : LogDir} (h : LogDir.Indexed g a b) (h' : LogDir.Indexed g b c) :
    LogDir.Indexed g a c := by
  refine ⟨h'.1.trans h.1, ?_⟩
  rcases h'.2 with heq' | ⟨y, hy, heq'⟩
  · rw [heq']
    exact h.2
  · rcases h.2 with heq | ⟨x, _, heq⟩
    · exact Or.inr ⟨y, hy, by rw [heq', heq]⟩
    · refine Or.inr ⟨y, hy, ?_⟩
      rw [heq', heq, Store.put_put]

section Segment

variable {g : Segment} (hf : g.Fits) {dir : LogDir} {file : SegFile} (hget : dir.segments.get? g.start = some file)
  (hbytes : file.written = g.bytes)

include hf hget hbytes

/-- A new index is sound. -/
theorem buildSparseIndex_sound (interval : Nat) :
    (∀ e ∈ (buildSparseIndex interval g.start dir).1, g.FrameAt e.1 e.2) ∧
      LogDir.Indexed g dir (buildSparseIndex interval g.start dir).2 := by
  unfold buildSparseIndex
  rw [hget, Option.bind_some, hbytes]
  cases hx : sparseIndexOf interval g.bytes with
  | none => exact ⟨by simp, rfl, Or.inl rfl⟩
  | some x =>
    have hsound : x.Sound g := sparseIndexOf_sound hf hx
    refine ⟨hsound, ?_⟩
    simp only
    split
    · exact ⟨rfl, Or.inr ⟨x, hsound, rfl⟩⟩
    · exact ⟨rfl, Or.inl rfl⟩

/-- The index that is loaded is sound. -/
theorem loadSparseIndex_sound (interval : Nat) (hs : ∀ x, dir.indexes.get? g.start = some x → x.Sound g) :
    (∀ e ∈ (loadSparseIndex interval g.start dir).1, g.FrameAt e.1 e.2) ∧
      LogDir.Indexed g dir (loadSparseIndex interval g.start dir).2 := by
  have hbuild := buildSparseIndex_sound hf hget hbytes interval
  unfold loadSparseIndex
  rw [hget]
  cases hx : dir.indexes.get? g.start with
  | none => exact hbuild
  | some x =>
    simp only
    split
    · exact ⟨hs x hx, rfl, Or.inl rfl⟩
    · exact hbuild

end Segment

/-! ## One segment -/

/-- The bytes of a segment from a frame on. -/
theorem Segment.drop_bytes {g : Segment} {es rest : List LogEntry} (hg : g.entries = es ++ rest) :
    g.bytes.drop (segmentHeaderSize + entriesSize es) = (framesFrom (g.start + es.length) rest).flatMap Frame.bytes := by
  have hbytes : g.bytes = segmentHeaderBytes g.start g.ts ++ (framesFrom g.start es).flatMap Frame.bytes ++
      (framesFrom (g.start + es.length) rest).flatMap Frame.bytes := by
    rw [Segment.bytes, Segment.frames, hg, framesFrom_append, List.flatMap_append, List.append_assoc]
  rw [hbytes]
  refine List.drop_left' ?_
  rw [List.length_append, length_segmentHeaderBytes, length_flatMap_framesFrom]
  rfl

/-- A segment read from a frame on. -/
theorem Segment.frames_from {limit : Int} {g : Segment} (hf : g.Fits) (hw : g.Within limit) {es rest : List LogEntry}
    (hg : g.entries = es ++ rest) :
    Frames limit logVersion (g.bytes.drop (segmentHeaderSize + entriesSize es)) (framesFrom (g.start + es.length) rest) [] := by
  have hreadable : ∀ f ∈ framesFrom (g.start + es.length) rest, f.Readable limit := by
    intro f hmem
    refine Segment.readable hf hw f ?_
    rw [Segment.frames, hg, framesFrom_append]
    exact List.mem_append_right _ hmem
  rw [Segment.drop_bytes hg]
  simpa using Frames.of_readable (v := logVersion) hreadable []

/-- Frames before one at or below the wanted offset do not matter. -/
theorem Segment.eventsOf_from {g : Segment} {es rest : List LogEntry} (hg : g.entries = es ++ rest) {startOffset : Nat}
    (h : g.start + es.length ≤ startOffset) :
    eventsOf startOffset (framesFrom (g.start + es.length) rest) = eventsOf startOffset g.frames := by
  have hbefore : ∀ f ∈ framesFrom g.start es, f.offset < startOffset := by
    intro f hf
    have hmem : f.offset ∈ (framesFrom g.start es).map Frame.offset := List.mem_map_of_mem hf
    rw [map_offset_framesFrom, List.mem_range'_1] at hmem
    omega
  rw [Segment.frames, hg, framesFrom_append, eventsOf_append, eventsOf_eq_nil hbefore, List.nil_append]

namespace IngestLog

/-- The log `t` is `s` but for index files and the count of damaged frames. -/
def Reads (s t : IngestLog) : Prop :=
  t = { s with dir := { s.dir with indexes := t.dir.indexes }, corruptedFramesCount := t.corruptedFramesCount }

theorem Reads.refl (s : IngestLog) : s.Reads s := rfl

theorem Reads.trans {s t u : IngestLog} (h : s.Reads t) (h' : t.Reads u) : s.Reads u := by
  rw [Reads] at *
  rw [h', h]

theorem reads_setDir {s : IngestLog} {dir : LogDir} (h : dir.segments = s.dir.segments) : s.Reads { s with dir := dir } := by
  obtain ⟨segments, indexes⟩ := dir
  simp only at h
  subst h
  rfl

section ReadSegment

variable {s : IngestLog} {g : Segment} (hf : g.Fits) {file : SegFile} (hget : s.dir.segments.get? g.start = some file)
  (hbytes : file.written = g.bytes) {startOffset : Nat}
  (hs : startOffset ≤ g.start ∨ ∀ x, s.dir.indexes.get? g.start = some x → x.Sound g)

include hf hget hbytes hs

/-- The reading of a segment begins at its first frame, or at a frame at or before the wanted offset. -/
theorem seekSegment_place {rest : Bytes} {sought : Bool} {t : IngestLog}
    (h : s.seekSegment startOffset g.start g.bytes = (rest, sought, t)) :
    (∃ es more, g.entries = es ++ more ∧ (es = [] ∨ g.start + es.length ≤ startOffset) ∧
      rest = g.bytes.drop (segmentHeaderSize + entriesSize es) ∧ (startOffset ≤ g.start → es = [] ∧ sought = false)) ∧
    s.Reads t ∧ LogDir.Indexed g s.dir t.dir := by
  have hfirst : ∃ es more, g.entries = es ++ more ∧ (es = [] ∨ g.start + es.length ≤ startOffset) ∧
      g.bytes.drop segmentHeaderSize = g.bytes.drop (segmentHeaderSize + entriesSize es) ∧
      (startOffset ≤ g.start → es = [] ∧ false = false) :=
    ⟨[], g.entries, rfl, Or.inl rfl, by rw [entriesSize_nil, Nat.add_zero], fun _ => ⟨rfl, rfl⟩⟩
  unfold seekSegment at h
  split at h
  · rename_i hlt
    have hs' : ∀ x, s.dir.indexes.get? g.start = some x → x.Sound g := by
      rcases hs with hle | hs
      · omega
      · exact hs
    obtain ⟨hentries, hindexed⟩ := loadSparseIndex_sound hf hget hbytes s.config.interval hs'
    have hreads : s.Reads { s with dir := (loadSparseIndex s.config.interval g.start s.dir).2 } := reads_setDir hindexed.1
    simp only at h
    split at h
    · cases h
      exact ⟨hfirst, hreads, hindexed⟩
    · rename_i off pos hentry
      obtain ⟨hmem, hle⟩ := indexEntry_spec hentry
      obtain ⟨es, e, more, hg, hoff, hpos⟩ := hentries _ hmem
      split at h
      · cases h
        refine ⟨⟨es, e :: more, hg, Or.inr ?_, ?_, fun hge => absurd hge (by omega)⟩, hreads, hindexed⟩
        · simp only at hoff hle
          omega
        · rw [show pos = segmentHeaderSize + entriesSize es from hpos]
      · cases h
        have hget' : (loadSparseIndex s.config.interval g.start s.dir).2.segments.get? g.start = some file := by
          rw [hindexed.1, hget]
        obtain ⟨_, hindexed'⟩ := buildSparseIndex_sound hf hget' hbytes s.config.interval
        exact ⟨hfirst, reads_setDir (hindexed.trans hindexed').1, hindexed.trans hindexed'⟩
  · cases h
    exact ⟨hfirst, Reads.refl s, rfl, Or.inl rfl⟩

/-- Wherever the reading of a segment begins, frames follow up to its end, and none that matters is left out. -/
theorem seekSegment_spec (hw : g.Within s.config.maxSegmentBytes) {rest : Bytes} {sought : Bool} {t : IngestLog}
    (h : s.seekSegment startOffset g.start g.bytes = (rest, sought, t)) :
    (∃ fs, Frames s.config.maxSegmentBytes logVersion rest fs [] ∧
      eventsOf startOffset fs = eventsOf startOffset g.frames ∧ rest.length ≤ g.bytes.length) ∧
    s.Reads t ∧ LogDir.Indexed g s.dir t.dir := by
  obtain ⟨⟨es, more, hg, hplace, rfl, _⟩, hreads, hindexed⟩ := seekSegment_place hf hget hbytes hs h
  refine ⟨⟨framesFrom (g.start + es.length) more, Segment.frames_from hf hw hg, ?_, by rw [List.length_drop]; omega⟩,
    hreads, hindexed⟩
  rcases hplace with rfl | hle
  · rw [Segment.frames, hg]
    rfl
  · exact Segment.eventsOf_from hg hle

/-- Reading a segment gives the events of its records from the offset on. -/
theorem iterSegment_spec (hw : g.Within s.config.maxSegmentBytes) : (s.iterSegment startOffset g.start g.bytes).1 =
      (g.items.filter (fun i => startOffset ≤ i.offset)).map Item.event ∧
    s.Reads (s.iterSegment startOffset g.start g.bytes).2 ∧
    LogDir.Indexed g s.dir (s.iterSegment startOffset g.start g.bytes).2.dir := by
  have hlen : ¬g.bytes.length < segmentHeaderSize := by
    rw [Segment.length_bytes]
    omega
  have hmagic : segmentMagic g.bytes = logMagic := segmentMagic_header _ _ _
  have hversion : segmentVersion g.bytes = logVersion := segmentVersion_header _ _ _
  unfold iterSegment
  rw [if_neg hlen, if_neg (by simp [hmagic, hversion, supportedLogVersions, logVersion])]
  rcases hseek : s.seekSegment startOffset g.start g.bytes with ⟨rest, sought, t⟩
  obtain ⟨⟨fs, hfs, hev, hrest⟩, hreads, hindexed⟩ := seekSegment_spec hf hget hbytes hs hw hseek
  have hcfg : t.config = s.config := by rw [hreads]
  simp only [hcfg, hversion]
  rw [hfs.iterLoop_eof startOffset g.bytes (2 * g.bytes.length + 2) sought (by omega), hev]
  refine ⟨eventsOf_framesFrom startOffset g.start g.start segmentHeaderSize g.entries, ?_, hindexed⟩
  refine hreads.trans ?_
  rw [← hcfg]
  rfl

end ReadSegment

/-! ## The whole log -/

/-- A chain of segments that ends before an offset has no item from that offset on. -/
theorem items_filter_eq_nil {g : Segment} {startOffset : Nat} (h : g.next ≤ startOffset) :
    g.items.filter (fun i => startOffset ≤ i.offset) = [] := by
  rw [List.filter_eq_nil_iff]
  intro i hi
  have hmem : i.offset ∈ g.items.map Item.offset := List.mem_map_of_mem hi
  rw [Segment.map_offset_items, List.mem_range'_1] at hmem
  simp only [Segment.next] at h
  simp only [decide_eq_true_eq]
  omega

/-- Reading segment files one after the other. -/
theorem iterSegments_spec {s : IngestLog} (startOffset : Nat) {gs : List Segment} {es : List (Nat × SegFile)}
    (hes : es.map (fun e => (e.1, e.2.written)) = gs.map (fun g => (g.start, g.bytes)))
    (hchain : gs.IsChain (fun g g' => g.next = g'.start)) (hf : ∀ g ∈ gs, g.Fits)
    (hw : ∀ g ∈ gs, g.Within s.config.maxSegmentBytes) (hmem : ∀ e ∈ es, s.dir.segments.get? e.1 = some e.2)
    (huniq : ∀ g ∈ gs, ∀ g' ∈ gs, g'.start = g.start → g' = g)
    (hs : (∀ g ∈ gs, startOffset ≤ g.start) ∨ s.dir.IndexesSound gs) :
    (iterSegments startOffset es s).1 =
      ((gs.flatMap Segment.items).filter (fun i => startOffset ≤ i.offset)).map Item.event ∧
    s.Reads (iterSegments startOffset es s).2 ∧
    (∀ all : List Segment, (∀ g ∈ gs, ∀ g' ∈ all, g'.start = g.start → g' = g) → s.dir.IndexesSound all →
      (iterSegments startOffset es s).2.dir.IndexesSound all) := by
  induction gs generalizing es s with
  | nil =>
    rw [List.map_nil, List.map_eq_nil_iff] at hes
    subst hes
    exact ⟨rfl, Reads.refl s, fun _ _ h => h⟩
  | cons g gs ih =>
    cases es with
    | nil => simp at hes
    | cons e es =>
      obtain ⟨k, f⟩ := e
      simp only [List.map_cons, List.cons.injEq, Prod.mk.injEq] at hes
      obtain ⟨⟨rfl, hbytes⟩, hes⟩ := hes
      rw [List.isChain_cons] at hchain
      have hf' : ∀ g' ∈ gs, g'.Fits := fun g' hg' => hf g' (List.mem_cons_of_mem _ hg')
      have hmem' : ∀ e ∈ es, s.dir.segments.get? e.1 = some e.2 := fun e he => hmem e (List.mem_cons_of_mem _ he)
      have huniq' : ∀ g1 ∈ gs, ∀ g2 ∈ gs, g2.start = g1.start → g2 = g1 := fun g1 h1 g2 h2 =>
        huniq g1 (List.mem_cons_of_mem _ h1) g2 (List.mem_cons_of_mem _ h2)
      rw [iterSegments]
      split
      · rename_i hskip
        -- the next segment starts at or before the offset, so this one ends before it
        have hnext : g.next ≤ startOffset := by
          cases es with
          | nil => cases hskip
          | cons e' es =>
            cases gs with
            | nil => simp at hes
            | cons g' gs =>
              simp only [List.map_cons, List.cons.injEq, Prod.mk.injEq] at hes
              rw [hchain.1 g' rfl, ← hes.1.1]
              simpa [nextStartsBy] using hskip
        obtain ⟨hev, hreads, hidx⟩ := ih hes hchain.2 hf' (fun g' hg' => hw g' (List.mem_cons_of_mem _ hg')) hmem' huniq' (by
          rcases hs with hs | hs
          · exact Or.inl (fun g' hg' => hs g' (List.mem_cons_of_mem _ hg'))
          · exact Or.inr (fun g' hg' => hs g' (List.mem_cons_of_mem _ hg')))
        refine ⟨?_, hreads, fun all hall => hidx all (fun g' hg' => hall g' (List.mem_cons_of_mem _ hg'))⟩
        rw [hev, List.flatMap_cons, List.filter_append, items_filter_eq_nil hnext, List.nil_append]
      · have hs' : startOffset ≤ g.start ∨ ∀ x, s.dir.indexes.get? g.start = some x → x.Sound g := by
          rcases hs with hs | hs
          · exact Or.inl (hs g List.mem_cons_self)
          · exact Or.inr (hs g List.mem_cons_self)
        obtain ⟨hev, hreads, hindexed⟩ := iterSegment_spec (hf g List.mem_cons_self) (hmem _ List.mem_cons_self) hbytes hs'
          (hw g List.mem_cons_self)
        rw [← hbytes] at hev hreads hindexed
        rcases hseg : s.iterSegment startOffset g.start f.written with ⟨events, t⟩
        rw [hseg] at hev hreads hindexed
        simp only at hev hreads hindexed ⊢
        have hcfg : t.config = s.config := by rw [hreads]
        obtain ⟨hev', hreads', hidx⟩ := ih (s := t) hes hchain.2 hf'
          (by rw [hcfg]; exact fun g' hg' => hw g' (List.mem_cons_of_mem _ hg')) (by rw [hindexed.1]; exact hmem') huniq' (by
          rcases hs with hs | hs
          · exact Or.inl (fun g' hg' => hs g' (List.mem_cons_of_mem _ hg'))
          · refine Or.inr (hindexed.sound ?_ (fun g' hg' => hs g' (List.mem_cons_of_mem _ hg')))
            exact fun g' hg' => huniq g List.mem_cons_self g' (List.mem_cons_of_mem _ hg'))
        rcases hrest : iterSegments startOffset es t with ⟨more, u⟩
        rw [hrest] at hev' hreads' hidx
        refine ⟨?_, hreads.trans hreads', ?_⟩
        · simp only at hev' ⊢
          rw [hev, hev', List.flatMap_cons, List.filter_append, List.map_append]
        · intro all hall hsound
          refine hidx all (fun g' hg' => hall g' (List.mem_cons_of_mem _ hg')) (hindexed.sound ?_ hsound)
          exact hall g List.mem_cons_self

/-- The segments of a layout that a log represents have names of their own. -/
theorem Represents.unique {s : IngestLog} {L : Layout} (h : s.Represents L) :
    ∀ g ∈ L.segments, ∀ g' ∈ L.segments, g'.start = g.start → g' = g := by
  have hsorted : (L.segments.map Segment.start).Pairwise (· < ·) := by
    have hmap : s.dir.segments.entries.map (·.1) = L.segments.map Segment.start := by
      have := congrArg (List.map Prod.fst) h.contents
      simpa [IngestLog.contents, Layout.files, List.map_map, Function.comp_def] using this
    rw [← hmap, List.pairwise_map]
    exact s.dir.segments.sorted
  have hnodup : (L.segments.map Segment.start).Nodup := hsorted.imp (fun hlt => Nat.ne_of_lt hlt)
  exact fun g hg g' hg' heq => List.inj_on_of_nodup_map hnodup hg' hg heq

/-- A flush that does not fail writes the buffer out and keeps the layout. -/
theorem flush_spec {s : IngestLog} {L : Layout} (h : s.Represents L) (now : UInt64) :
    (s.flush .ok true now).1 = .ok () ∧ (s.flush .ok true now).2.Represents L ∧ (s.flush .ok true now).2.Drained L ∧
      (s.flush .ok true now).2.config = s.config ∧ (s.flush .ok true now).2.dir.indexes = s.dir.indexes ∧
      (s.flush .ok true now).2.isPoisoned = s.isPoisoned ∧
      (s.flush .ok true now).2.groupCommitFlushing = s.groupCommitFlushing := by
  unfold flush
  split
  · rename_i hcur
    exact ⟨rfl, h, ⟨files_of_contents h.contents (by simp [hcur]), by simp [hcur]⟩, rfl, rfl, rfl, rfl⟩
  · rename_i f hcur
    obtain ⟨hstart, hsegstart, hbytes, hclosed⟩ := h.current f hcur
    split
    · rename_i hc
      refine ⟨rfl, h, ⟨files_of_contents h.contents ?_, ?_⟩, rfl, rfl, rfl, rfl⟩
      · rintro f' hf'
        rw [hcur, Option.some.injEq] at hf'
        rw [← hf', (hclosed hc).2]
      · rintro f' hf'
        rw [hcur, Option.some.injEq] at hf'
        rw [← hf']
        exact ⟨hstart, (hclosed hc).2⟩
    · rename_i hc
      rw [Bool.not_eq_true] at hc
      have hhold : s.Holds L [] f := ⟨by rw [h.contents, filesWith_nil], hcur, hstart, hc⟩
      obtain ⟨hok, f', hflush, hbuf⟩ := hhold.fileFlush .ok
      have hkeep := s.keeps_fileFlush .ok
      split
      · rename_i heq
        rw [heq] at hok
        cases hok
      · rename_i t heq
        rw [heq] at hflush hkeep
        obtain ⟨hok', hsync⟩ := Holds.fileFsync (s := { t with bytesSinceFlush := 0 })
          ⟨hflush.contents, hflush.current, hflush.start, hflush.isOpen⟩ true
        have hkeep' := keeps_fileFsync { t with bytesSinceFlush := 0 } true
        split
        · rename_i heq'
          rw [heq'] at hok'
          cases hok'
        · rename_i u heq'
          rw [heq'] at hsync hkeep'
          have hhold' : ({ u with
              bytesSinceFsync := 0
              lastFsyncTs := now
              syncedOffset := (u.nextOffset : Int) - 1
              pendingSyncOffset := (u.nextOffset : Int) - 1 } : IngestLog).Holds L [] f' :=
            ⟨hsync.contents, hsync.current, hsync.start, hsync.isOpen⟩
          refine ⟨rfl, hhold'.represents ?_ ?_ ?_, hhold'.drained (hbuf rfl), ?_, ?_, ?_, ?_⟩
          · exact hkeep'.nextOffset.trans (hkeep.nextOffset.trans h.next)
          · exact hkeep'.currentSegmentStartOffset.trans (hkeep.currentSegmentStartOffset.trans hsegstart)
          · exact hkeep'.currentSegmentBytes.trans (hkeep.currentSegmentBytes.trans hbytes)
          · exact hkeep'.config.trans hkeep.config
          · exact hkeep'.indexes.trans hkeep.indexes
          · exact hkeep'.isPoisoned.trans hkeep.isPoisoned
          · exact hkeep'.groupCommitFlushing.trans hkeep.groupCommitFlushing

/-- The first segment file is that of the first segment. -/
theorem earliestOffset_eq {s : IngestLog} {L : Layout} (h : s.Represents L) :
    s.earliestOffset = L.first ∧ s.dir.segments.entries ≠ [] := by
  have hc : s.dir.segments.entries.map (·.1) = L.segments.map Segment.start := by
    have := congrArg (List.map Prod.fst) h.contents
    simpa [IngestLog.contents, Layout.files, List.map_map, Function.comp_def] using this
  unfold earliestOffset Layout.first
  rw [Layout.segments] at hc
  cases hentries : s.dir.segments.entries with
  | nil =>
    rw [hentries] at hc
    simp at hc
  | cons e es =>
    rw [hentries, List.map_cons] at hc
    refine ⟨?_, by simp⟩
    cases hsealed : L.sealed with
    | nil =>
      rw [hsealed] at hc
      simp only [List.nil_append, List.map_cons, List.cons.injEq] at hc
      exact hc.1
    | cons g gs =>
      rw [hsealed] at hc
      simp only [List.cons_append, List.map_cons, List.cons.injEq] at hc
      exact hc.1

/-- Reading changes nothing of what is represented. -/
theorem Reads.represents {s t : IngestLog} {L : Layout} (h : s.Reads t) (hs : s.Represents L) : t.Represents L := by
  rw [h]
  exact ⟨hs.contents, hs.next, hs.current⟩

/-- Reading a log from an offset that it still has gives the events of its records from that offset on. -/
theorem iterFrom_spec {s : IngestLog} {L : Layout} (h : s.Represents L) (hw : L.Within s.config.maxSegmentBytes)
    {start : Nat} (hstart : L.first ≤ start) (now : UInt64)
    (hs : start = L.first ∨ s.dir.IndexesSound L.segments) :
    (s.iterFrom start now).1 = .ok ((L.items.filter (fun i => start ≤ i.offset)).map Item.event) ∧
      (s.iterFrom start now).2.Represents L ∧ (s.iterFrom start now).2.config = s.config ∧
      (s.iterFrom start now).2.isPoisoned = s.isPoisoned ∧
      (s.iterFrom start now).2.groupCommitFlushing = s.groupCommitFlushing ∧
      (s.dir.IndexesSound L.segments → (s.iterFrom start now).2.dir.IndexesSound L.segments) := by
  obtain ⟨_, hrep, hdrained, hcfg, hidx, hpois, hfl⟩ := flush_spec h now
  unfold iterFrom
  simp only [Int.toNat_natCast]
  generalize (s.flush .ok true now).2 = t at *
  obtain ⟨hearliest, _⟩ := earliestOffset_eq hrep
  rw [if_neg (by rw [hearliest]; omega)]
  obtain ⟨hev, hreads, hsound⟩ := iterSegments_spec (s := t) start hdrained.files L.chain L.fits
    (by rw [hcfg]; exact hw) (fun e he => Store.get?_of_mem he) hrep.unique (by
      rcases hs with hs | hs
      · rw [hs]
        exact Or.inl L.first_le
      · refine Or.inr ?_
        unfold LogDir.IndexesSound at hs ⊢
        rw [hidx]
        exact hs)
  refine ⟨by rw [hev]; rfl, hreads.represents hrep, ?_, ?_, ?_, ?_⟩
  · rw [hreads]
    exact hcfg
  · rw [hreads]
    exact hpois
  · rw [hreads]
    exact hfl
  · intro hs'
    refine hsound L.segments hrep.unique ?_
    unfold LogDir.IndexesSound at hs' ⊢
    rw [hidx]
    exact hs'

end IngestLog

end Mdrap
