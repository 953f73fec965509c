import Mdrap.Lemmas.Open
import Mdrap.Lemmas.Read

/-!
# Opening and reading files of any content

A file of any bytes behind its header is frames up to a point (`wholeFrames`), and what stands there decides whether it is
refused. A directory without a refused file is opened with the whole frames of its files, and reading it gives their events.
-/

namespace Mdrap

open Lib

/-! ## One file -/

/-- The frames that are read one behind the other from the start of some bytes, and the bytes that are left. -/
def wholeFrames (limit : Int) (v : Nat) : Nat → Bytes → List Frame × Bytes
  | 0, b => ([], b)
  | n + 1, b =>
    match readFrame limit v b with
    | .frame f r => (f :: (wholeFrames limit v n r).1, (wholeFrames limit v n r).2)
    | _ => ([], b)

/-- The whole frames of a segment file, whatever it holds. -/
def fileFrames (limit : Int) (b : Bytes) : List Frame :=
  (wholeFrames limit (segmentVersion b) (b.length + 1) (b.drop segmentHeaderSize)).1

/-- What stands behind the whole frames of a segment file. -/
def fileTail (limit : Int) (b : Bytes) : Bytes :=
  (wholeFrames limit (segmentVersion b) (b.length + 1) (b.drop segmentHeaderSize)).2

/-- A segment file with a bad header, or with something behind its whole frames that is no torn tail. -/
def Refused (limit : Int) (b : Bytes) : Prop :=
  segmentHeaderSize ≤ b.length ∧
    (checkSegmentHeader (b.take segmentHeaderSize) ≠ .ok () ∨ ¬TornTail limit (segmentVersion b) (fileTail limit b))

theorem wholeFrames_spec (limit : Int) (v n : Nat) (b : Bytes) (hn : b.length < n) :
    Frames limit v b (wholeFrames limit v n b).1 (wholeFrames limit v n b).2 ∧
      ∀ f r, readFrame limit v (wholeFrames limit v n b).2 ≠ .frame f r := by
  induction n generalizing b with
  | zero => omega
  | succ n ih =>
    rw [wholeFrames]
    cases hread : readFrame limit v b with
    | frame f r =>
      obtain ⟨chunk, rfl, hlen, _⟩ := readFrame_frame hread
      rw [List.length_append] at hn
      obtain ⟨hfs, hmax⟩ := ih r (by omega)
      exact ⟨.cons hread hfs, hmax⟩
    | eof | tornHeader | badMagic _ | oversized _ | tornPayload | badCrc _ _ _ _ =>
      refine ⟨.nil b, ?_⟩
      intro f r h
      rw [hread] at h
      cases h

/-- The frames of a file and its tail. -/
theorem frames_file (limit : Int) (b : Bytes) :
    Frames limit (segmentVersion b) (b.drop segmentHeaderSize) (fileFrames limit b) (fileTail limit b) ∧
      ∀ f r, readFrame limit (segmentVersion b) (fileTail limit b) ≠ .frame f r :=
  wholeFrames_spec limit (segmentVersion b) (b.length + 1) (b.drop segmentHeaderSize) (by rw [List.length_drop]; omega)

/-- The repair loop raises before a tail that is neither a frame nor torn. -/
theorem repairLoop_refused {limit : Int} {v : Nat} {t : Bytes} (hmax : ∀ f r, readFrame limit v t ≠ .frame f r)
    (ht : ¬TornTail limit v t) (n pos : Nat) (hi : Int) (hn : t.length < n) :
    ∃ e, repairLoop limit v n t pos hi = .error e := by
  obtain ⟨n, rfl⟩ : ∃ n', n = n' + 1 := ⟨n - 1, by omega⟩
  unfold TornTail at ht
  rw [repairLoop]
  cases hread : readFrame limit v t with
  | eof | tornHeader | tornPayload =>
    rw [hread] at ht
    exact absurd trivial ht
  | badMagic hd =>
    rw [hread] at ht
    exact ⟨_, by simp only [ht, if_false]; rfl⟩
  | badCrc f e a rest =>
    rw [hread] at ht
    exact ⟨_, by simp only [ht, if_false]; rfl⟩
  | oversized hd => exact ⟨_, rfl⟩
  | frame f r => exact absurd hread (hmax f r)

/-- Repair of a file of any content. -/
theorem verifyAndRepairSegment_any (limit : Int) (f : SegFile) :
    (f.written.length < segmentHeaderSize → verifyAndRepairSegment limit f = .ok (none, ⟨0, -1, 0⟩)) ∧
    (Refused limit f.written → ∃ e, verifyAndRepairSegment limit f = .error e) ∧
    (segmentHeaderSize ≤ f.written.length → ¬Refused limit f.written → ∃ d k, verifyAndRepairSegment limit f =
      .ok (some ⟨f.written.take (segmentHeaderSize + framesSize (fileFrames limit f.written)), d⟩,
        ⟨segmentHeaderSize + framesSize (fileFrames limit f.written), highestOf (-1) (fileFrames limit f.written), k⟩)) := by
  obtain ⟨hframes, hmax⟩ := frames_file limit f.written
  obtain ⟨m, hm, hloop⟩ := hframes.repairLoop (f.written.length + 1) segmentHeaderSize (-1) (by
    rw [List.length_drop]
    omega)
  refine ⟨fun hlen => by rw [verifyAndRepairSegment, if_pos hlen], ?_, ?_⟩
  · rintro ⟨hlen, hbad⟩
    rw [verifyAndRepairSegment, if_neg (by omega)]
    cases hhdr : checkSegmentHeader (f.written.take segmentHeaderSize) with
    | error e => exact ⟨e, rfl⟩
    | ok x =>
      rcases hbad with hbad | hbad
      · exact absurd hhdr hbad
      · obtain ⟨e, he⟩ := repairLoop_refused hmax hbad m (segmentHeaderSize + framesSize (fileFrames limit f.written))
          (highestOf (-1) (fileFrames limit f.written)) hm
        rw [hloop, he]
        exact ⟨e, rfl⟩
  · intro hlen hgood
    rw [Refused, not_and, not_or, not_not, not_not] at hgood
    obtain ⟨hhdr, htail⟩ := hgood hlen
    obtain ⟨k, hk⟩ := repairLoop_tornTail htail m (segmentHeaderSize + framesSize (fileFrames limit f.written))
      (highestOf (-1) (fileFrames limit f.written)) hm
    rw [verifyAndRepairSegment, if_neg (by omega), hhdr, hloop, hk]
    exact ⟨_, k, rfl⟩

/-- A file with a sound header that is whole frames up to its end. -/
structure CleanFile (limit : Int) (b : Bytes) : Prop where
  header : segmentHeaderSize ≤ b.length
  magic : segmentMagic b = logMagic
  version : segmentVersion b ∈ supportedLogVersions
  tail : fileTail limit b = []

/-- Frames up to something that is none are the whole frames. -/
theorem Frames.wholeFrames {limit : Int} {v : Nat} {b t : Bytes} {fs : List Frame} (h : Frames limit v b fs t)
    (hmax : ∀ f r, readFrame limit v t ≠ .frame f r) (n : Nat) (hn : b.length < n) :
    Mdrap.wholeFrames limit v n b = (fs, t) := by
  induction h generalizing n with
  | nil b =>
    obtain ⟨n, rfl⟩ : ∃ n', n = n' + 1 := ⟨n - 1, by omega⟩
    rw [Mdrap.wholeFrames]
    split
    · rename_i f r hread
      exact absurd hread (hmax f r)
    · rfl
  | @cons b r t f fs hread _ ih =>
    obtain ⟨chunk, rfl, hlen, _⟩ := readFrame_frame hread
    rw [List.length_append] at hn
    obtain ⟨n, rfl⟩ : ∃ n', n = n' + 1 := ⟨n - 1, by omega⟩
    rw [Mdrap.wholeFrames, hread]
    simp only
    rw [ih hmax n (by omega)]

theorem readFrame_nil_ne (limit : Int) (v : Nat) (f : Frame) (r : Bytes) : readFrame limit v [] ≠ .frame f r := by
  simp [readFrame]

/-- The whole frames of a segment of the log with a torn tail behind it are its frames. -/
theorem fileFrames_append {limit : Int} {g : Segment} (hf : g.Fits) (hw : g.Within limit) {t : Bytes}
    (ht : TornTail limit logVersion t) : fileFrames limit (g.bytes ++ t) = g.frames := by
  have hdrop : (g.bytes ++ t).drop segmentHeaderSize = g.frames.flatMap Frame.bytes ++ t := by
    rw [Segment.bytes, List.append_assoc]
    exact List.drop_left' (by simp [segmentHeaderSize])
  have hversion : segmentVersion (g.bytes ++ t) = logVersion := by
    rw [Segment.bytes, List.append_assoc, segmentVersion_header]
  have hmax : ∀ f r, readFrame limit logVersion t ≠ .frame f r := by
    intro f r hread
    rw [TornTail, hread] at ht
    exact ht
  have hwhole := (Frames.of_readable (Segment.readable hf hw) t).wholeFrames hmax ((g.bytes ++ t).length + 1) (by
    rw [← hdrop, List.length_drop]
    omega)
  rw [fileFrames, hversion, hdrop, hwhole]

/-- What repair leaves of a file is clean and has its whole frames. -/
theorem cleanFile_repaired {limit : Int} {b : Bytes} (hlen : segmentHeaderSize ≤ b.length) (h : ¬Refused limit b) :
    CleanFile limit (b.take (segmentHeaderSize + framesSize (fileFrames limit b))) ∧
      fileFrames limit (b.take (segmentHeaderSize + framesSize (fileFrames limit b))) = fileFrames limit b := by
  rw [Refused, not_and, not_or, not_not] at h
  obtain ⟨hhdr, _⟩ := h hlen
  generalize hn : segmentHeaderSize + framesSize (fileFrames limit b) = n
  have htake : ∀ m, m ≤ segmentHeaderSize → (b.take n).take m = b.take m := by
    intro m hm
    rw [List.take_take, Nat.min_eq_left (by omega)]
  have hversion : segmentVersion (b.take n) = segmentVersion b := by
    rw [segmentVersion, segmentVersion, List.take_drop, List.take_drop, htake _ (by decide)]
  have hmagic : segmentMagic (b.take n) = segmentMagic b := htake 8 (by decide)
  have hhead : segmentMagic b = logMagic ∧ segmentVersion b ∈ supportedLogVersions := by
    have h8 : segmentMagic (b.take segmentHeaderSize) = segmentMagic b := by
      rw [segmentMagic, segmentMagic, List.take_take]
      rfl
    have h10 : segmentVersion (b.take segmentHeaderSize) = segmentVersion b := by
      rw [segmentVersion, segmentVersion, List.take_drop, List.take_drop, List.take_take]
      rfl
    unfold checkSegmentHeader at hhdr
    rw [h8, h10] at hhdr
    split at hhdr
    · cases hhdr
    · rename_i hok
      rw [not_or, not_not, not_not] at hok
      exact hok
  have hframes := (frames_file limit b).1.take []
  have hdrop : (b.take n).drop segmentHeaderSize = (b.drop segmentHeaderSize).take (framesSize (fileFrames limit b)) := by
    rw [List.drop_take, ← hn, Nat.add_sub_cancel_left]
  rw [List.append_nil, ← hdrop, ← hversion] at hframes
  have hwhole := hframes.wholeFrames (readFrame_nil_ne limit _) ((b.take n).length + 1) (by rw [List.length_drop]; omega)
  have hsize := (frames_file limit b).1.length_eq
  rw [List.length_drop] at hsize
  refine ⟨⟨?_, by rw [hmagic, hhead.1], by rw [hversion]; exact hhead.2, by rw [fileTail, hwhole]⟩, by rw [fileFrames, hwhole]⟩
  rw [List.length_take]
  omega

/-- Reading a clean file that starts at or behind the offset gives the events of its frames. -/
theorem IngestLog.iterSegment_clean {s : IngestLog} {startOffset start : Nat} {b : Bytes}
    (h : CleanFile s.config.maxSegmentBytes b) (hstart : startOffset ≤ start) :
    (s.iterSegment startOffset start b).1 = eventsOf startOffset (fileFrames s.config.maxSegmentBytes b) ∧
      (s.iterSegment startOffset start b).2.config = s.config := by
  have hframes := (frames_file s.config.maxSegmentBytes b).1
  rw [h.tail] at hframes
  unfold iterSegment seekSegment
  rw [if_neg (by have := h.header; omega), if_neg (by simp [h.magic, h.version]), if_neg (by omega)]
  simp only
  rw [hframes.iterLoop_eof startOffset b (2 * b.length + 2) false (by rw [List.length_drop]; omega)]
  exact ⟨rfl, trivial⟩

/-- Reading clean files in order from an offset at or before the first of them gives the events of all their frames. -/
theorem IngestLog.iterSegments_clean {s : IngestLog} {startOffset : Nat} {es : List (Nat × SegFile)}
    (hsorted : es.Pairwise (fun e e' => e.1 < e'.1)) (hstart : ∀ e ∈ es, startOffset ≤ e.1)
    (h : ∀ e ∈ es, CleanFile s.config.maxSegmentBytes e.2.written) :
    (iterSegments startOffset es s).1 =
      eventsOf startOffset (es.flatMap (fun e => fileFrames s.config.maxSegmentBytes e.2.written)) := by
  induction es generalizing s with
  | nil => rfl
  | cons e es ih =>
    obtain ⟨k, f⟩ := e
    rw [List.pairwise_cons] at hsorted
    have hk : startOffset ≤ k := hstart (k, f) List.mem_cons_self
    have hnext : nextStartsBy startOffset es = false := by
      cases es with
      | nil => rfl
      | cons e' es =>
        have hlt := hsorted.1 e' List.mem_cons_self
        simp only [nextStartsBy, decide_eq_false_iff_not]
        omega
    obtain ⟨hev, hcfg⟩ := iterSegment_clean (h (k, f) List.mem_cons_self) hk
    rw [iterSegments, hnext, if_neg Bool.false_ne_true]
    simp only
    rw [ih hsorted.2 (fun e he => hstart e (List.mem_cons_of_mem _ he)) (by
      rw [hcfg]
      exact fun e he => h e (List.mem_cons_of_mem _ he)), hev, hcfg, List.flatMap_cons, eventsOf_append]

/-! ## A whole directory -/

/-- The segment files that are long enough for a header. -/
def LogDir.kept (dir : LogDir) : List (Nat × SegFile) :=
  dir.segments.entries.filter (fun e => segmentHeaderSize ≤ e.2.written.length)

/-- The whole frames of the segment files, in order. -/
def LogDir.frames (limit : Int) (dir : LogDir) : List Frame := dir.kept.flatMap (fun e => fileFrames limit e.2.written)

/-- The offset in the name of the first file that is long enough for a header. -/
def LogDir.firstOffset (dir : LogDir) : Nat :=
  match dir.kept with
  | [] => 0
  | e :: _ => e.1

theorem highestOf_max (a b : Int) (fs : List Frame) : highestOf (max a b) fs = max a (highestOf b fs) := by
  induction fs generalizing b with
  | nil => rfl
  | cons f fs ih =>
    simp only [highestOf, List.foldl_cons] at ih ⊢
    rw [Int.max_assoc, ih]

theorem highestOf_eq_max {h : Int} (hlow : -1 ≤ h) (fs : List Frame) : highestOf h fs = max h (highestOf (-1) fs) := by
  rw [← highestOf_max, Int.max_eq_left hlow]

/-- What repair makes of the files of a directory none of which is refused. -/
theorem repairedFile_kept {limit : Int} {es : List (Nat × SegFile)} (h : ∀ e ∈ es, ¬Refused limit e.2.written) :
    (es.filterMap (repairedFile limit)).map (fun e => (e.1, e.2.written)) =
      (es.filter (fun e => segmentHeaderSize ≤ e.2.written.length)).map (fun e =>
        (e.1, e.2.written.take (segmentHeaderSize + framesSize (fileFrames limit e.2.written)))) ∧
    ∀ hi : Int, -1 ≤ hi → highestRepaired limit hi es = highestOf hi
      ((es.filter (fun e => segmentHeaderSize ≤ e.2.written.length)).flatMap (fun e => fileFrames limit e.2.written)) := by
  induction es with
  | nil => exact ⟨rfl, fun _ _ => rfl⟩
  | cons e es ih =>
    obtain ⟨hfiles, hhigh⟩ := ih (fun e' he' => h e' (List.mem_cons_of_mem _ he'))
    obtain ⟨hshort, _, hgood⟩ := verifyAndRepairSegment_any limit e.2
    by_cases hlen : segmentHeaderSize ≤ e.2.written.length
    · obtain ⟨d, k, hrep⟩ := hgood hlen (h e List.mem_cons_self)
      rw [List.filter_cons_of_pos (by simpa using hlen)]
      refine ⟨?_, ?_⟩
      · rw [List.filterMap_cons_some (by simp only [repairedFile, hrep]; rfl), List.map_cons, List.map_cons, hfiles]
      · intro hi hlow
        have hmax := highestOf_eq_max hlow (fileFrames limit e.2.written)
        rw [highestRepaired, List.foldl_cons, ← highestRepaired, repairedHighest, hrep]
        simp only
        rw [← hmax, hhigh _ (by rw [hmax]; omega), List.flatMap_cons]
        simp [highestOf]
    · have hrep := hshort (by omega)
      rw [List.filter_cons_of_neg (by simpa using hlen)]
      refine ⟨?_, ?_⟩
      · rw [List.filterMap_cons_none (by simp only [repairedFile, hrep]), hfiles]
      · intro hi hlow
        rw [highestRepaired, List.foldl_cons, ← highestRepaired, repairedHighest, hrep]
        simp only
        rw [Int.max_eq_left hlow, hhigh hi hlow]

namespace IngestLog

/-- Files whose bytes stay the same. -/
theorem files_setWritten (s : IngestLog) (start : Nat) {g : SegFile → SegFile} (hg : ∀ f, (g f).written = f.written) :
    (s.setWritten start g).dir.files = s.dir.files := by
  unfold setWritten
  split
  · rfl
  · rename_i file hget
    obtain ⟨l, r, hlr⟩ := List.append_of_mem ((s.dir.segments.get?_eq_some_iff start file).mp hget)
    simp only [LogDir.files, Store.entries_put_middle hlr, hlr, List.map_append, List.map_cons, hg]

/-- A flush of an empty buffer changes no byte. -/
theorem files_flush {s : IngestLog} {k : Nat} (h : s.current = some ⟨k, [], false⟩) (now : UInt64) :
    (s.flush .ok true now).2.dir.files = s.dir.files ∧ (s.flush .ok true now).2.config = s.config := by
  obtain ⟨t, hflush, hcur, hfiles, hcfg⟩ : ∃ t, s.fileFlush .ok = (true, t) ∧ t.current = some ⟨k, [], false⟩ ∧
      t.dir.files = s.dir.files ∧ t.config = s.config := by
    refine ⟨_, fileFlush_open h rfl .ok, rfl, s.files_setWritten k (fun f => List.append_nil f.written), ?_⟩
    exact (s.keeps_setWritten k _).config
  rw [flush, h]
  simp only [Bool.false_eq_true, if_false, hflush]
  have hcur' : ({ t with bytesSinceFlush := 0 } : IngestLog).current = some ⟨k, [], false⟩ := hcur
  rw [fileFsync_open hcur' rfl]
  simp only [if_true]
  refine ⟨Eq.trans (files_setWritten _ k ?_) hfiles, (keeps_setWritten _ k _).config.trans hcfg⟩
  exact fun f => rfl

theorem earliestOffset_files (s : IngestLog) : s.earliestOffset = (s.dir.files.head?.map Prod.fst).getD 0 := by
  unfold earliestOffset LogDir.files
  cases s.dir.segments.entries <;> rfl

/-- A directory without a refused file is opened with the whole frames of its files. -/
theorem openLog_any {cfg : LogConfig} {dir : LogDir} (h : ∀ e ∈ dir.segments.entries, ¬Refused cfg.maxSegmentBytes e.2.written)
    (now ts : UInt64) :
    ∃ s k, openLog cfg dir now ts = .ok s ∧ s.config = cfg ∧ s.current = some ⟨k, [], false⟩ ∧
      s.nextOffset = (highestOf (-1) (dir.frames cfg.maxSegmentBytes) + 1).toNat ∧ s.earliestOffset = dir.firstOffset ∧
      (∀ e ∈ s.dir.files, CleanFile cfg.maxSegmentBytes e.2) ∧
      s.dir.files.flatMap (fun e => fileFrames cfg.maxSegmentBytes e.2) = dir.frames cfg.maxSegmentBytes := by
  obtain ⟨hfiles, hhigh⟩ := repairedFile_kept h
  have hhigh := hhigh (-1) (Int.le_refl _)
  have hall : ∀ e ∈ dir.segments.entries, ∃ x, verifyAndRepairSegment cfg.maxSegmentBytes e.2 = .ok x := by
    intro e he
    obtain ⟨hshort, _, hgood⟩ := verifyAndRepairSegment_any cfg.maxSegmentBytes e.2
    by_cases hlen : segmentHeaderSize ≤ e.2.written.length
    · obtain ⟨d, k, hrep⟩ := hgood hlen (h e he)
      exact ⟨_, hrep⟩
    · exact ⟨_, hshort (by omega)⟩
  by_cases hkept : dir.kept = []
  · -- no file is left, and a new segment is started
    have hframes : dir.frames cfg.maxSegmentBytes = [] := by rw [LogDir.frames, hkept, List.flatMap_nil]
    have hnone : dir.segments.entries.filterMap (repairedFile cfg.maxSegmentBytes) = [] := by
      rw [← LogDir.kept, hkept, List.map_nil, List.map_eq_nil_iff] at hfiles
      exact hfiles
    rw [← LogDir.kept, ← LogDir.frames, hframes] at hhigh
    obtain ⟨s, hopen, hopened⟩ := openLog_empty cfg now ts dir hnone hhigh hall
    have hbytes : (Layout.initial 0 ts).files = [(0, segmentHeaderBytes 0 ts)] := by
      simp [Layout.files, Layout.segments, Layout.initial, Segment.bytes, Segment.frames, framesFrom]
    have hdrop : (segmentHeaderBytes 0 ts).drop segmentHeaderSize = [] :=
      List.drop_of_length_le (by rw [length_segmentHeaderBytes]; exact Nat.le_refl _)
    have hwhole := (Frames.nil []).wholeFrames (readFrame_nil_ne cfg.maxSegmentBytes (segmentVersion (segmentHeaderBytes 0 ts)))
      ((segmentHeaderBytes 0 ts).length + 1) (Nat.succ_pos _)
    refine ⟨s, 0, hopen, hopened.config, hopened.current, ?_, ?_, ?_, ?_⟩
    · rw [hopened.represents.next, hframes]
      rfl
    · rw [(earliestOffset_eq hopened.represents).1, LogDir.firstOffset, hkept]
      rfl
    · rw [hopened.files, hbytes]
      intro e he
      rw [List.mem_singleton.mp he]
      have hmagic := segmentMagic_header 0 ts []
      have hversion := segmentVersion_header 0 ts []
      rw [List.append_nil] at hmagic hversion
      refine ⟨by simp [segmentHeaderSize], hmagic, by rw [hversion]; decide, ?_⟩
      rw [fileTail, hdrop, hwhole]
    · rw [hopened.files, hbytes, hframes, List.flatMap_singleton, fileFrames, hdrop, hwhole]
  · rcases recoverSegments_spec cfg dir.segments.entries dir (-1) 0 [] rfl with
      ⟨dir', n', hrec, hdir', _⟩ | ⟨e, he, reason, herr, _⟩
    · rw [List.nil_append] at hdir'
      have hfiles' : dir'.files = dir.kept.map (fun e =>
          (e.1, e.2.written.take (segmentHeaderSize + framesSize (fileFrames cfg.maxSegmentBytes e.2.written)))) := by
        rw [LogDir.files, hdir', hfiles]
        rfl
      have hne : dir'.segments.entries ≠ [] := by
        intro hnil
        rw [LogDir.files, hnil, List.map_nil, eq_comm, List.map_eq_nil_iff] at hfiles'
        exact hkept hfiles'
      have hlast : dir'.segments.entries.getLast? ≠ none := by
        rw [Ne, List.getLast?_eq_none_iff]
        exact hne
      obtain ⟨⟨k, f⟩, hkf⟩ := Option.ne_none_iff_exists'.mp hlast
      have hgood : ∀ e ∈ dir.kept, segmentHeaderSize ≤ e.2.written.length ∧ ¬Refused cfg.maxSegmentBytes e.2.written := by
        intro e he
        rw [LogDir.kept, List.mem_filter, decide_eq_true_eq] at he
        exact ⟨he.2, h e he.1⟩
      rw [openLog, recoverAndOpen, hrec, hhigh]
      simp only [hkf, Except.map]
      refine ⟨_, k, rfl, rfl, rfl, rfl, ?_, ?_, ?_⟩
      · rw [earliestOffset_files]
        simp only [fresh]
        rw [hfiles', LogDir.firstOffset]
        cases dir.kept <;> rfl
      · simp only [fresh]
        rw [hfiles']
        intro e he
        obtain ⟨e', he', rfl⟩ := List.mem_map.mp he
        exact (cleanFile_repaired (hgood e' he').1 (hgood e' he').2).1
      · simp only [fresh]
        rw [hfiles', List.flatMap_map, LogDir.frames]
        refine List.flatMap_congr ?_
        intro e he
        exact (cleanFile_repaired (hgood e he).1 (hgood e he).2).2
    · obtain ⟨x, hx⟩ := hall e he
      rw [herr] at hx
      cases hx

/-- A directory with a refused file is not opened. -/
theorem openLog_refused {cfg : LogConfig} {dir : LogDir} {e : Nat × SegFile} (he : e ∈ dir.segments.entries)
    (h : Refused cfg.maxSegmentBytes e.2.written) (now ts : UInt64) :
    ∃ start reason, openLog cfg dir now ts = .error (.corrupt start reason) := by
  rcases recoverSegments_spec cfg dir.segments.entries dir (-1) 0 [] rfl with
    ⟨dir', n', _, _, hall⟩ | ⟨e', _, reason, _, hrec⟩
  · obtain ⟨x, hx⟩ := hall e he
    obtain ⟨err, herr⟩ := (verifyAndRepairSegment_any cfg.maxSegmentBytes e.2).2.1 h
    rw [herr] at hx
    cases hx
  · rw [openLog, recoverAndOpen, hrec]
    exact ⟨e'.1, reason, rfl⟩

/-- Reading an opened log of clean files from its earliest offset gives the events of all their frames. -/
theorem iterFrom_clean {s : IngestLog} {k : Nat} (hcur : s.current = some ⟨k, [], false⟩)
    (hclean : ∀ e ∈ s.dir.files, CleanFile s.config.maxSegmentBytes e.2) (now : UInt64) :
    (s.iterFrom s.earliestOffset now).1 = .ok (eventsOf s.earliestOffset
      (s.dir.files.flatMap (fun e => fileFrames s.config.maxSegmentBytes e.2))) := by
  obtain ⟨hfiles, hcfg⟩ := files_flush hcur now
  unfold iterFrom
  simp only [Int.toNat_natCast]
  generalize (s.flush .ok true now).2 = t at *
  have hsame : t.earliestOffset = s.earliestOffset := by rw [earliestOffset_files, earliestOffset_files, hfiles]
  rw [if_neg (by rw [hsame]; omega), ← hsame]
  simp only
  have hclean' : ∀ e ∈ t.dir.segments.entries, CleanFile t.config.maxSegmentBytes e.2.written := by
    intro e he
    rw [hcfg]
    refine hclean (e.1, e.2.written) ?_
    rw [← hfiles]
    exact List.mem_map_of_mem he
  rw [iterSegments_clean t.dir.segments.sorted ?_ hclean', ← hfiles, LogDir.files, List.flatMap_map, hcfg]
  intro e he
  have hs := t.dir.segments.sorted
  unfold earliestOffset
  cases hentries : t.dir.segments.entries with
  | nil =>
    rw [hentries] at he
    cases he
  | cons e0 es =>
    rw [hentries] at he hs
    rcases List.mem_cons.mp he with rfl | he
    · exact Nat.le_refl _
    · exact Nat.le_of_lt ((List.pairwise_cons.mp hs).1 e he)

end IngestLog

end Mdrap
