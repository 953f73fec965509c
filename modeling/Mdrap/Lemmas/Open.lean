import Mdrap.Lemmas.Repair
import Mdrap.Lemmas.File

/-!
# Opening a directory

The recovery loop over the segment files is the repair of each of them (`recoverSegments_spec`). On the files of a layout,
with the last one cut anywhere, it leaves the files of the layout without what was cut, and the log that is opened represents
it.
-/

namespace Mdrap

open Lib

/-! ## The recovery loop -/

/-- The file repair leaves of an entry of the directory, if it leaves one. -/
def repairedFile (limit : Int) (e : Nat × SegFile) : Option (Nat × SegFile) :=
  match verifyAndRepairSegment limit e.2 with
  | .ok (some f, _) => some (e.1, f)
  | _ => none

/-- The highest offset repair finds in a segment file. -/
def repairedHighest (limit : Int) (f : SegFile) : Int :=
  match verifyAndRepairSegment limit f with
  | .ok (_, r) => r.highestOffset
  | _ => -1

/-- The highest offset repair finds in segment files, from a value on. -/
def highestRepaired (limit : Int) (h : Int) (es : List (Nat × SegFile)) : Int :=
  es.foldl (fun h e => max h (repairedHighest limit e.2)) h

namespace IngestLog

/-- The recovery loop repairs every file in its place, or raises the error of one of them. -/
theorem recoverSegments_spec (cfg : LogConfig) (todo : List (Nat × SegFile)) (dir : LogDir) (hi : Int) (n : Nat)
    (done : List (Nat × SegFile)) (hdir : dir.segments.entries = done ++ todo) :
    (∃ dir' n', recoverSegments cfg todo dir hi n = .ok (dir', highestRepaired cfg.maxSegmentBytes hi todo, n') ∧
      dir'.segments.entries = done ++ todo.filterMap (repairedFile cfg.maxSegmentBytes) ∧
      ∀ e ∈ todo, ∃ x, verifyAndRepairSegment cfg.maxSegmentBytes e.2 = .ok x) ∨
    (∃ e ∈ todo, ∃ reason, verifyAndRepairSegment cfg.maxSegmentBytes e.2 = .error reason ∧
      recoverSegments cfg todo dir hi n = .error (.corrupt e.1 reason)) := by
  induction todo generalizing dir hi n done with
  | nil => exact Or.inl ⟨dir, n, rfl, hdir, by simp⟩
  | cons e rest ih =>
    obtain ⟨k, f⟩ := e
    have hhigh : ∀ h, highestRepaired cfg.maxSegmentBytes h ((k, f) :: rest) =
        highestRepaired cfg.maxSegmentBytes (max h (repairedHighest cfg.maxSegmentBytes f)) rest := fun _ => rfl
    rw [recoverSegments]
    cases hrep : verifyAndRepairSegment cfg.maxSegmentBytes f with
    | error reason => exact Or.inr ⟨(k, f), List.mem_cons_self, reason, hrep, rfl⟩
    | ok x =>
      obtain ⟨file, r⟩ := x
      have hr : repairedHighest cfg.maxSegmentBytes f = r.highestOffset := by simp [repairedHighest, hrep]
      cases file with
      | none =>
        simp only
        have hentries := Store.entries_erase_middle hdir
        have hnone : repairedFile cfg.maxSegmentBytes (k, f) = none := by simp [repairedFile, hrep]
        rcases ih { dir with segments := dir.segments.erase k } (max hi r.highestOffset) (n + r.corruptedFrames) done hentries with
          ⟨dir', n', heq, hdir', hall⟩ | ⟨e, he, reason, herr, heq⟩
        · refine Or.inl ⟨dir', n', ?_, ?_, ?_⟩
          · rw [heq, hhigh, hr]
          · rw [hdir', List.filterMap_cons_none hnone]
          · intro e he
            rcases List.mem_cons.mp he with rfl | he
            · exact ⟨_, hrep⟩
            · exact hall e he
        · exact Or.inr ⟨e, List.mem_cons_of_mem _ he, reason, herr, heq⟩
      | some f' =>
        simp only
        have hsome : repairedFile cfg.maxSegmentBytes (k, f) = some (k, f') := by simp [repairedFile, hrep]
        generalize hd : (if f'.written.length = f.written.length then
          { dir with segments := dir.segments.put k f' } else (buildSparseIndex cfg.interval k
            { segments := dir.segments.put k f', indexes := dir.indexes.erase k }).2) = dir1
        have hentries : dir1.segments.entries = (done ++ [(k, f')]) ++ rest := by
          rw [← hd, List.append_assoc, List.singleton_append]
          split
          · exact Store.entries_put_middle hdir f'
          · rw [buildSparseIndex_segments]
            exact Store.entries_put_middle hdir f'
        rcases ih dir1 (max hi r.highestOffset) (n + r.corruptedFrames) (done ++ [(k, f')]) hentries with
          ⟨dir', n', heq, hdir', hall⟩ | ⟨e, he, reason, herr, heq⟩
        · refine Or.inl ⟨dir', n', ?_, ?_, ?_⟩
          · rw [heq, hhigh, hr]
          · rw [hdir', List.filterMap_cons_some hsome, List.append_assoc, List.singleton_append]
          · intro e he
            rcases List.mem_cons.mp he with rfl | he
            · exact ⟨_, hrep⟩
            · exact hall e he
        · exact Or.inr ⟨e, List.mem_cons_of_mem _ he, reason, herr, heq⟩

/-! ## The log that is opened -/

/-- A log as it is after opening: its file is open with nothing in the buffer, and nothing has failed. -/
structure Opened (s : IngestLog) (cfg : LogConfig) (L : Layout) : Prop where
  represents : s.Represents L
  config : s.config = cfg
  current : s.current = some ⟨L.active.start, [], false⟩
  sound : s.isPoisoned = false
  idle : s.groupCommitFlushing = false
  synced : s.syncedOffset = (s.nextOffset : Int) - 1
  files : s.dir.files = L.files
  durable : ∀ e ∈ s.dir.segments.entries, e.2.durable ≤ e.2.written.length

/-- Repair leaves no byte durable that it cut off. -/
theorem durable_of_repaired {limit : Int} {es : List (Nat × SegFile)} {e : Nat × SegFile}
    (h : e ∈ es.filterMap (repairedFile limit)) : e.2.durable ≤ e.2.written.length := by
  rw [List.mem_filterMap] at h
  obtain ⟨⟨k, file⟩, _, he⟩ := h
  unfold repairedFile at he
  split at he
  · rename_i f _ hrep
    cases he
    simp only
    unfold verifyAndRepairSegment at hrep
    split at hrep
    · cases hrep
    · rename_i hlen
      split at hrep
      · cases hrep
      · split at hrep
        · cases hrep
        · rename_i r hloop
          cases hrep
          have hle := repairLoop_validPos_le hloop
          rw [List.length_drop] at hle
          simp only at hle hlen ⊢
          rw [List.length_take]
          omega
  · cases he

/-- Files that repair leaves as they are are recovered without a change of the directory. -/
theorem recoverSegments_clean (cfg : LogConfig) (todo : List (Nat × SegFile)) (dir : LogDir) (hi : Int) (n : Nat)
    (hdir : ∀ e ∈ todo, e ∈ dir.segments.entries)
    (hclean : ∀ e ∈ todo, ∃ r, verifyAndRepairSegment cfg.maxSegmentBytes e.2 = .ok (some e.2, r)) :
    ∃ hi' n', recoverSegments cfg todo dir hi n = .ok (dir, hi', n') := by
  induction todo generalizing hi n with
  | nil => exact ⟨hi, n, rfl⟩
  | cons e rest ih =>
    obtain ⟨k, f⟩ := e
    obtain ⟨r, hrep⟩ := hclean (k, f) List.mem_cons_self
    have hput : dir.segments.put k f = dir.segments := Store.put_self (hdir (k, f) List.mem_cons_self)
    rw [recoverSegments, hrep]
    simp only [hput, if_true]
    exact ih _ _ (fun e he => hdir e (List.mem_cons_of_mem _ he)) (fun e he => hclean e (List.mem_cons_of_mem _ he))

/-- Where a directory can be opened, every file of it is repaired. -/
theorem repaired_of_openLog {cfg : LogConfig} {dir : LogDir} {now ts : UInt64} {s : IngestLog}
    (h : openLog cfg dir now ts = .ok s) :
    ∀ e ∈ dir.segments.entries, ∃ x, verifyAndRepairSegment cfg.maxSegmentBytes e.2 = .ok x := by
  rcases recoverSegments_spec cfg dir.segments.entries dir (-1) 0 [] rfl with
    ⟨dir', n', _, _, hall⟩ | ⟨e, _, reason, _, hrec⟩
  · exact hall
  · rw [openLog, recoverAndOpen, hrec] at h
    cases h

/-- An opened log has the recovered directory, unless no file is left in it. -/
theorem openLog_dir {cfg : LogConfig} {dir dir' : LogDir} {hi : Int} {n : Nat} {now ts : UInt64} {s : IngestLog}
    (hrec : recoverSegments cfg dir.segments.entries dir (-1) 0 = .ok (dir', hi, n)) (hne : dir'.segments.entries ≠ [])
    (h : openLog cfg dir now ts = .ok s) : s.dir = dir' := by
  have hlast : dir'.segments.entries.getLast? ≠ none := by
    rw [Ne, List.getLast?_eq_none_iff]
    exact hne
  obtain ⟨⟨k, f⟩, hkf⟩ := Option.ne_none_iff_exists'.mp hlast
  rw [openLog, recoverAndOpen, hrec] at h
  simp only [hkf, Except.map, Except.ok.injEq] at h
  rw [← h]
  rfl

/-- Opening a directory whose repaired files are those of a layout. -/
theorem openLog_of_repaired {cfg : LogConfig} {dir : LogDir} {L : Layout} (now ts : UInt64)
    (hall : ∀ e ∈ dir.segments.entries, ∃ x, verifyAndRepairSegment cfg.maxSegmentBytes e.2 = .ok x)
    (hfiles : (dir.segments.entries.filterMap (repairedFile cfg.maxSegmentBytes)).map (fun e => (e.1, e.2.written)) = L.files)
    (hhigh : highestRepaired cfg.maxSegmentBytes (-1) dir.segments.entries + 1 = L.next) :
    ∃ s, openLog cfg dir now ts = .ok s ∧ s.Opened cfg L := by
  rcases recoverSegments_spec cfg dir.segments.entries dir (-1) 0 [] rfl with
    ⟨dir', n', heq, hdir', _⟩ | ⟨e, he, reason, herr, _⟩
  · rw [List.nil_append] at hdir'
    have hmap : dir'.files = L.files := by rw [LogDir.files, hdir', hfiles]
    have hlast : ∃ f : SegFile, dir'.segments.entries.getLast? = some (L.active.start, f) ∧ f.written = L.active.bytes := by
      have h : (dir'.segments.entries.map (fun e => (e.1, e.2.written))).getLast? =
          some (L.active.start, L.active.bytes) := by
        rw [show dir'.segments.entries.map (fun e => (e.1, e.2.written)) = L.files from hmap, Layout.files,
          Layout.segments, List.map_append]
        exact List.getLast?_concat
      rw [List.getLast?_map, Option.map_eq_some_iff] at h
      obtain ⟨⟨k, f⟩, hkf, heq⟩ := h
      simp only [Prod.mk.injEq] at heq
      exact ⟨f, by rw [hkf, heq.1], heq.2⟩
    obtain ⟨f, hlast, hf⟩ := hlast
    have hopen : openLog cfg dir now ts = .ok
        { fresh cfg dir' now with
          nextOffset := L.next
          corruptedFramesCount := n'
          current := some ⟨L.active.start, [], false⟩
          currentSegmentStartOffset := L.active.start
          currentSegmentBytes := L.active.bytes.length
          syncedOffset := (L.next : Int) - 1
          pendingSyncOffset := (L.next : Int) - 1 } := by
      rw [openLog, recoverAndOpen, heq]
      simp only [hlast, hf, hhigh, Int.toNat_natCast, Except.map]
    refine ⟨_, hopen, ⟨⟨?_, rfl, ?_⟩, rfl, rfl, rfl, rfl, rfl, hmap, ?_⟩⟩
    · rw [contents_eq_files (by intro k; simp [pending])]
      exact hmap
    · rintro f' ⟨⟩
      exact ⟨rfl, rfl, rfl, by simp⟩
    · intro e he
      exact durable_of_repaired (hdir' ▸ he)
  · obtain ⟨x, hx⟩ := hall e he
    rw [herr] at hx
    cases hx

/-- Opening an empty directory starts a log with an empty segment. -/
theorem openLog_empty (cfg : LogConfig) (now ts : UInt64) (dir : LogDir)
    (hrep : dir.segments.entries.filterMap (repairedFile cfg.maxSegmentBytes) = [])
    (hhigh : highestRepaired cfg.maxSegmentBytes (-1) dir.segments.entries = -1)
    (hall : ∀ e ∈ dir.segments.entries, ∃ x, verifyAndRepairSegment cfg.maxSegmentBytes e.2 = .ok x) :
    ∃ s, openLog cfg dir now ts = .ok s ∧ s.Opened cfg (Layout.initial 0 ts) := by
  rcases recoverSegments_spec cfg dir.segments.entries dir (-1) 0 [] rfl with
    ⟨dir', n', heq, hdir', _⟩ | ⟨e, he, reason, herr, _⟩
  · rw [List.nil_append, hrep] at hdir'
    have hput : (dir'.segments.put 0 ⟨segmentHeaderBytes 0 ts, 32⟩).entries = [(0, ⟨segmentHeaderBytes 0 ts, 32⟩)] := by
      rw [Store.entries_put_last (by simp [hdir']), hdir', List.nil_append]
    have hopen : openLog cfg dir now ts = .ok
        { fresh cfg { dir' with segments := dir'.segments.put 0 ⟨segmentHeaderBytes 0 ts, 32⟩ } now with
          corruptedFramesCount := n'
          current := some ⟨0, [], false⟩
          currentSegmentBytes := 32 } := by
      have hpack : packSegmentHeader 0 ts = some (segmentHeaderBytes 0 ts) := rfl
      rw [openLog, recoverAndOpen, heq, hhigh]
      simp [hdir', rotateToNewSegment, closeSegment, fresh, hpack, Except.map]
    have hmap : LogDir.files { dir' with segments := dir'.segments.put 0 ⟨segmentHeaderBytes 0 ts, 32⟩ } =
        (Layout.initial 0 ts).files := by
      rw [LogDir.files, hput]
      simp [Layout.files, Layout.segments, Layout.initial, Segment.bytes, Segment.frames, framesFrom]
    refine ⟨_, hopen, ⟨⟨?_, rfl, ?_⟩, rfl, rfl, rfl, rfl, rfl, hmap, ?_⟩⟩
    · rw [contents_eq_files (by intro k; simp [pending])]
      exact hmap
    · rintro f' ⟨⟩
      exact ⟨rfl, rfl, by simp [Layout.initial, segmentHeaderSize], by simp⟩
    · intro e he
      rw [show e = (0, ⟨segmentHeaderBytes 0 ts, 32⟩) by simpa [fresh, hput] using he]
      simp
  · obtain ⟨x, hx⟩ := hall e he
    rw [herr] at hx
    cases hx

/-- A new log has an empty segment. -/
theorem exists_openLog_new (cfg : LogConfig) (now ts : UInt64) :
    ∃ s, openLog cfg LogDir.empty now ts = .ok s ∧ s.Opened cfg (Layout.initial 0 ts) :=
  openLog_empty cfg now ts LogDir.empty rfl rfl (by simp [LogDir.empty, Store.empty])

theorem openLog_new {cfg : LogConfig} {now ts : UInt64} {s : IngestLog} (h : openLog cfg LogDir.empty now ts = .ok s) :
    s.Opened cfg (Layout.initial 0 ts) := by
  obtain ⟨s', h', hopened⟩ := exists_openLog_new cfg now ts
  rw [h', Except.ok.injEq] at h
  exact h ▸ hopened

end IngestLog

/-! ## The files of a layout -/

/-- A layout whose next offset is found in its files: it has a record, or its first segment starts at zero. -/
def Layout.Anchored (L : Layout) : Prop := L.sealed ≠ [] ∨ L.active.entries ≠ [] ∨ L.active.start = 0

/-- A layout that begins at offset zero is anchored. -/
theorem Layout.anchored_of_first {L : Layout} (h : L.first = 0) : L.Anchored := by
  cases hsealed : L.sealed with
  | nil =>
    rw [first, hsealed] at h
    exact Or.inr (Or.inr h)
  | cons g gs => exact Or.inl (by rw [hsealed]; exact List.cons_ne_nil g gs)

/-- The highest offset of segments that follow each other without a gap is that of the last record. -/
theorem foldl_highest {sealed : List Segment} {active : Segment}
    (hchain : (sealed ++ [active]).IsChain (fun g g' => g.next = g'.start)) (hne : ∀ g ∈ sealed, g.entries ≠ [])
    (h : Int) (hlow : -1 ≤ h) (hh : ∀ g ∈ (sealed ++ [active]).head?, h < g.start) :
    (sealed ++ [active]).foldl (fun h g => max h g.highest) h =
      if sealed = [] ∧ active.entries = [] then h else (active.next : Int) - 1 := by
  induction sealed generalizing h with
  | nil =>
    have hlt := hh active rfl
    simp only [List.nil_append, List.foldl_cons, List.foldl_nil, true_and, Segment.highest, Segment.next]
    by_cases he : active.entries = []
    · simp only [he, if_true]
      omega
    · have := List.length_pos_iff.mpr he
      simp only [he, if_false]
      omega
  | cons g rest ih =>
    have hlt := hh g rfl
    have hg := hne g List.mem_cons_self
    have hpos := List.length_pos_iff.mpr hg
    have hmax : max h g.highest = (g.next : Int) - 1 := by
      simp only [Segment.highest, hg, if_false, Segment.next]
      omega
    rw [List.cons_append, List.isChain_cons] at hchain
    rw [List.cons_append, List.foldl_cons, hmax,
      ih hchain.2 (fun g' hg' => hne g' (List.mem_cons_of_mem _ hg')) ((g.next : Int) - 1) (by omega) (by
        intro g' hg'
        have := hchain.1 g' hg'
        omega)]
    by_cases hcase : rest = [] ∧ active.entries = []
    · obtain ⟨rfl, hentries⟩ := hcase
      have hstart : g.next = active.start := hchain.1 active rfl
      simp [hentries, Segment.next, ← hstart]
    · simp [hcase]

/-- The next offset of an anchored layout is the one after the highest offset in its files. -/
theorem Layout.Anchored.highest {L : Layout} (h : L.Anchored) :
    L.segments.foldl (fun h g => max h g.highest) (-1) + 1 = L.next := by
  rw [Layout.segments, foldl_highest L.chain L.nonempty (-1) (by omega) (by intro g _; omega)]
  by_cases hcase : L.sealed = [] ∧ L.active.entries = []
  · have hstart : L.active.start = 0 := by
      rcases h with h | h | h
      · exact absurd hcase.1 h
      · exact absurd hcase.2 h
      · exact h
    simp [hcase, Layout.next, Segment.next, hstart]
  · simp [hcase, Layout.next]

/-- Files whose bytes are those of segments, each with a torn tail behind it. -/
inductive TornFiles (limit : Int) : List (Nat × SegFile) → List Segment → Prop where
  | nil : TornFiles limit [] []
  | cons {g : Segment} {t : Bytes} {durable : Nat} {es : List (Nat × SegFile)} {gs : List Segment} : g.Fits →
      g.Within limit → TornTail limit logVersion t → TornFiles limit es gs →
      TornFiles limit ((g.start, ⟨g.bytes ++ t, durable⟩) :: es) (g :: gs)

namespace TornFiles

variable {limit : Int}

/-- Repair gives the files of the segments. -/
theorem repaired {es : List (Nat × SegFile)} {gs : List Segment} (h : TornFiles limit es gs) :
    (∀ e ∈ es, ∃ x, verifyAndRepairSegment limit e.2 = .ok x) ∧
    (es.filterMap (repairedFile limit)).map (fun e => (e.1, e.2.written)) = gs.map (fun g => (g.start, g.bytes)) ∧
    ∀ hi, highestRepaired limit hi es = gs.foldl (fun h g => max h g.highest) hi := by
  induction h with
  | nil => exact ⟨by simp, rfl, fun _ => rfl⟩
  | @cons g t durable es gs hf hw ht _ ih =>
    obtain ⟨hall, hfiles, hhigh⟩ := ih
    obtain ⟨k, hrep⟩ := verifyAndRepairSegment_torn hf hw ht durable
    refine ⟨?_, ?_, ?_⟩
    · intro e he
      rcases List.mem_cons.mp he with rfl | he
      · exact ⟨_, hrep⟩
      · exact hall e he
    · rw [List.filterMap_cons_some (b := (g.start, ⟨g.bytes, min durable g.bytes.length⟩)) (by simp [repairedFile, hrep]),
        List.map_cons, hfiles]
      rfl
    · intro hi
      have hg : repairedHighest limit ⟨g.bytes ++ t, durable⟩ = g.highest := by simp [repairedHighest, hrep]
      rw [highestRepaired, List.foldl_cons, ← highestRepaired, hg, hhigh, List.foldl_cons]

/-- Whole files are files with nothing behind them. -/
theorem of_files {es : List (Nat × SegFile)} {gs : List Segment}
    (h : es.map (fun e => (e.1, e.2.written)) = gs.map (fun g => (g.start, g.bytes))) (hf : ∀ g ∈ gs, g.Fits)
    (hw : ∀ g ∈ gs, g.Within limit) : TornFiles limit es gs := by
  induction gs generalizing es with
  | nil =>
    rw [List.map_nil, List.map_eq_nil_iff] at h
    rw [h]
    exact .nil
  | cons g gs ih =>
    cases es with
    | nil => simp at h
    | cons e es =>
      obtain ⟨k, f⟩ := e
      simp only [List.map_cons, List.cons.injEq, Prod.mk.injEq] at h
      obtain ⟨⟨rfl, hbytes⟩, hrest⟩ := h
      have hfile : f = ⟨g.bytes ++ [], f.durable⟩ := by
        rw [List.append_nil, ← hbytes]
      rw [hfile]
      exact .cons (hf g List.mem_cons_self) (hw g List.mem_cons_self) (tornTail_nil limit logVersion)
        (ih hrest (fun g' hg' => hf g' (List.mem_cons_of_mem _ hg')) (fun g' hg' => hw g' (List.mem_cons_of_mem _ hg')))

theorem append {es es' : List (Nat × SegFile)} {gs gs' : List Segment} (h : TornFiles limit es gs)
    (h' : TornFiles limit es' gs') : TornFiles limit (es ++ es') (gs ++ gs') := by
  induction h with
  | nil => exact h'
  | cons hf hw ht _ ih => exact .cons hf hw ht ih

end TornFiles

/-- Opening a directory that holds the files of an anchored layout, with torn tails behind them. -/
theorem IngestLog.openLog_tornFiles {cfg : LogConfig} {dir : LogDir} {L : Layout} (now ts : UInt64) (ha : L.Anchored)
    (h : TornFiles cfg.maxSegmentBytes dir.segments.entries L.segments) :
    ∃ s, openLog cfg dir now ts = .ok s ∧ s.Opened cfg L := by
  obtain ⟨hall, hfiles, hhigh⟩ := h.repaired
  exact openLog_of_repaired now ts hall hfiles (by rw [hhigh, ha.highest])

/-- The same with a file behind them that is too short for a header. -/
theorem IngestLog.openLog_tornHeader {cfg : LogConfig} {dir : LogDir} {L : Layout} (now ts : UInt64) (ha : L.Anchored)
    {es : List (Nat × SegFile)} {e : Nat × SegFile} (hdir : dir.segments.entries = es ++ [e])
    (h : TornFiles cfg.maxSegmentBytes es L.segments) (he : e.2.written.length < segmentHeaderSize) :
    ∃ s, openLog cfg dir now ts = .ok s ∧ s.Opened cfg L := by
  obtain ⟨hall, hfiles, hhigh⟩ := h.repaired
  have hrep : verifyAndRepairSegment cfg.maxSegmentBytes e.2 = .ok (none, ⟨0, -1, 0⟩) := by
    rw [verifyAndRepairSegment, if_pos he]
  refine openLog_of_repaired now ts ?_ ?_ ?_
  · intro e' he'
    rw [hdir] at he'
    rcases List.mem_append.mp he' with he' | he'
    · exact hall e' he'
    · rw [List.mem_singleton.mp he']
      exact ⟨_, hrep⟩
  · have hnone : repairedFile cfg.maxSegmentBytes e = none := by simp [repairedFile, hrep]
    rw [hdir, List.filterMap_append, List.filterMap_cons_none hnone, List.filterMap_nil, List.append_nil]
    exact hfiles
  · have hlow : repairedHighest cfg.maxSegmentBytes e.2 = -1 := by simp [repairedHighest, hrep]
    have hge : (-1 : Int) ≤ L.segments.foldl (fun h g => max h g.highest) (-1) := by
      have := ha.highest
      omega
    have hfold : highestRepaired cfg.maxSegmentBytes (-1) (es ++ [e]) =
        max (highestRepaired cfg.maxSegmentBytes (-1) es) (repairedHighest cfg.maxSegmentBytes e.2) := by
      simp [highestRepaired]
    rw [hdir, hfold, hhigh, hlow, Int.max_eq_left hge]
    exact ha.highest

end Mdrap
