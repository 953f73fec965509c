import Mdrap.Lemmas.Open
import Mdrap.Lemmas.Read
import Mdrap.Lemmas.Run

/-!
# Opening a log after a crash

A crash cuts the newest segment file somewhere (`IngestLog.crash`). As long as a record is left, or the newest segment is the
one at zero, the log that is opened holds the records that lie wholly before the cut (`IngestLog.openLog_crash`).
-/

namespace Mdrap

open Lib

namespace Layout

/-- The layout without the records behind a cut of the active segment. -/
def cut (L : Layout) (c : Nat) : Layout where
  sealed := L.sealed
  active := L.active.cut c
  chain := by
    have hchain := L.chain
    rw [List.isChain_append] at hchain ⊢
    exact ⟨hchain.1, List.isChain_singleton _, by simpa [Segment.cut] using hchain.2.2⟩
  nonempty := L.nonempty
  fits := by
    intro g hg
    rcases List.mem_append.mp hg with hg | hg
    · exact L.fits g (List.mem_append_left _ hg)
    · rw [List.mem_singleton.mp hg]
      exact Segment.fits_cut (L.fits L.active (by simp)) c

@[simp] theorem first_cut (L : Layout) (c : Nat) : (L.cut c).first = L.first := rfl

theorem within_cut {limit : Int} {L : Layout} (h : L.Within limit) (c : Nat) : (L.cut c).Within limit := by
  intro g hg
  rcases List.mem_append.mp hg with hg | hg
  · exact h g (List.mem_append_left _ hg)
  · rw [List.mem_singleton.mp hg]
    exact Segment.within_cut (h L.active (by simp [segments])) c

theorem items_cut (L : Layout) (c : Nat) : (L.cut c).items = L.sealed.flatMap Segment.items ++ (L.active.cut c).items := by
  simp [items, segments, cut]

/-- The names and bytes of the segment files with the last one cut. -/
def cutFiles (L : Layout) (c : Nat) : List (Nat × Bytes) :=
  L.sealed.map (fun g => (g.start, g.bytes)) ++ [(L.active.start, L.active.bytes.take c)]

theorem cut_length (L : Layout) : L.cut L.active.bytes.length = L := by
  simp only [cut, Segment.cut_length]

theorem cutFiles_length (L : Layout) : L.cutFiles L.active.bytes.length = L.files := by
  rw [cutFiles, List.take_length, files, segments, List.map_append]
  rfl

/-- The layout of the sealed segments, the last of which becomes the active one. -/
def reopen (L : Layout) (sealed : List Segment) (last : Segment) (h : L.sealed = sealed ++ [last]) : Layout where
  sealed := sealed
  active := last
  chain := by
    have hchain := L.chain
    rw [List.isChain_append, h] at hchain
    exact hchain.1
  nonempty := fun g hg => L.nonempty g (by rw [h]; exact List.mem_append_left _ hg)
  fits := fun g hg => L.fits g (by rw [h]; exact List.mem_append_left _ hg)

/-- Every sealed segment starts before the active one. -/
theorem start_lt_active (L : Layout) : ∀ g ∈ L.sealed, g.start < L.active.start := by
  intro g hg
  obtain ⟨pre, post, hsplit⟩ := List.append_of_mem hg
  have hchain := L.chain
  rw [hsplit, List.append_assoc, List.cons_append, List.isChain_append] at hchain
  have hpos : g.start < g.next := by
    have := List.length_pos_iff.mpr (L.nonempty g hg)
    rw [Segment.next]
    omega
  cases post with
  | nil =>
    have := (List.isChain_cons_cons.mp hchain.2.1).1
    omega
  | cons g1 post =>
    have hrest := List.isChain_cons_cons.mp hchain.2.1
    have := start_le_of_chain hrest.2 L.active (by simp)
    omega

end Layout

namespace IngestLog

/-- The files of a log that represents a layout; the buffer belongs to the last one. -/
theorem Represents.split {s : IngestLog} {L : Layout} (h : s.Represents L) :
    ∃ pre file, s.dir.segments.entries = pre ++ [(L.active.start, file)] ∧
      pre.map (fun e => (e.1, e.2.written)) = L.sealed.map (fun g => (g.start, g.bytes)) ∧
      file.written ++ s.pending L.active.start = L.active.bytes := by
  have hc : s.dir.segments.entries.map (fun e => (e.1, e.2.written ++ s.pending e.1)) = L.files := h.contents
  rw [Layout.files, Layout.segments, List.map_append, List.map_eq_append_iff] at hc
  obtain ⟨pre, last, hentries, hpre, hlast⟩ := hc
  rw [List.map_singleton, List.map_eq_singleton_iff] at hlast
  obtain ⟨⟨k, file⟩, rfl, hkf⟩ := hlast
  simp only [Prod.mk.injEq] at hkf
  obtain ⟨rfl, hbytes⟩ := hkf
  refine ⟨pre, file, hentries, ?_, hbytes⟩
  rw [← hpre]
  refine List.map_congr_left ?_
  intro e he
  have hlt := Store.lt_of_mem_left hentries e he
  have hpending : s.pending e.1 = [] := by
    rw [pending]
    split
    · rename_i f hcur
      rw [if_neg]
      have := (h.current f hcur).1
      omega
    · rfl
  rw [hpending, List.append_nil]

section Crash

variable {s : IngestLog} {L : Layout} (h : s.Represents L)

include h

theorem newestSegment_eq : s.newestSegment = L.active.start := by
  obtain ⟨pre, file, hentries, _, _⟩ := h.split
  simp [newestSegment, hentries]

theorem newestBytes_eq : s.newestBytes = L.active.bytes := by
  obtain ⟨pre, file, hentries, _, hfile⟩ := h.split
  simp [newestBytes, hentries, hfile]

/-- The segment files after a crash. -/
theorem entries_crashTo (b : Bytes) : ∃ pre durable,
    (s.crashTo b).segments.entries = pre ++ [(L.active.start, ⟨b, durable⟩)] ∧
      pre.map (fun e => (e.1, e.2.written)) = L.sealed.map (fun g => (g.start, g.bytes)) := by
  obtain ⟨pre, file, hentries, hpre, _⟩ := h.split
  have hlast : s.dir.segments.entries.getLast? = some (L.active.start, file) := by simp [hentries]
  refine ⟨pre, min file.durable b.length, ?_, hpre⟩
  rw [crashTo, hlast]
  exact Store.entries_put_middle hentries _

theorem files_crashTo (b : Bytes) : (s.crashTo b).files =
    L.sealed.map (fun g => (g.start, g.bytes)) ++ [(L.active.start, b)] := by
  obtain ⟨pre, durable, hentries, hpre⟩ := entries_crashTo h b
  rw [LogDir.files, hentries, List.map_append, hpre]
  rfl

/-- The records that survive a crash are those of the layout that is left. -/
theorem filter_survives (c : Nat) : L.items.filter (s.survives c) = (L.cut c).items := by
  rw [Layout.items_cut, Layout.items, Layout.segments, List.flatMap_append, List.filter_append, Segment.items_cut]
  congr 1
  · rw [List.filter_eq_self]
    intro i hi
    obtain ⟨g, hg, hig⟩ := List.mem_flatMap.mp hi
    have hlt := L.start_lt_active g hg
    have hseg := Segment.segment_of_mem_items hig
    simp only [survives, newestSegment_eq h, hseg, decide_eq_true_eq]
    exact Or.inl (by omega)
  · rw [List.flatMap_cons, List.flatMap_nil, List.append_nil]
    refine List.filter_congr ?_
    intro i hi
    simp [survives, newestSegment_eq h, Segment.segment_of_mem_items hi]

theorem files_crash (c : Nat) : (s.crash c).files = L.cutFiles c := by
  rw [crash, newestBytes_eq h, files_crashTo h, Layout.cutFiles]

end Crash

/-! ## Opening what is left -/

section Left

variable {cfg : LogConfig} {dir : LogDir} {L : Layout} {c : Nat} (now ts : UInt64)

/-- The last file of a directory. -/
theorem entries_of_files {files : List (Nat × Bytes)} {k : Nat} {b : Bytes} (h : dir.files = files ++ [(k, b)]) :
    ∃ pre durable, dir.segments.entries = pre ++ [(k, ⟨b, durable⟩)] ∧ pre.map (fun e => (e.1, e.2.written)) = files := by
  rw [LogDir.files, List.map_eq_append_iff] at h
  obtain ⟨pre, last, hentries, hpre, hlast⟩ := h
  rw [List.map_eq_singleton_iff] at hlast
  obtain ⟨⟨k', f⟩, rfl, hkf⟩ := hlast
  simp only [Prod.mk.injEq] at hkf
  obtain ⟨rfl, rfl⟩ := hkf
  exact ⟨pre, f.durable, hentries, hpre⟩

/-- The files of a layout with the last one torn behind its first records. -/
theorem openLog_torn {tail : Bytes} (hfiles : dir.files = L.sealed.map (fun g => (g.start, g.bytes)) ++
      [(L.active.start, (L.active.cut c).bytes ++ tail)]) (hw : (L.cut c).Within cfg.maxSegmentBytes)
    (ha : (L.cut c).Anchored) (htail : TornTail cfg.maxSegmentBytes logVersion tail) :
    ∃ t, openLog cfg dir now ts = .ok t ∧ t.Opened cfg (L.cut c) := by
  obtain ⟨pre, durable, hentries, hpre⟩ := entries_of_files hfiles
  have hsealed : TornFiles cfg.maxSegmentBytes pre L.sealed :=
    TornFiles.of_files hpre (fun g hg => L.fits g (List.mem_append_left _ hg)) (fun g hg => hw g (List.mem_append_left _ hg))
  have hlast : TornFiles cfg.maxSegmentBytes
      [((L.active.cut c).start, ⟨(L.active.cut c).bytes ++ tail, durable⟩)] [L.active.cut c] :=
    .cons (Segment.fits_cut (L.fits L.active (by simp)) c) (hw _ (by simp [Layout.segments, Layout.cut])) htail .nil
  refine openLog_tornFiles now ts ha ?_
  rw [hentries]
  exact hsealed.append hlast

/-- What a cut leaves is opened, as long as a record is left or the newest segment is the one at zero. -/
theorem openLog_cut (hfiles : dir.files = L.cutFiles c) (hw : (L.cut c).Within cfg.maxSegmentBytes)
    (htail : segmentHeaderSize ≤ c → ∃ tail, L.active.bytes.take c = (L.active.cut c).bytes ++ tail ∧
      TornTail cfg.maxSegmentBytes logVersion tail) (hkeep : (L.cut c).items ≠ [] ∨ L.active.start = 0) :
    ∃ t L', openLog cfg dir now ts = .ok t ∧ t.Opened cfg L' ∧ L'.items = (L.cut c).items ∧ L'.first = L.first ∧
      L'.Within cfg.maxSegmentBytes ∧ L'.Anchored := by
  rw [Layout.items_cut] at hkeep ⊢
  rw [Layout.cutFiles] at hfiles
  by_cases hc : segmentHeaderSize ≤ c
  · -- the header is left, and behind it whole frames and a torn tail
    obtain ⟨tail, htake, htail⟩ := htail hc
    have hanchored : (L.cut c).Anchored := by
      rcases hkeep with hkeep | hkeep
      · by_cases hnil : L.sealed = []
        · refine Or.inr (Or.inl ?_)
          intro hcut
          have hcut' : (L.active.cut c).entries = [] := hcut
          exact hkeep (by simp [hnil, Segment.items, hcut', itemsFrom])
        · exact Or.inl hnil
      · exact Or.inr (Or.inr hkeep)
    rw [htake] at hfiles
    obtain ⟨t, hopen, hopened⟩ := openLog_torn now ts hfiles hw hanchored htail
    exact ⟨t, L.cut c, hopen, hopened, L.items_cut c, rfl, hw, hanchored⟩
  · have hshort : (L.active.bytes.take c).length < segmentHeaderSize := by
      rw [List.length_take]
      omega
    have hcut : (L.active.cut c).items = [] := by
      rw [Segment.items_cut, List.filter_eq_nil_iff]
      intro i hi
      have := endPos_of_mem_itemsFrom hi
      simp only [decide_eq_true_eq]
      omega
    obtain ⟨pre, durable, hentries, hpre⟩ := entries_of_files hfiles
    rcases List.eq_nil_or_concat L.sealed with hnil | ⟨sealed, last, hlast⟩
    · -- no file is left, and the log starts anew at zero
      have hstart : L.active.start = 0 := by
        rcases hkeep with hkeep | hkeep
        · exact absurd (by simp [hnil, hcut]) hkeep
        · exact hkeep
      have hpre' : pre = [] := by simpa [hnil] using hpre
      rw [hpre', List.nil_append] at hentries
      have hrep : verifyAndRepairSegment cfg.maxSegmentBytes ⟨L.active.bytes.take c, durable⟩ =
          .ok (none, ⟨0, -1, 0⟩) := by
        rw [verifyAndRepairSegment, if_pos hshort]
      obtain ⟨t, hopen, hopened⟩ := openLog_empty cfg now ts dir (by simp [hentries, repairedFile, hrep])
        (by simp [hentries, highestRepaired, repairedHighest, hrep]) (by
          rw [hentries]
          intro e he
          rw [List.mem_singleton.mp he]
          exact ⟨_, hrep⟩)
      refine ⟨t, Layout.initial 0 ts, hopen, hopened, ?_, ?_, ?_, Or.inr (Or.inr rfl)⟩
      · rw [hcut, hnil]
        rfl
      · simp [Layout.first, Layout.initial, hnil, hstart]
      · exact Layout.within_initial _ 0 ts
    · -- the file is removed, and the last sealed segment is the active one again
      rw [List.concat_eq_append] at hlast
      have hlastne : last.entries ≠ [] := L.nonempty last (by simp [hlast])
      have hanchored : (L.reopen sealed last hlast).Anchored := Or.inr (Or.inl hlastne)
      have hw' : (L.reopen sealed last hlast).Within cfg.maxSegmentBytes :=
        fun g hg => hw g (List.mem_append_left _ (by rw [Layout.cut, hlast]; exact hg))
      have htorn : TornFiles cfg.maxSegmentBytes pre (L.reopen sealed last hlast).segments := by
        rw [hlast] at hpre
        exact TornFiles.of_files hpre (L.reopen sealed last hlast).fits hw'
      obtain ⟨t, hopen, hopened⟩ := openLog_tornHeader now ts hanchored hentries htorn hshort
      refine ⟨t, L.reopen sealed last hlast, hopen, hopened, ?_, ?_, hw', hanchored⟩
      · rw [hcut, List.append_nil, hlast]
        rfl
      · simp only [Layout.first, Layout.reopen, hlast]
        cases sealed <;> rfl

end Left

/-! ## A log that was opened -/

/-- Opening what an opened log left changes nothing. -/
theorem openLog_again {s : IngestLog} {cfg : LogConfig} {L : Layout} (h : s.Opened cfg L)
    (hw : L.Within cfg.maxSegmentBytes) (ha : L.Anchored) (now ts : UInt64) :
    ∃ t, openLog cfg s.dir now ts = .ok t ∧ t.Opened cfg L ∧ t.dir = s.dir := by
  have hfiles : s.dir.segments.entries.map (fun e => (e.1, e.2.written)) = L.segments.map (fun g => (g.start, g.bytes)) :=
    h.files
  have htorn : TornFiles cfg.maxSegmentBytes s.dir.segments.entries L.segments := TornFiles.of_files hfiles L.fits hw
  obtain ⟨t, hopen, hopened⟩ := openLog_tornFiles now ts ha htorn
  refine ⟨t, hopen, hopened, ?_⟩
  have hclean : ∀ e ∈ s.dir.segments.entries, ∃ r, verifyAndRepairSegment cfg.maxSegmentBytes e.2 = .ok (some e.2, r) := by
    intro e he
    have hmem : (e.1, e.2.written) ∈ L.segments.map (fun g => (g.start, g.bytes)) := by
      rw [← hfiles]
      exact List.mem_map_of_mem he
    obtain ⟨g, hg, heq⟩ := List.mem_map.mp hmem
    simp only [Prod.mk.injEq] at heq
    obtain ⟨k, hrep⟩ := verifyAndRepairSegment_bytes (L.fits g hg) (hw g hg) e.2.durable
    have hdurable := h.durable e he
    rw [heq.2, Nat.min_eq_left hdurable] at hrep
    exact ⟨_, hrep⟩
  obtain ⟨hi, n, hrecover⟩ := recoverSegments_clean cfg s.dir.segments.entries s.dir (-1) 0 (fun _ he => he) hclean
  refine openLog_dir hrecover ?_ hopen
  intro hnil
  rw [hnil] at hfiles
  simp [Layout.segments] at hfiles

/-- An opened log reads back what it holds. -/
theorem Opened.iterFrom {s : IngestLog} {cfg : LogConfig} {L : Layout} (h : s.Opened cfg L)
    (hw : L.Within cfg.maxSegmentBytes) (now : UInt64) :
    (s.iterFrom s.earliestOffset now).1 = .ok (L.items.map Item.event) := by
  obtain ⟨hearliest, _⟩ := earliestOffset_eq h.represents
  rw [← h.config] at hw
  obtain ⟨hread, _⟩ := iterFrom_spec h.represents hw (Nat.le_refl L.first) now (Or.inl rfl)
  rw [hearliest, hread]
  congr 2
  rw [List.filter_eq_self]
  intro i hi
  simpa using (L.first_le_offset hi).1

/-- Where files of segments are repaired, no frame of them is beyond a limit. -/
theorem within_of_repairedFiles {limit : Int} {es : List (Nat × SegFile)} {gs : List Segment}
    (hes : es.map (fun e => (e.1, e.2.written)) = gs.map (fun g => (g.start, g.bytes))) (hf : ∀ g ∈ gs, g.Fits)
    (hall : ∀ e ∈ es, ∃ x, verifyAndRepairSegment limit e.2 = .ok x) : ∀ g ∈ gs, g.Within limit := by
  intro g hg
  have hmem : (g.start, g.bytes) ∈ es.map (fun e => (e.1, e.2.written)) := by
    rw [hes]
    exact List.mem_map_of_mem hg
  obtain ⟨⟨k, f⟩, he, heq⟩ := List.mem_map.mp hmem
  simp only [Prod.mk.injEq] at heq
  obtain ⟨x, hx⟩ := hall (k, f) he
  have hfile : f = ⟨g.bytes ++ [], f.durable⟩ := by rw [List.append_nil, ← heq.2]
  rw [hfile] at hx
  exact (Segment.within_of_repaired (hf g hg) hx).1

/-- A log with no file open represents the layout its files are those of. -/
theorem represents_of_files {s : IngestLog} {L : Layout} (hfiles : s.dir.files = L.files) (hnext : s.nextOffset = L.next)
    (hnone : s.current = none) : s.Represents L := by
  refine ⟨?_, hnext, by simp [hnone]⟩
  rw [contents_eq_files (by intro k; simp [pending, hnone])]
  exact hfiles

/-- Closing leaves what the log holds, all of it in its files. -/
theorem close_spec {s : IngestLog} {L : Layout} (h : s.Represents L) (fsyncIo : Bool) :
    (s.close .ok fsyncIo).Represents L ∧ (s.close .ok fsyncIo).dir.files = L.files ∧
      (s.close .ok fsyncIo).config = s.config ∧
      (s.close .ok fsyncIo).groupCommitFlushing = s.groupCommitFlushing := by
  unfold close
  split
  · rename_i hcur
    exact ⟨h, files_of_contents h.contents (by simp [hcur]), rfl, rfl⟩
  · rename_i f hcur
    obtain ⟨hstart, _, _, hclosed⟩ := h.current f hcur
    split
    · rename_i hc
      refine ⟨h, files_of_contents h.contents ?_, rfl, rfl⟩
      intro f' hf'
      rw [hcur, Option.some.injEq] at hf'
      rw [← hf', (hclosed hc).2]
    · rename_i hc
      rw [Bool.not_eq_true] at hc
      have hhold : s.Holds L [] f := ⟨by rw [h.contents, filesWith_nil], hcur, hstart, hc⟩
      obtain ⟨hok, f', hflush, hbuf⟩ := hhold.fileFlush .ok
      have hkeep := s.keeps_fileFlush .ok
      split
      · rename_i heq
        rw [heq] at hok
        cases hok
      · rename_i t heq
        rw [heq] at hflush hkeep
        obtain ⟨_, hsync⟩ := Holds.fileFsync (s := { t with bytesSinceFlush := 0 })
          ⟨hflush.contents, hflush.current, hflush.start, hflush.isOpen⟩ fsyncIo
        have hkeep' := keeps_fileFsync { t with bytesSinceFlush := 0 } fsyncIo
        rcases hr : ({ t with bytesSinceFlush := 0 } : IngestLog).fileFsync fsyncIo with ⟨ok, u⟩
        rw [hr] at hsync hkeep'
        have hfiles : u.dir.files = L.files := (hsync.drained (hbuf rfl)).files
        have hnext : u.nextOffset = L.next := hkeep'.nextOffset.trans (hkeep.nextOffset.trans h.next)
        have hcfg : u.config = s.config := hkeep'.config.trans hkeep.config
        have hidle : u.groupCommitFlushing = s.groupCommitFlushing :=
          hkeep'.groupCommitFlushing.trans hkeep.groupCommitFlushing
        cases ok with
        | false => exact ⟨represents_of_files hfiles hnext rfl, hfiles, hcfg, hidle⟩
        | true => exact ⟨represents_of_files hfiles hnext rfl, hfiles, hcfg, hidle⟩

/-- A new log after appending calls: it has what they acknowledged, from offset zero on, within the limits if they are. -/
theorem runCalls_new {cfg : LogConfig} {now ts : UInt64} {s : IngestLog} (hopen : openLog cfg LogDir.empty now ts = .ok s)
    {calls : List Call} {acks : List Item} {t : IngestLog} (hrun : runCalls calls s = (acks, t))
    (henv : ∀ call ∈ calls, call.env.Recoverable) :
    ∃ L, t.Represents L ∧ L.items = acks ∧ L.first = 0 ∧
      ((∀ call ∈ calls, ∀ e ∈ call.entries, e.FitsLimits cfg.maxSegmentBytes) → L.Within cfg.maxSegmentBytes) := by
  have hopened := openLog_new hopen
  obtain ⟨L, hgrown, hwithin⟩ := runCalls_spec calls hopened.represents hopened.idle henv
  rw [hrun] at hgrown
  exact ⟨L, hgrown.represents, hgrown.items, hgrown.first, hwithin _ (Layout.within_initial _ 0 ts)⟩

end IngestLog

end Mdrap
