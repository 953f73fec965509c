import Mdrap.IngestLog.Run
import Mdrap.Lemmas.AnyFile
import Mdrap.Lemmas.Crash

/-!
# Purging, closing, and opening again

Purging takes the first segments off a layout (`IngestLog.deleteSegmentsBefore_spec`), closing leaves it as it is, and a
directory that can be opened again is that of the layout without what was cut off (`IngestLog.openLog_left`).
-/

namespace Mdrap

open Lib

/-! ## Purging -/

/-- Segments that follow each other end before the later ones start. -/
theorem next_le_of_chain {g : Segment} {gs : List Segment} (h : (g :: gs).IsChain (fun g g' => g.next = g'.start)) :
    ∀ g' ∈ gs, g.next ≤ g'.start := by
  cases gs with
  | nil => simp
  | cons g1 gs =>
    rw [List.isChain_cons_cons] at h
    intro g' hg'
    rcases List.mem_cons.mp hg' with rfl | hg'
    · exact Nat.le_of_eq h.1
    · rw [h.1]
      exact start_le_of_chain h.2 g' hg'

/-- The layout without its first segments. -/
def Layout.purge (L : Layout) (n : Nat) : Layout where
  sealed := L.sealed.drop n
  active := L.active
  chain := by
    have hchain := L.chain
    rw [← List.take_append_drop n L.sealed, List.append_assoc, List.isChain_append] at hchain
    exact hchain.2.1
  nonempty := fun g hg => L.nonempty g (List.mem_of_mem_drop hg)
  fits := by
    intro g hg
    rcases List.mem_append.mp hg with hg | hg
    · exact L.fits g (List.mem_append_left _ (List.mem_of_mem_drop hg))
    · exact L.fits g (List.mem_append_right _ hg)

theorem Layout.first_mem (L : Layout) : ∃ g ∈ L.segments, L.first = g.start := by
  unfold first segments
  cases L.sealed with
  | nil => exact ⟨L.active, by simp, rfl⟩
  | cons g gs => exact ⟨g, by simp, rfl⟩

theorem Layout.first_le_purge (L : Layout) (n : Nat) : L.first ≤ (L.purge n).first := by
  obtain ⟨g, hg, hfirst⟩ := (L.purge n).first_mem
  rw [hfirst]
  refine L.first_le g ?_
  rcases List.mem_append.mp hg with hg | hg
  · exact List.mem_append_left _ (List.mem_of_mem_drop hg)
  · exact List.mem_append_right _ hg

/-- A record of the layout is in what is left, or before it. -/
theorem Layout.mem_purge (L : Layout) (n : Nat) {i : Item} (h : i ∈ L.items) :
    i ∈ (L.purge n).items ∨ i.offset < (L.purge n).first := by
  have hsegs : L.segments = L.sealed.take n ++ (L.purge n).segments := by
    rw [segments, segments, ← List.append_assoc]
    congr 1
    exact (List.take_append_drop n L.sealed).symm
  rw [items, hsegs, List.flatMap_append] at h
  rcases List.mem_append.mp h with h | h
  · obtain ⟨g, hg, hig⟩ := List.mem_flatMap.mp h
    obtain ⟨pre, post, hsplit⟩ := List.append_of_mem hg
    obtain ⟨g', hg', hfirst⟩ := (L.purge n).first_mem
    have hchain : L.segments.IsChain (fun g g' => g.next = g'.start) := L.chain
    rw [hsegs, hsplit, List.append_assoc, List.cons_append, List.isChain_append] at hchain
    have hle := next_le_of_chain hchain.2.1 g' (List.mem_append_right _ hg')
    have hmem : i.offset ∈ g.items.map Item.offset := List.mem_map_of_mem hig
    rw [Segment.map_offset_items, List.mem_range'_1] at hmem
    rw [Segment.next] at hle
    exact Or.inr (by omega)
  · exact Or.inl h

/-- The obsolete segments are the first ones; what is left then starts at or before the checkpoint. -/
theorem obsoleteSegments_spec (checkpoint : Int) {es : List (Nat × SegFile)} (hs : es.Pairwise (fun e e' => e.1 < e'.1)) :
    ∃ n, IngestLog.obsoleteSegments checkpoint es = (es.take n).map Prod.fst ∧ (n < es.length ∨ es = []) ∧
      (n = 0 ∨ ∀ e ∈ (es.drop n).head?, (e.1 : Int) ≤ checkpoint) := by
  induction es with
  | nil => exact ⟨0, rfl, Or.inr rfl, Or.inl rfl⟩
  | cons e es ih =>
    obtain ⟨k, f⟩ := e
    cases es with
    | nil => exact ⟨0, rfl, Or.inl (by simp), Or.inl rfl⟩
    | cons e' es =>
      obtain ⟨k', f'⟩ := e'
      rw [List.pairwise_cons] at hs
      obtain ⟨n, hobs, hn, hhead⟩ := ih hs.2
      have hn' : n < ((k', f') :: es).length := by
        rcases hn with hn | hn
        · exact hn
        · cases hn
      rw [IngestLog.obsoleteSegments]
      by_cases hle : (k' : Int) ≤ checkpoint
      · refine ⟨n + 1, by rw [if_pos hle, hobs]; rfl, Or.inl (by simpa using hn'), Or.inr ?_⟩
        rw [List.drop_succ_cons]
        rcases hhead with rfl | hhead
        · intro e he
          simp only [List.drop_zero, List.head?_cons, Option.mem_def, Option.some.injEq] at he
          rw [← he]
          exact hle
        · exact hhead
      · rw [if_neg hle]
        rcases hhead with rfl | hhead
        · exact ⟨0, hobs, Or.inl (by simp), Or.inl rfl⟩
        · -- the names behind the checkpoint only grow
          exfalso
          have hlast : ((k', f') :: es).drop n ≠ [] := by
            rw [Ne, List.drop_eq_nil_iff]
            omega
          obtain ⟨e, rest, hdrop⟩ := List.exists_cons_of_ne_nil hlast
          have hle' := hhead e (by rw [hdrop]; rfl)
          have hmem : e ∈ (k', f') :: es := List.mem_of_mem_drop (by rw [hdrop]; exact List.mem_cons_self)
          rcases List.mem_cons.mp hmem with rfl | hmem
          · exact hle hle'
          · have hlt := (List.pairwise_cons.mp hs.2).1 e hmem
            simp only at hlt
            omega

/-- Leaving out the entries with the first names leaves the later entries. -/
theorem filter_not_mem_take {α : Type} {es : List (Nat × α)} (hs : es.Pairwise (fun e e' => e.1 < e'.1)) (n : Nat) :
    es.filter (fun e => !((es.take n).map Prod.fst).contains e.1) = es.drop n := by
  have hall : es.filter (fun e => !((es.take n).map Prod.fst).contains e.1) =
      (es.take n ++ es.drop n).filter (fun e => !((es.take n).map Prod.fst).contains e.1) := by
    rw [List.take_append_drop]
  rw [← List.take_append_drop n es, List.pairwise_append] at hs
  have htake : (es.take n).filter (fun e => !((es.take n).map Prod.fst).contains e.1) = [] := by
    rw [List.filter_eq_nil_iff]
    intro e he
    simp only [Bool.not_eq_true, Bool.not_eq_false', List.contains_iff_mem]
    exact List.mem_map_of_mem he
  have hdrop : (es.drop n).filter (fun e => !((es.take n).map Prod.fst).contains e.1) = es.drop n := by
    rw [List.filter_eq_self]
    intro e he
    rw [Bool.not_eq_true', Bool.eq_false_iff, Ne, List.contains_iff_mem]
    intro hmem
    obtain ⟨e', he', heq⟩ := List.mem_map.mp hmem
    have hlt := hs.2.2 e' he' e he
    omega
  rw [hall, List.filter_append, htake, hdrop, List.nil_append]

namespace IngestLog

/-- Purging takes the first segments off; what is left starts where it did, or at or before the checkpoint. -/
theorem deleteSegmentsBefore_spec {s : IngestLog} {L : Layout} (h : s.Represents L) (checkpoint : Int) :
    ∃ n, (s.deleteSegmentsBefore checkpoint).2.Represents (L.purge n) ∧
      ((L.purge n).first = L.first ∨ ((L.purge n).first : Int) ≤ checkpoint) := by
  obtain ⟨n, hobs, hn, hhead⟩ := obsoleteSegments_spec checkpoint s.dir.segments.sorted
  have hentries : (s.deleteSegmentsBefore checkpoint).2.dir.segments.entries = s.dir.segments.entries.drop n := by
    simp only [deleteSegmentsBefore, hobs]
    exact filter_not_mem_take s.dir.segments.sorted n
  have hcontents : s.dir.segments.entries.map (fun e => (e.1, e.2.written ++ s.pending e.1)) = L.files := h.contents
  have hlen : n ≤ L.sealed.length := by
    have hlen := congrArg List.length hcontents
    simp only [List.length_map, Layout.files, Layout.segments, List.length_append, List.length_singleton] at hlen
    rcases hn with hn | hn
    · omega
    · rw [hn] at hlen
      simp at hlen
  have hrep : (s.deleteSegmentsBefore checkpoint).2.Represents (L.purge n) := by
    refine ⟨?_, h.next, h.current⟩
    have hpending : (s.deleteSegmentsBefore checkpoint).2.pending = s.pending := rfl
    rw [contents, hentries, hpending, List.map_drop, hcontents, Layout.files, Layout.files, Layout.segments, Layout.segments,
      ← List.map_drop, List.drop_append_of_le_length hlen]
    rfl
  refine ⟨n, hrep, ?_⟩
  rcases hhead with rfl | hhead
  · exact Or.inl rfl
  · refine Or.inr ?_
    obtain ⟨hearliest, hne⟩ := earliestOffset_eq hrep
    rw [← hearliest, earliestOffset]
    rw [hentries] at hne ⊢
    cases hdrop : s.dir.segments.entries.drop n with
    | nil => exact absurd hdrop hne
    | cons e es => exact hhead e (by rw [hdrop]; rfl)

/-! ## Opening again -/

section Left

variable {cfg : LogConfig} {dir : LogDir} {L : Layout} {c : Nat} {now ts : UInt64} {t : IngestLog}

/-- Where a directory with the files of a layout, the last one cut, can be opened, what is left is within the limits and has a
torn tail behind it. -/
theorem cut_of_openLog (hfiles : dir.files = L.cutFiles c) (hopen : openLog cfg dir now ts = .ok t) :
    (L.cut c).Within cfg.maxSegmentBytes ∧ (segmentHeaderSize ≤ c → ∃ tail,
      L.active.bytes.take c = (L.active.cut c).bytes ++ tail ∧ TornTail cfg.maxSegmentBytes logVersion tail) := by
  have hall := repaired_of_openLog hopen
  obtain ⟨pre, durable, hentries, hpre⟩ := entries_of_files hfiles
  rw [hentries] at hall
  have hsealed := within_of_repairedFiles hpre (fun g hg => L.fits g (List.mem_append_left _ hg))
    (fun e he => hall e (List.mem_append_left _ he))
  obtain ⟨x, hx⟩ := hall (L.active.start, ⟨L.active.bytes.take c, durable⟩) (by simp)
  have hwithin : ∀ g, g ∈ L.sealed ++ [L.active.cut c] → (L.active.cut c).Within cfg.maxSegmentBytes →
      g.Within cfg.maxSegmentBytes := by
    intro g hg hcut
    rcases List.mem_append.mp hg with hg | hg
    · exact hsealed g hg
    · rw [List.mem_singleton.mp hg]
      exact hcut
  by_cases hc : segmentHeaderSize ≤ c
  · obtain ⟨hcut, htail⟩ := Segment.tornTail_of_repaired (L.fits L.active (by simp)) hc hx
    exact ⟨fun g hg => hwithin g hg hcut, fun _ => htail⟩
  · have hnil : (L.active.cut c).entries = [] := by
      cases hes : L.active.entries with
      | nil => simp [Segment.cut, hes, keepUpTo]
      | cons e es => simp [Segment.cut, hes, keepUpTo, show ¬segmentHeaderSize + e.size ≤ c by omega]
    refine ⟨fun g hg => hwithin g hg ?_, fun h => absurd h hc⟩
    intro f hf
    simp [Segment.frames, hnil, framesFrom] at hf

/-- A directory of a layout without records has no whole frame. -/
theorem frames_eq_nil (hfiles : dir.files = L.cutFiles c) (hopen : openLog cfg dir now ts = .ok t)
    (hnil : (L.cut c).items = []) : dir.frames cfg.maxSegmentBytes = [] := by
  obtain ⟨_, htail⟩ := cut_of_openLog hfiles hopen
  rw [Layout.items_cut, List.append_eq_nil_iff] at hnil
  have hsealed : L.sealed = [] := by
    rw [List.eq_nil_iff_forall_not_mem]
    intro g hg
    exact L.nonempty g hg (Segment.items_eq_nil.mp (List.flatMap_eq_nil_iff.mp hnil.1 g hg))
  obtain ⟨pre, durable, hentries, hpre⟩ := entries_of_files hfiles
  rw [hsealed, List.map_nil, List.map_eq_nil_iff] at hpre
  rw [hpre, List.nil_append] at hentries
  rw [LogDir.frames, LogDir.kept, hentries]
  by_cases hlen : segmentHeaderSize ≤ (L.active.bytes.take c).length
  · obtain ⟨tail, htake, htorn⟩ := htail (by rw [List.length_take] at hlen; omega)
    have hfile := fileFrames_append (Segment.fits_cut (L.fits L.active (by simp)) c)
      (show (L.active.cut c).Within cfg.maxSegmentBytes by
        intro f hf
        simp [Segment.frames, Segment.items_eq_nil.mp hnil.2, framesFrom] at hf) htorn
    rw [List.filter_cons_of_pos (by simpa using hlen), List.filter_nil, List.flatMap_singleton, htake, hfile, Segment.frames,
      Segment.items_eq_nil.mp hnil.2]
    rfl
  · rw [List.filter_cons_of_neg (by simpa using hlen), List.filter_nil, List.flatMap_nil]

/-- A directory that can be opened again is that of the layout without what was cut off, as long as it has a whole frame or its
newest segment is the one at zero. -/
theorem openLog_left (hfiles : dir.files = L.cutFiles c) (hopen : openLog cfg dir now ts = .ok t)
    (ha : dir.frames cfg.maxSegmentBytes ≠ [] ∨ dir.newestOffset = 0) :
    ∃ L', t.Opened cfg L' ∧ L'.items = (L.cut c).items ∧ L'.first = L.first ∧ dir.newestOffset ≤ L'.next := by
  obtain ⟨hw, htail⟩ := cut_of_openLog hfiles hopen
  have hnewest : dir.newestOffset = L.active.start := by
    obtain ⟨pre, durable, hentries, _⟩ := entries_of_files hfiles
    simp [LogDir.newestOffset, hentries]
  have hkeep : (L.cut c).items ≠ [] ∨ L.active.start = 0 := by
    rcases ha with ha | ha
    · exact Or.inl (fun hnil => ha (frames_eq_nil hfiles hopen hnil))
    · exact Or.inr (hnewest ▸ ha)
  obtain ⟨t', L', hopen', hopened, hitems, hfirst, _, _⟩ := openLog_cut now ts hfiles hw htail hkeep
  rw [hopen, Except.ok.injEq] at hopen'
  subst hopen'
  have hnext : L'.next = (L.cut c).next := by
    rw [L'.next_eq, (L.cut c).next_eq, hitems, hfirst, Layout.first_cut]
  refine ⟨L', hopened, hitems, hfirst, ?_⟩
  rw [hnewest, hnext]
  exact Nat.le_add_right _ _

end Left

end IngestLog

end Mdrap
