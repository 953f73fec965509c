import Mdrap.IngestLog.Layout

/-!
# Lemmas on layouts

Records put behind a segment, the sizes of its parts, and what a cut leaves of it: the frames that end at or before the cut
and the beginning of the next one.
-/

namespace Mdrap

open Lib

/-! ## Records one behind the other -/

/-- The size of the frames of records. -/
def entriesSize (es : List LogEntry) : Nat := (es.map LogEntry.size).sum

@[simp] theorem entriesSize_nil : entriesSize [] = 0 := rfl

@[simp] theorem entriesSize_cons (e : LogEntry) (es : List LogEntry) : entriesSize (e :: es) = e.size + entriesSize es := rfl

@[simp] theorem entriesSize_append (es es' : List LogEntry) : entriesSize (es ++ es') = entriesSize es + entriesSize es' := by
  simp [entriesSize]

theorem LogEntry.size_pos (e : LogEntry) : 0 < e.size := by
  unfold LogEntry.size frameHeaderSize
  omega

@[simp] theorem LogEntry.length_frame_bytes (e : LogEntry) (offset : Nat) : (e.frame offset).bytes.length = e.size := by
  simp [LogEntry.frame, LogEntry.size, frameHeaderSize]

@[simp] theorem length_framesFrom (offset : Nat) (es : List LogEntry) : (framesFrom offset es).length = es.length := by
  induction es generalizing offset with
  | nil => rfl
  | cons e es ih => simp [framesFrom, ih]

theorem length_flatMap_framesFrom (offset : Nat) (es : List LogEntry) :
    ((framesFrom offset es).flatMap Frame.bytes).length = entriesSize es := by
  induction es generalizing offset with
  | nil => rfl
  | cons e es ih =>
    rw [framesFrom, List.flatMap_cons, List.length_append, ih, LogEntry.length_frame_bytes, entriesSize_cons]

theorem mem_framesFrom {offset : Nat} {es : List LogEntry} {f : Frame} (h : f ∈ framesFrom offset es) :
    ∃ e ∈ es, ∃ o, f = e.frame o := by
  induction es generalizing offset with
  | nil => simp [framesFrom] at h
  | cons e es ih =>
    rcases List.mem_cons.mp h with rfl | h
    · exact ⟨e, List.mem_cons_self, offset, rfl⟩
    · obtain ⟨e', he', o, rfl⟩ := ih h
      exact ⟨e', List.mem_cons_of_mem _ he', o, rfl⟩

/-- The offsets of frames one behind the other are consecutive. -/
theorem map_offset_framesFrom (offset : Nat) (es : List LogEntry) :
    (framesFrom offset es).map Frame.offset = List.range' offset es.length := by
  induction es generalizing offset with
  | nil => rfl
  | cons e es ih => simp [framesFrom, LogEntry.frame, ih, List.range'_succ]

theorem itemsFrom_append (g offset pos : Nat) (es es' : List LogEntry) :
    itemsFrom g offset pos (es ++ es') =
      itemsFrom g offset pos es ++ itemsFrom g (offset + es.length) (pos + entriesSize es) es' := by
  induction es generalizing offset pos with
  | nil => rfl
  | cons e es ih =>
    simp only [List.cons_append, itemsFrom, ih, List.length_cons, entriesSize_cons]
    rw [show offset + 1 + es.length = offset + (es.length + 1) by omega, Nat.add_assoc pos]

@[simp] theorem map_offset_itemsFrom (g offset pos : Nat) (es : List LogEntry) :
    (itemsFrom g offset pos es).map Item.offset = List.range' offset es.length := by
  induction es generalizing offset pos with
  | nil => rfl
  | cons e es ih => simp [itemsFrom, ih, List.range'_succ]

theorem segment_of_mem_itemsFrom {g offset pos : Nat} {es : List LogEntry} {i : Item}
    (h : i ∈ itemsFrom g offset pos es) : i.segment = g := by
  induction es generalizing offset pos with
  | nil => simp [itemsFrom] at h
  | cons e es ih =>
    rcases List.mem_cons.mp h with rfl | h
    · rfl
    · exact ih h

theorem endPos_of_mem_itemsFrom {g offset pos : Nat} {es : List LogEntry} {i : Item}
    (h : i ∈ itemsFrom g offset pos es) : pos < i.endPos := by
  induction es generalizing offset pos with
  | nil => simp [itemsFrom] at h
  | cons e es ih =>
    have hpos := e.size_pos
    rcases List.mem_cons.mp h with rfl | h
    · simp only
      omega
    · have := ih h
      omega

/-- The frame of an item. -/
theorem frame_of_mem_itemsFrom {g offset pos : Nat} {es : List LogEntry} {i : Item} (h : i ∈ itemsFrom g offset pos es) :
    ∃ f ∈ framesFrom offset es, f.payload = recordBytes i.entry.record := by
  induction es generalizing offset pos with
  | nil => simp [itemsFrom] at h
  | cons e es ih =>
    rcases List.mem_cons.mp h with rfl | h
    · exact ⟨_, List.mem_cons_self, rfl⟩
    · obtain ⟨f, hf, hfi⟩ := ih h
      exact ⟨f, List.mem_cons_of_mem _ hf, hfi⟩

/-- The item of a frame. -/
theorem item_of_mem_framesFrom {g offset : Nat} (pos : Nat) {es : List LogEntry} {f : Frame} (h : f ∈ framesFrom offset es) :
    ∃ i ∈ itemsFrom g offset pos es, recordBytes i.entry.record = f.payload := by
  induction es generalizing offset pos with
  | nil => simp [framesFrom] at h
  | cons e es ih =>
    rcases List.mem_cons.mp h with rfl | h
    · exact ⟨_, List.mem_cons_self, rfl⟩
    · obtain ⟨i, hi, hif⟩ := ih (pos + e.size) h
      exact ⟨i, List.mem_cons_of_mem _ hi, hif⟩

/-! ## Segments -/

namespace Segment

@[simp] theorem length_bytes (g : Segment) : g.bytes.length = segmentHeaderSize + entriesSize g.entries := by
  rw [bytes, List.length_append, length_segmentHeaderBytes, frames, length_flatMap_framesFrom]
  rfl

/-- A segment put behind another one starts with its bytes. -/
theorem bytes_extend (g : Segment) (es : List LogEntry) :
    (g.extend es).bytes = g.bytes ++ (framesFrom g.next es).flatMap Frame.bytes := by
  simp [bytes, frames, extend, framesFrom_append, next]

theorem items_extend (g : Segment) (es : List LogEntry) :
    (g.extend es).items = g.items ++ itemsFrom g.start g.next g.bytes.length es := by
  simp [items, extend, itemsFrom_append, next]

@[simp] theorem next_extend (g : Segment) (es : List LogEntry) : (g.extend es).next = g.next + es.length := by
  simp [next, extend, Nat.add_assoc]

@[simp] theorem start_extend (g : Segment) (es : List LogEntry) : (g.extend es).start = g.start := rfl

theorem fits_extend {g : Segment} {es : List LogEntry} (h : g.Fits) (hes : ∀ f ∈ framesFrom g.next es, f.Fits) :
    (g.extend es).Fits := by
  intro f hf
  simp only [frames, extend, framesFrom_append, List.mem_append] at hf
  rcases hf with hf | hf
  · exact h f hf
  · exact hes f hf

theorem segment_of_mem_items {g : Segment} {i : Item} (h : i ∈ g.items) : i.segment = g.start :=
  segment_of_mem_itemsFrom h

@[simp] theorem map_offset_items (g : Segment) : g.items.map Item.offset = List.range' g.start g.entries.length := by
  simp [items]

theorem items_eq_nil {g : Segment} : g.items = [] ↔ g.entries = [] := by
  cases h : g.entries with
  | nil => simp [items, h, itemsFrom]
  | cons e es => simp [items, h, itemsFrom]

end Segment

/-! ## Cuts -/

section Cut

variable (c : Nat)

theorem keepUpTo_eq_self {pos : Nat} (es : List LogEntry) (h : pos + entriesSize es ≤ c) : keepUpTo c pos es = es := by
  induction es generalizing pos with
  | nil => rfl
  | cons e es ih =>
    rw [entriesSize_cons] at h
    rw [keepUpTo, if_pos (by omega), ih (by omega)]

/-- The records kept by a cut are the first ones. -/
theorem keepUpTo_prefix (pos : Nat) (es : List LogEntry) : keepUpTo c pos es <+: es := by
  induction es generalizing pos with
  | nil => exact List.prefix_refl _
  | cons e es ih =>
    rw [keepUpTo]
    split
    · exact (List.prefix_cons_inj e).mpr (ih _)
    · exact List.nil_prefix

/-- The items kept by a cut are those that end at or before it. -/
theorem itemsFrom_keepUpTo (g offset pos : Nat) (es : List LogEntry) :
    itemsFrom g offset pos (keepUpTo c pos es) = (itemsFrom g offset pos es).filter (fun i => i.endPos ≤ c) := by
  induction es generalizing offset pos with
  | nil => rfl
  | cons e es ih =>
    rw [keepUpTo, itemsFrom]
    split
    · rename_i hle
      rw [itemsFrom, ih, List.filter_cons_of_pos (by simpa using hle)]
    · rename_i hgt
      rw [itemsFrom, List.filter_cons_of_neg (by simpa using hgt), eq_comm, List.filter_eq_nil_iff]
      intro i hi
      have := endPos_of_mem_itemsFrom hi
      simp only [decide_eq_true_eq]
      omega

/-- The bytes before a cut: the frames that are kept, then the beginning of the next one, if there is a next one. -/
theorem take_flatMap_framesFrom (offset pos : Nat) (es : List LogEntry) (hc : pos ≤ c) :
    ∃ tail, ((framesFrom offset es).flatMap Frame.bytes).take (c - pos) =
        (framesFrom offset (keepUpTo c pos es)).flatMap Frame.bytes ++ tail ∧
      ((keepUpTo c pos es = es ∧ tail = []) ∨
        ∃ e rest r, es = keepUpTo c pos es ++ e :: rest ∧ r < e.size ∧
          tail = (e.frame (offset + (keepUpTo c pos es).length)).bytes.take r) := by
  induction es generalizing offset pos with
  | nil => exact ⟨[], by simp [framesFrom, keepUpTo]⟩
  | cons e es ih =>
    by_cases hle : pos + e.size ≤ c
    · obtain ⟨tail, htake, htail⟩ := ih (offset + 1) (pos + e.size) hle
      have hsplit : ((framesFrom offset (e :: es)).flatMap Frame.bytes).take (c - pos) =
          (e.frame offset).bytes ++ ((framesFrom (offset + 1) es).flatMap Frame.bytes).take (c - (pos + e.size)) := by
        rw [framesFrom, List.flatMap_cons, List.take_append, LogEntry.length_frame_bytes,
          List.take_of_length_le (by rw [LogEntry.length_frame_bytes]; omega), Nat.sub_add_eq]
      refine ⟨tail, ?_, ?_⟩
      · rw [hsplit, htake, keepUpTo, if_pos hle, framesFrom, List.flatMap_cons, List.append_assoc]
      · rw [keepUpTo, if_pos hle]
        rcases htail with ⟨hall, rfl⟩ | ⟨e', rest, r, hes, hr, rfl⟩
        · exact Or.inl ⟨by rw [hall], rfl⟩
        · refine Or.inr ⟨e', rest, r, ?_, hr, ?_⟩
          · rw [List.cons_append, ← hes]
          · rw [List.length_cons, show offset + 1 + (keepUpTo c (pos + e.size) es).length =
              offset + ((keepUpTo c (pos + e.size) es).length + 1) by omega]
    · refine ⟨(e.frame offset).bytes.take (c - pos), ?_, Or.inr ⟨e, es, c - pos, ?_, by omega, ?_⟩⟩
      · rw [keepUpTo, if_neg hle, framesFrom.eq_2, List.flatMap_cons, List.take_append_of_le_length (by
          rw [LogEntry.length_frame_bytes]; omega)]
        rfl
      · rw [keepUpTo, if_neg hle]
        rfl
      · rw [keepUpTo, if_neg hle]
        rfl

end Cut

namespace Segment

@[simp] theorem start_cut (g : Segment) (c : Nat) : (g.cut c).start = g.start := rfl

theorem entries_cut_prefix (g : Segment) (c : Nat) : (g.cut c).entries <+: g.entries := keepUpTo_prefix c _ _

theorem items_cut (g : Segment) (c : Nat) : (g.cut c).items = g.items.filter (fun i => i.endPos ≤ c) :=
  itemsFrom_keepUpTo c g.start g.start segmentHeaderSize g.entries

/-- Nothing is cut off at the end of the file. -/
theorem cut_length (g : Segment) : g.cut g.bytes.length = g := by
  have hkeep : keepUpTo g.bytes.length segmentHeaderSize g.entries = g.entries :=
    keepUpTo_eq_self _ _ (Nat.le_of_eq (g.length_bytes).symm)
  rw [cut, hkeep]

/-- A segment cut behind its header: the kept frames and the beginning of the next one. -/
theorem take_bytes (g : Segment) (c : Nat) (hc : segmentHeaderSize ≤ c) :
    ∃ tail, g.bytes.take c = (g.cut c).bytes ++ tail ∧
      (((g.cut c).entries = g.entries ∧ tail = []) ∨
        ∃ e rest r, g.entries = (g.cut c).entries ++ e :: rest ∧ r < e.size ∧
          tail = (e.frame (g.cut c).next).bytes.take r) := by
  obtain ⟨tail, htake, htail⟩ := take_flatMap_framesFrom c g.start segmentHeaderSize g.entries hc
  refine ⟨tail, ?_, htail⟩
  have hhdr : (segmentHeaderBytes g.start g.ts).take c = segmentHeaderBytes g.start g.ts :=
    List.take_of_length_le (by rw [length_segmentHeaderBytes]; exact hc)
  rw [bytes, List.take_append, length_segmentHeaderBytes, hhdr]
  show _ ++ ((framesFrom g.start g.entries).flatMap Frame.bytes).take (c - segmentHeaderSize) = _
  rw [htake, ← List.append_assoc]
  rfl

theorem mem_frames_mono {g g' : Segment} (hstart : g.start = g'.start) (h : g.entries <+: g'.entries) {f : Frame}
    (hf : f ∈ g.frames) : f ∈ g'.frames := by
  obtain ⟨rest, hrest⟩ := h
  rw [frames, ← hrest, framesFrom_append, ← hstart]
  exact List.mem_append_left _ hf

theorem fits_cut {g : Segment} (h : g.Fits) (c : Nat) : (g.cut c).Fits := fun f hf =>
  h f (mem_frames_mono (g.start_cut c) (g.entries_cut_prefix c) hf)

theorem within_cut {limit : Int} {g : Segment} (h : g.Within limit) (c : Nat) : (g.cut c).Within limit := fun f hf =>
  h f (mem_frames_mono (g.start_cut c) (g.entries_cut_prefix c) hf)

end Segment

/-! ## Layouts -/

/-- Segments that follow each other start one after the other. -/
theorem start_le_of_chain {g : Segment} {gs : List Segment} (h : (g :: gs).IsChain (fun g g' => g.next = g'.start)) :
    ∀ g' ∈ gs, g.start ≤ g'.start := by
  induction gs generalizing g with
  | nil => simp
  | cons g1 gs ih =>
    rw [List.isChain_cons_cons] at h
    have hle : g.start ≤ g1.start := by
      rw [← h.1, Segment.next]
      omega
    intro g' hg'
    rcases List.mem_cons.mp hg' with rfl | hg'
    · exact hle
    · exact Nat.le_trans hle (ih h.2 g' hg')

namespace Layout

theorem first_le (L : Layout) : ∀ g ∈ L.segments, L.first ≤ g.start := by
  have hchain := L.chain
  unfold first segments
  cases hsealed : L.sealed with
  | nil => simp
  | cons g gs =>
    rw [hsealed] at hchain
    intro g' hg'
    rcases List.mem_cons.mp hg' with rfl | hg'
    · exact Nat.le_refl _
    · exact start_le_of_chain hchain g' hg'

@[simp] theorem next_extend (L : Layout) (es : List LogEntry) (h : ∀ f ∈ framesFrom L.next es, f.Fits) :
    (L.extend es h).next = L.next + es.length := by
  simp [next, extend]

theorem items_extend (L : Layout) (es : List LogEntry) (h : ∀ f ∈ framesFrom L.next es, f.Fits) :
    (L.extend es h).items = L.items ++ itemsFrom L.active.start L.next L.active.bytes.length es := by
  simp only [items, segments, extend, List.flatMap_append, List.flatMap_cons, List.flatMap_nil, List.append_nil,
    Segment.items_extend, List.append_assoc]
  rfl

theorem filesWith_extend (L : Layout) (es : List LogEntry) (h : ∀ f ∈ framesFrom L.next es, f.Fits) :
    (L.extend es h).filesWith [] = L.filesWith ((framesFrom L.next es).flatMap Frame.bytes) := by
  simp only [filesWith, extend, Segment.bytes_extend, List.append_nil]
  rfl

@[simp] theorem next_rotate (L : Layout) (ts : UInt64) : (L.rotate ts).next = L.next := by
  simp [next, rotate, Segment.next]

@[simp] theorem items_rotate (L : Layout) (ts : UInt64) : (L.rotate ts).items = L.items := by
  simp only [items, segments, rotate]
  split
  · rename_i hnil
    simp [Segment.items, itemsFrom, hnil]
  · simp [Segment.items, itemsFrom]

theorem bytes_active_rotate (L : Layout) (ts : UInt64) : (L.rotate ts).active.bytes = segmentHeaderBytes L.next ts := by
  simp [rotate, Segment.bytes, Segment.frames, framesFrom]

/-- The segments of the later layout continue those of the earlier one, or start behind all of them. -/
structure Continues (L L' : Layout) : Prop where
  segment : ∀ g' ∈ L'.segments, (∃ g ∈ L.segments, g.start = g'.start ∧ g.entries <+: g'.entries) ∨ L.active.start < g'.start
  active : L.active.start ≤ L'.active.start

theorem Continues.refl (L : Layout) : L.Continues L := ⟨fun g hg => Or.inl ⟨g, hg, rfl, List.prefix_refl _⟩, Nat.le_refl _⟩

theorem Continues.trans {L L' L'' : Layout} (h : L.Continues L') (h' : L'.Continues L'') : L.Continues L'' := by
  refine ⟨fun g'' hg'' => ?_, h.active.trans h'.active⟩
  rcases h'.segment g'' hg'' with ⟨g', hg', hstart', hpre'⟩ | hlt
  · rcases h.segment g' hg' with ⟨g, hg, hstart, hpre⟩ | hlt
    · exact Or.inl ⟨g, hg, hstart.trans hstart', hpre.trans hpre'⟩
    · exact Or.inr (hstart' ▸ hlt)
  · exact Or.inr (h.active.trans_lt hlt)

theorem continues_extend (L : Layout) (es : List LogEntry) (h : ∀ f ∈ framesFrom L.next es, f.Fits) : L.Continues (L.extend es h) := by
  refine ⟨fun g' hg' => Or.inl ?_, Nat.le_refl _⟩
  rcases List.mem_append.mp hg' with hg' | hg'
  · exact ⟨g', List.mem_append_left _ hg', rfl, List.prefix_refl _⟩
  · rw [List.mem_singleton.mp hg']
    exact ⟨L.active, List.mem_append_right _ (List.mem_singleton_self _), rfl, List.prefix_append _ _⟩

theorem continues_rotate (L : Layout) (ts : UInt64) : L.Continues (L.rotate ts) := by
  have hle : L.active.start ≤ L.next := Nat.le_add_right _ _
  refine ⟨fun g' hg' => ?_, hle⟩
  rcases List.mem_append.mp hg' with hg' | hg'
  · refine Or.inl ⟨g', ?_, rfl, List.prefix_refl _⟩
    simp only [rotate] at hg'
    split at hg'
    · exact List.mem_append_left _ hg'
    · exact hg'
  · rw [List.mem_singleton.mp hg']
    by_cases hnil : L.active.entries = []
    · refine Or.inl ⟨L.active, List.mem_append_right _ (List.mem_singleton_self _), ?_, by rw [hnil]; exact List.nil_prefix⟩
      simp [rotate, next, Segment.next, hnil]
    · have hpos := List.length_pos_iff.mpr hnil
      refine Or.inr ?_
      simp only [rotate, next, Segment.next]
      omega

/-- Either a rotation happened or it did not. -/
def Rotated (L L' : Layout) : Prop := L' = L ∨ ∃ ts, L' = L.rotate ts

theorem Rotated.items {L L' : Layout} (h : L.Rotated L') : L'.items = L.items := by
  rcases h with rfl | ⟨ts, rfl⟩
  · rfl
  · exact L.items_rotate ts

theorem Rotated.continues {L L' : Layout} (h : L.Rotated L') : L.Continues L' := by
  rcases h with rfl | ⟨ts, rfl⟩
  · exact .refl L'
  · exact L.continues_rotate ts

theorem Rotated.next {L L' : Layout} (h : L.Rotated L') : L'.next = L.next := by
  rcases h with rfl | ⟨ts, rfl⟩
  · rfl
  · exact L.next_rotate ts

@[simp] theorem first_extend (L : Layout) (es : List LogEntry) (h : ∀ f ∈ framesFrom L.next es, f.Fits) :
    (L.extend es h).first = L.first := rfl

@[simp] theorem first_rotate (L : Layout) (ts : UInt64) : (L.rotate ts).first = L.first := by
  have hsealed : (L.rotate ts).sealed = if L.active.entries = [] then L.sealed else L.sealed ++ [L.active] := rfl
  have hactive : (L.rotate ts).active.start = L.next := rfl
  unfold first
  rw [hsealed, hactive]
  by_cases hnil : L.active.entries = []
  · cases L.sealed with
    | nil => simp [hnil, next, Segment.next]
    | cons g gs => simp [hnil]
  · cases L.sealed <;> simp [hnil]

theorem Rotated.first {L L' : Layout} (h : L.Rotated L') : L'.first = L.first := by
  rcases h with rfl | ⟨ts, rfl⟩
  · rfl
  · exact L.first_rotate ts

/-- The offsets of segments that follow each other are consecutive. -/
theorem map_offset_chain {gs : List Segment} {g : Segment}
    (h : (gs ++ [g]).IsChain (fun g g' => g.next = g'.start)) {a : Nat} (ha : ∀ g' ∈ (gs ++ [g]).head?, g'.start = a) :
    ((gs ++ [g]).flatMap Segment.items).map Item.offset = List.range' a (g.next - a) ∧ a ≤ g.next := by
  induction gs generalizing a with
  | nil =>
    have hstart : g.start = a := ha g rfl
    refine ⟨?_, by rw [Segment.next]; omega⟩
    simp [← hstart, Segment.next]
  | cons g1 gs ih =>
    have hstart : g1.start = a := ha g1 rfl
    rw [List.cons_append, List.isChain_cons] at h
    obtain ⟨hoff, hle⟩ := ih h.2 (a := g1.next) (fun g' hg' => (h.1 g' hg').symm)
    have hnext : a + g1.entries.length = g1.next := by rw [Segment.next, hstart]
    refine ⟨?_, by omega⟩
    rw [List.cons_append, List.flatMap_cons, List.map_append, hoff, Segment.map_offset_items, hstart, ← hnext,
      List.range'_append_1]
    congr 1
    omega

/-- The offsets of a layout are all those from the first to the next. -/
theorem map_offset_items (L : Layout) : L.items.map Item.offset = List.range' L.first (L.next - L.first) ∧
    L.first ≤ L.next := by
  refine map_offset_chain L.chain ?_
  intro g hg
  unfold first
  cases hsealed : L.sealed with
  | nil =>
    rw [hsealed] at hg
    simp only [List.nil_append, List.head?_cons, Option.mem_def, Option.some.injEq] at hg
    rw [← hg]
  | cons g1 gs =>
    rw [hsealed] at hg
    simp only [List.cons_append, List.head?_cons, Option.mem_def, Option.some.injEq] at hg
    rw [← hg]

theorem next_eq (L : Layout) : L.next = L.first + L.items.length := by
  obtain ⟨hoff, hle⟩ := L.map_offset_items
  have hlen := congrArg List.length hoff
  rw [List.length_map, List.length_range'] at hlen
  omega

theorem first_le_offset (L : Layout) {i : Item} (h : i ∈ L.items) : L.first ≤ i.offset ∧ i.offset < L.next := by
  have hmem : i.offset ∈ L.items.map Item.offset := List.mem_map_of_mem h
  obtain ⟨hoff, hle⟩ := L.map_offset_items
  rw [hoff, List.mem_range'_1] at hmem
  omega

/-- The next offset follows the last item. -/
theorem next_eq_last (L : Layout) (h : L.first = 0) :
    L.next = match L.items.getLast? with
      | none => 0
      | some i => i.offset + 1 := by
  obtain ⟨hoff, _⟩ := L.map_offset_items
  rw [h, Nat.sub_zero] at hoff
  have hlast := congrArg List.getLast? hoff
  rw [List.getLast?_map, List.getLast?_range'] at hlast
  split at hlast
  · rename_i hzero
    rw [Option.map_eq_none_iff] at hlast
    rw [hlast, hzero]
  · rw [Option.map_eq_some_iff] at hlast
    obtain ⟨i, hi, hoffset⟩ := hlast
    rw [hi]
    simp only
    omega

/-- The limits hold of the segments if and only if they hold of the items. -/
theorem within_iff_items {limit : Int} {L : Layout} : L.Within limit ↔ ∀ i ∈ L.items,
    (recordBytes i.entry.record).length ≤ maxFramePayloadBytes ∧ ((recordBytes i.entry.record).length : Int) ≤ limit := by
  constructor
  · intro hw i hi
    obtain ⟨g, hg, hig⟩ := List.mem_flatMap.mp hi
    obtain ⟨f, hf, hfi⟩ := frame_of_mem_itemsFrom hig
    rw [← hfi]
    exact hw g hg f hf
  · intro h g hg f hf
    obtain ⟨i, hi, hif⟩ := item_of_mem_framesFrom segmentHeaderSize hf
    rw [← hif]
    exact h i (List.mem_flatMap.mpr ⟨g, hg, hi⟩)

theorem within_initial (limit : Int) (start : Nat) (ts : UInt64) : (initial start ts).Within limit := by
  intro g hg f hf
  simp only [segments, initial, List.nil_append, List.mem_singleton] at hg
  simp [hg, Segment.frames, framesFrom] at hf

/-- A layout within the limits stays so with records that fit them. -/
theorem within_extend {limit : Int} {L : Layout} (hw : L.Within limit) {es : List LogEntry}
    (h : ∀ f ∈ framesFrom L.next es, f.Fits)
    (hes : ∀ e ∈ es, (recordBytes e.record).length ≤ maxFramePayloadBytes ∧ ((recordBytes e.record).length : Int) ≤ limit) :
    (L.extend es h).Within limit := by
  intro g hg
  rcases List.mem_append.mp hg with hg | hg
  · exact hw g (List.mem_append_left _ hg)
  · rw [List.mem_singleton.mp hg]
    intro f hf
    simp only [extend, Segment.frames, Segment.extend, framesFrom_append, List.mem_append] at hf
    rcases hf with hf | hf
    · exact hw L.active (by simp [segments]) f hf
    · obtain ⟨e, he, o, rfl⟩ := mem_framesFrom hf
      exact hes e he

theorem within_rotate {limit : Int} {L : Layout} (hw : L.Within limit) (ts : UInt64) : (L.rotate ts).Within limit := by
  intro g hg
  rcases List.mem_append.mp hg with hg | hg
  · refine hw g ?_
    simp only [rotate] at hg
    split at hg
    · exact List.mem_append_left _ hg
    · exact hg
  · rw [List.mem_singleton.mp hg]
    intro f hf
    simp [rotate, Segment.frames, framesFrom] at hf

theorem Rotated.within {L L' : Layout} (h : L.Rotated L') {limit : Int} (hw : L.Within limit) : L'.Within limit := by
  rcases h with rfl | ⟨ts, rfl⟩
  · exact hw
  · exact within_rotate hw ts

end Layout

end Mdrap
