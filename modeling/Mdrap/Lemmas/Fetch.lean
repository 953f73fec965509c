import Mathlib.Data.List.TakeWhile
import Mdrap.Lemmas.Read
import Mdrap.Lemmas.Run

/-!
# Reading one record

A record is read back when it and the records before it in its segment are within the limits of the reader; the other segments do not
matter. Reading a log from its first offset on gives, of each segment, exactly the records before the first one beyond a limit.
-/

namespace Mdrap

open Lib

/-- The event of a record at an offset. -/
def LogEntry.event (offset : Nat) (e : LogEntry) : Nat × RawEvent := (offset, eventOfRecord e.ts (.obj e.record))

theorem mem_eventsOf_framesFrom {startOffset offset : Nat} {es : List LogEntry} {p : Nat × RawEvent} :
    p ∈ eventsOf startOffset (framesFrom offset es) ↔
      ∃ before e after, es = before ++ e :: after ∧ startOffset ≤ offset + before.length ∧ p = e.event (offset + before.length) := by
  have hone : ∀ (o : Nat) (e : LogEntry), (if startOffset ≤ (e.frame o).offset then
      (decodeRecord (e.frame o)).map (fun x => ((e.frame o).offset, x)) else none) =
        if startOffset ≤ o then some (e.event o) else none := by
    intro o e
    have hdec : decodeRecord (e.frame o) = some (eventOfRecord e.ts (.obj e.record)) := decodeRecord_recordBytes o e.ts e.record
    rw [hdec]
    rfl
  induction es generalizing offset with
  | nil => simp [eventsOf, framesFrom]
  | cons e es ih =>
    have hcons : p ∈ eventsOf startOffset (framesFrom offset (e :: es)) ↔
        (startOffset ≤ offset ∧ p = e.event offset) ∨ p ∈ eventsOf startOffset (framesFrom (offset + 1) es) := by
      rw [framesFrom, eventsOf, List.filterMap_cons, hone]
      by_cases hle : startOffset ≤ offset
      · rw [if_pos hle]
        simp [eventsOf, hle]
      · rw [if_neg hle]
        simp [eventsOf, hle]
    refine hcons.trans ((or_congr Iff.rfl ih).trans ?_)
    constructor
    · rintro (⟨hle, rfl⟩ | ⟨before, x, after, rfl, hle, rfl⟩)
      · exact ⟨[], e, es, rfl, hle, rfl⟩
      · refine ⟨e :: before, x, after, rfl, ?_, ?_⟩
        · rw [List.length_cons]
          omega
        · rw [List.length_cons, show offset + 1 + before.length = offset + (before.length + 1) by omega]
    · rintro ⟨before, x, after, heq, hle, rfl⟩
      rcases before with _ | ⟨b, before⟩
      · obtain ⟨rfl, rfl⟩ := List.cons.inj heq
        exact Or.inl ⟨hle, rfl⟩
      · obtain ⟨rfl, rfl⟩ := List.cons.inj heq
        rw [List.length_cons] at hle ⊢
        refine Or.inr ⟨before, x, after, rfl, by omega, ?_⟩
        rw [show offset + 1 + before.length = offset + (before.length + 1) by omega]

/-- Records within the limits are read, whatever stands behind them. -/
theorem Segment.frames_upTo {limit : Int} {g : Segment} (hf : g.Fits) {es es' rest : List LogEntry} (hg : g.entries = es ++ (es' ++ rest))
    (hfit : ∀ e ∈ es', e.FitsLimits limit) :
    Frames limit logVersion (g.bytes.drop (segmentHeaderSize + entriesSize es)) (framesFrom (g.start + es.length) es')
      ((framesFrom (g.start + es.length + es'.length) rest).flatMap Frame.bytes) := by
  rw [Segment.drop_bytes hg, framesFrom_append, List.flatMap_append]
  refine Frames.of_readable ?_ _
  intro f hmem
  have hfits : f.Fits := by
    refine hf f ?_
    rw [Segment.frames, hg, framesFrom_append, framesFrom_append]
    exact List.mem_append_right _ (List.mem_append_left _ hmem)
  obtain ⟨e, he, o, rfl⟩ := mem_framesFrom hmem
  exact ⟨hfits, hfit e he⟩

/-- What stands between a place in a list and an element behind it. -/
theorem exists_between {α : Type} {before0 more0 before more : List α} {x : α} (h : before0 ++ more0 = before ++ x :: more)
    (hle : before0.length ≤ before.length) : ∃ mid, before = before0 ++ mid ∧ more0 = mid ++ x :: more := by
  have hprefix : before0 <+: before := List.prefix_of_prefix_length_le ⟨more0, h⟩ (List.prefix_append _ _) hle
  obtain ⟨mid, rfl⟩ := hprefix
  rw [List.append_assoc] at h
  exact ⟨mid, rfl, List.append_cancel_left h⟩

theorem length_le_of_place {es0 es : List LogEntry} {start startOffset : Nat} (hplace : es0 = [] ∨ start + es0.length ≤ startOffset)
    (hle : startOffset ≤ start + es.length) : es0.length ≤ es.length := by
  rcases hplace with rfl | hle0
  · exact Nat.zero_le _
  · omega

/-- The loop of `seek_record` at a frame of the log at or before the wanted offset. -/
theorem seekLoop_bytes {f : Frame} (hf : f.Fits) (hmax : f.payload.length ≤ maxFramePayloadBytes) {target : Nat}
    (hle : f.offset ≤ target) (v : Nat) (file : Bytes) (n : Nat) (r : Bytes) (sought : Bool) :
    seekLoop v target file (n + 1) (f.bytes ++ r) sought =
      if f.offset = target then (decodeRecord f).map (fun e => (f.offset, e)) else seekLoop v target file n r sought := by
  have hhdr : ¬(frameHeaderBytes f logVersion).length < frameHeaderSize := by simp [frameHeaderSize]
  have hdrop : (f.bytes ++ r).drop frameHeaderSize = f.payload ++ r := by
    rw [Frame.bytes, List.append_assoc]
    exact List.drop_left' (by simp [frameHeaderSize])
  have hpayload : (f.payload ++ r).take f.payload.length = f.payload := List.take_left
  have hrest : (f.bytes ++ r).drop (frameHeaderSize + f.payload.length) = r := List.drop_left' (by simp [frameHeaderSize])
  have hprefix : (frameHeaderBytes f logVersion).take 24 = framePrefix f logVersion := by
    rw [frameHeaderBytes]
    exact List.take_left' (by simp)
  have heff : effectiveVersion logVersion v = logVersion := rfl
  have hsize : ¬maxFramePayloadBytes < f.payload.length := by omega
  have hbeyond : ¬target < f.offset := by omega
  rw [seekLoop, take_header_bytes]
  simp only [if_neg hhdr, unpackFrameHeader_bytes hf, ne_eq, not_true_eq_false, false_or, if_neg hsize, if_neg hbeyond, hdrop, hpayload,
    Nat.lt_irrefl, if_false, hprefix, heff, hrest]

/-- A record is found behind records that the loop can pass. -/
theorem seekLoop_records {o : Nat} {before more : List LogEntry} {e : LogEntry} {target : Nat} (htarget : target = o + before.length)
    (hfits : ∀ f ∈ framesFrom o (before ++ [e]), f.Fits)
    (hmax : ∀ x ∈ before ++ [e], (recordBytes x.record).length ≤ maxFramePayloadBytes) (v : Nat) (file : Bytes) (n : Nat) (sought : Bool)
    (hn : before.length < n) :
    seekLoop v target file n ((framesFrom o (before ++ e :: more)).flatMap Frame.bytes) sought = some (e.event target) := by
  induction before generalizing o n with
  | nil =>
    obtain ⟨n, rfl⟩ : ∃ n', n = n' + 1 := ⟨n - 1, by omega⟩
    have hat : (e.frame o).offset = target := by
      rw [htarget]
      rfl
    have hdec : decodeRecord (e.frame o) = some (eventOfRecord e.ts (.obj e.record)) := decodeRecord_recordBytes o e.ts e.record
    rw [List.nil_append, framesFrom, List.flatMap_cons, seekLoop_bytes (hfits _ List.mem_cons_self) (hmax e List.mem_cons_self) hat.le,
      if_pos hat, hdec, hat]
    rfl
  | cons x before ih =>
    obtain ⟨n, rfl⟩ : ∃ n', n = n' + 1 := ⟨n - 1, by omega⟩
    rw [List.length_cons] at htarget hn
    have hbelow : (x.frame o).offset < target := by
      show o < target
      omega
    rw [List.cons_append, framesFrom, List.flatMap_cons, seekLoop_bytes (hfits _ List.mem_cons_self) (hmax x List.mem_cons_self)
      hbelow.le, if_neg hbelow.ne]
    exact ih (by omega) (fun f hf => hfits f (List.mem_cons_of_mem _ hf)) (fun y hy => hmax y (List.mem_cons_of_mem _ hy)) n (by omega)

namespace IngestLog

section

variable {s : IngestLog} {g : Segment} (hf : g.Fits) {file : SegFile} (hget : s.dir.segments.get? g.start = some file)
  (hbytes : file.written = g.bytes) {startOffset : Nat}
  (hs : startOffset ≤ g.start ∨ ∀ x, s.dir.indexes.get? g.start = some x → x.Sound g)

include hf hget hbytes hs

/-- A segment is read by the loop over its frames, from the first one or one at or before the wanted offset. -/
theorem iterSegment_eq : ∃ es more sought fuel,
    g.entries = es ++ more ∧ (es = [] ∨ g.start + es.length ≤ startOffset) ∧ (startOffset ≤ g.start → es = [] ∧ sought = false) ∧
      (g.bytes.drop (segmentHeaderSize + entriesSize es)).length < fuel ∧
      (s.iterSegment startOffset g.start g.bytes).1 = (iterLoop s.config.maxSegmentBytes logVersion startOffset g.bytes fuel
        (g.bytes.drop (segmentHeaderSize + entriesSize es)) sought false).1 ∧
      s.Reads (s.iterSegment startOffset g.start g.bytes).2 ∧
      LogDir.Indexed g s.dir (s.iterSegment startOffset g.start g.bytes).2.dir := by
  have hlen : ¬g.bytes.length < segmentHeaderSize := by
    rw [Segment.length_bytes]
    omega
  have hmagic : segmentMagic g.bytes = logMagic := segmentMagic_header _ _ _
  have hversion : segmentVersion g.bytes = logVersion := segmentVersion_header _ _ _
  unfold iterSegment
  rw [if_neg hlen, if_neg (by simp [hmagic, hversion, supportedLogVersions, logVersion])]
  rcases hseek : s.seekSegment startOffset g.start g.bytes with ⟨rest, sought, t⟩
  obtain ⟨⟨es, more, hg, hplace, rfl, hfirst⟩, hreads, hindexed⟩ := seekSegment_place hf hget hbytes hs hseek
  have hcfg : t.config = s.config := by rw [hreads]
  refine ⟨es, more, sought, 2 * g.bytes.length + 2, hg, hplace, hfirst, by rw [List.length_drop]; omega, ?_, ?_, hindexed⟩
  · simp only [hcfg, hversion]
  · refine hreads.trans ?_
    simp only
    rfl

/-- A record is read if it and those before it are within the limits. -/
theorem event_mem_iterSegment {es more : List LogEntry} {e : LogEntry} (hg : g.entries = es ++ e :: more)
    (hfit : ∀ x ∈ es ++ [e], x.FitsLimits s.config.maxSegmentBytes) (hle : startOffset ≤ g.start + es.length) :
    e.event (g.start + es.length) ∈ (s.iterSegment startOffset g.start g.bytes).1 := by
  obtain ⟨es0, more0, sought, fuel, hg0, hplace, -, hfuel, hread, -⟩ := iterSegment_eq hf hget hbytes hs
  -- the reading begins at a record before this one
  obtain ⟨mid, rfl, rfl⟩ := exists_between (hg0.symm.trans hg) (length_le_of_place hplace hle)
  have hsplit : g.entries = es0 ++ ((mid ++ [e]) ++ more) := by
    rw [hg, List.append_assoc, List.append_assoc]
    rfl
  have hframes := Segment.frames_upTo hf hsplit (fun x hx => hfit x (by rw [List.append_assoc]; exact List.mem_append_right _ hx))
  obtain ⟨m, y, -, hloop⟩ := hframes.iterLoop startOffset g.bytes fuel sought false hfuel
  rw [hread, hloop]
  refine List.mem_append_left _ (mem_eventsOf_framesFrom.mpr ⟨mid, e, [], rfl, ?_, ?_⟩)
  · rw [List.length_append] at hle
    omega
  · rw [List.length_append, Nat.add_assoc]

/-- Read from its first record on, a segment gives the records before the first one beyond a limit. -/
theorem of_mem_iterSegment (hfirst : startOffset ≤ g.start) {p : Nat × RawEvent}
    (hp : p ∈ (s.iterSegment startOffset g.start g.bytes).1) : ∃ es e more, g.entries = es ++ e :: more ∧
      (∀ x ∈ es ++ [e], x.FitsLimits s.config.maxSegmentBytes) ∧ p = e.event (g.start + es.length) := by
  obtain ⟨es0, more0, sought, fuel, hg0, -, hbegin, hfuel, hread, -⟩ := iterSegment_eq hf hget hbytes hs
  obtain ⟨rfl, rfl⟩ := hbegin hfirst
  obtain ⟨good, bad, hsplit, hgood, hbad⟩ : ∃ good bad, g.entries = good ++ bad ∧
      (∀ x ∈ good, x.FitsLimits s.config.maxSegmentBytes) ∧ ∀ b ∈ bad.head?, ¬b.FitsLimits s.config.maxSegmentBytes := by
    refine ⟨g.entries.takeWhile (fun x => x.FitsLimits s.config.maxSegmentBytes), _, List.takeWhile_append_dropWhile.symm, ?_, ?_⟩
    · intro x hx
      simpa using List.mem_takeWhile_imp hx
    · intro b hb
      have hnot := List.head?_dropWhile_not (fun x : LogEntry => decide (x.FitsLimits s.config.maxSegmentBytes)) g.entries
      rw [Option.mem_def.mp hb] at hnot
      simpa using hnot
  have hframes := Segment.frames_upTo hf (show g.entries = [] ++ (good ++ bad) from hsplit) hgood
  obtain ⟨m, y, hm, hloop⟩ := hframes.iterLoop startOffset g.bytes fuel false false hfuel
  -- nothing is read from the first one beyond a limit on
  have hrest : (iterLoop s.config.maxSegmentBytes logVersion startOffset g.bytes m
      ((framesFrom (g.start + ([] : List LogEntry).length + good.length) bad).flatMap Frame.bytes) false y).1 = [] := by
    obtain ⟨m, rfl⟩ : ∃ m', m = m' + 1 := ⟨m - 1, by omega⟩
    rcases bad with _ | ⟨b, bad⟩
    · rfl
    · have hbytes : (b.frame (g.start + ([] : List LogEntry).length + good.length)).Fits := by
        refine hf _ ?_
        rw [Segment.frames, hsplit, framesFrom_append]
        exact List.mem_append_right _ List.mem_cons_self
      obtain ⟨h, hover⟩ := readFrame_oversized hbytes (hbad b rfl) logVersion
        ((framesFrom (g.start + ([] : List LogEntry).length + good.length + 1) bad).flatMap Frame.bytes)
      rw [framesFrom, List.flatMap_cons, iterLoop, hover]
      rfl
  rw [hread, hloop, hrest, List.append_nil] at hp
  obtain ⟨before, e, after, rfl, -, rfl⟩ := mem_eventsOf_framesFrom.mp hp
  refine ⟨before, e, after ++ bad, by rw [hsplit, List.append_assoc]; rfl, ?_, rfl⟩
  intro x hx
  refine hgood x ?_
  rw [← List.singleton_append, ← List.append_assoc]
  exact List.mem_append_left _ hx

/-- The record of an offset is found in its segment. -/
theorem seekSegment_found {es more : List LogEntry} {e : LogEntry} (hg : g.entries = es ++ e :: more)
    (hmax : ∀ x ∈ es ++ [e], (recordBytes x.record).length ≤ maxFramePayloadBytes) (htarget : startOffset = g.start + es.length)
    {rest : Bytes} {sought : Bool} {t : IngestLog} (h : s.seekSegment startOffset g.start g.bytes = (rest, sought, t)) :
    seekLoop logVersion startOffset g.bytes (2 * g.bytes.length + 2) rest sought = some (e.event startOffset) := by
  obtain ⟨⟨es0, more0, hg0, hplace, rfl, -⟩, -⟩ := seekSegment_place hf hget hbytes hs h
  obtain ⟨mid, rfl, rfl⟩ := exists_between (hg0.symm.trans hg) (length_le_of_place hplace htarget.le)
  have hlen : mid.length < 2 * g.bytes.length + 2 := by
    have hsize : ∀ es : List LogEntry, es.length ≤ entriesSize es := by
      intro es
      induction es with
      | nil => exact Nat.le_refl 0
      | cons x es ih =>
        have hpos := x.size_pos
        rw [List.length_cons, entriesSize_cons]
        omega
    have hall := hsize g.entries
    rw [hg0, List.length_append, List.length_append] at hall
    rw [Segment.length_bytes, hg0]
    omega
  rw [Segment.drop_bytes hg0]
  refine seekLoop_records (by rw [htarget, List.length_append, Nat.add_assoc]) ?_ ?_ _ _ _ _ hlen
  · intro f hmem
    refine hf f ?_
    rw [Segment.frames, hg0, framesFrom_append]
    refine List.mem_append_right _ ?_
    rw [show mid ++ e :: more = mid ++ [e] ++ more by simp, framesFrom_append]
    exact List.mem_append_left _ hmem
  · intro x hx
    refine hmax x ?_
    rw [List.append_assoc]
    exact List.mem_append_right _ hx

end

/-! ## The whole log -/

/-- The log has the file of a segment as it is, and no wrong index for it that the reading would use. -/
structure HasSegment (s : IngestLog) (g : Segment) (startOffset : Nat) : Prop where
  file : ∃ file, s.dir.segments.get? g.start = some file ∧ file.written = g.bytes
  index : startOffset ≤ g.start ∨ ∀ x, s.dir.indexes.get? g.start = some x → x.Sound g

theorem HasSegment.indexed {s t : IngestLog} {g g' : Segment} {startOffset : Nat} (h : s.HasSegment g' startOffset)
    (hindexed : LogDir.Indexed g s.dir t.dir) (huniq : g'.start = g.start → g' = g) : t.HasSegment g' startOffset := by
  refine ⟨by rw [hindexed.1]; exact h.file, h.index.imp_right (fun hs x hx => ?_)⟩
  rcases hindexed.2 with heq | ⟨y, hy, heq⟩
  · rw [heq] at hx
    exact hs x hx
  · rw [heq, Store.get?_put] at hx
    split at hx
    · rename_i hstart
      cases hx
      rw [huniq hstart]
      exact hy
    · exact hs x hx

/-- What is read from segment files is read from one of them, and none that has a record from the offset on is left out. -/
theorem iterSegments_of {s : IngestLog} {startOffset : Nat} {gs : List Segment} {es : List (Nat × SegFile)}
    (hes : es.map (fun e => (e.1, e.2.written)) = gs.map (fun g => (g.start, g.bytes)))
    (hchain : gs.IsChain (fun g g' => g.next = g'.start)) (hf : ∀ g ∈ gs, g.Fits)
    (huniq : ∀ g ∈ gs, ∀ g' ∈ gs, g'.start = g.start → g' = g) (hhas : ∀ g ∈ gs, s.HasSegment g startOffset) :
    (∀ p ∈ (iterSegments startOffset es s).1, ∃ g ∈ gs, ∃ t : IngestLog, t.config = s.config ∧ t.HasSegment g startOffset ∧
      p ∈ (t.iterSegment startOffset g.start g.bytes).1) ∧
    ∀ g ∈ gs, startOffset < g.next → ∃ t : IngestLog, t.config = s.config ∧ t.HasSegment g startOffset ∧
      ∀ p ∈ (t.iterSegment startOffset g.start g.bytes).1, p ∈ (iterSegments startOffset es s).1 := by
  induction gs generalizing es s with
  | nil =>
    rw [List.map_nil, List.map_eq_nil_iff] at hes
    subst hes
    exact ⟨fun p hp => absurd hp List.not_mem_nil, fun g hg => absurd hg List.not_mem_nil⟩
  | cons g gs ih =>
    cases es with
    | nil => simp at hes
    | cons e es =>
      obtain ⟨k, f⟩ := e
      simp only [List.map_cons, List.cons.injEq, Prod.mk.injEq] at hes
      obtain ⟨⟨rfl, hbytes⟩, hes⟩ := hes
      rw [List.isChain_cons] at hchain
      have hf' : ∀ g' ∈ gs, g'.Fits := fun g' hg' => hf g' (List.mem_cons_of_mem _ hg')
      have huniq' : ∀ g1 ∈ gs, ∀ g2 ∈ gs, g2.start = g1.start → g2 = g1 := fun g1 h1 g2 h2 =>
        huniq g1 (List.mem_cons_of_mem _ h1) g2 (List.mem_cons_of_mem _ h2)
      rw [iterSegments]
      by_cases hskip : nextStartsBy startOffset es = true
      · -- the next segment starts at or before the offset, so this one ends before it
        have hnext : g.next ≤ startOffset := by
          cases es with
          | nil => cases hskip
          | cons e' es =>
            cases gs with
            | nil => simp at hes
            | cons g' gs =>
              simp only [List.map_cons, List.cons.injEq, Prod.mk.injEq] at hes
              rw [hchain.1 g' rfl, ← hes.1.1]
              simpa [nextStartsBy] using hskip
        obtain ⟨hof, hto⟩ := ih hes hchain.2 hf' huniq' (fun g' hg' => hhas g' (List.mem_cons_of_mem _ hg'))
        rw [if_pos hskip]
        refine ⟨fun p hp => ?_, fun g' hg' hlt => ?_⟩
        · obtain ⟨g', hg', hread⟩ := hof p hp
          exact ⟨g', List.mem_cons_of_mem _ hg', hread⟩
        · rcases List.mem_cons.mp hg' with rfl | hg'
          · omega
          · exact hto g' hg' hlt
      · have hhead := hhas g List.mem_cons_self
        obtain ⟨file, hget, hwritten⟩ := hhead.file
        obtain ⟨-, -, -, -, -, -, -, -, -, hreads, hindexed⟩ := iterSegment_eq (hf g List.mem_cons_self) hget hwritten hhead.index
        rw [if_neg hskip, hbytes]
        rcases hseg : s.iterSegment startOffset g.start g.bytes with ⟨events, t⟩
        rw [hseg] at hreads hindexed
        simp only at hreads hindexed ⊢
        have hcfg : t.config = s.config := by rw [hreads]
        obtain ⟨hof, hto⟩ := ih (s := t) hes hchain.2 hf' huniq' (fun g' hg' =>
          (hhas g' (List.mem_cons_of_mem _ hg')).indexed hindexed (fun heq => huniq g List.mem_cons_self g' (List.mem_cons_of_mem _ hg') heq))
        rcases hrest : iterSegments startOffset es t with ⟨more, u⟩
        rw [hrest] at hof hto
        refine ⟨fun p hp => ?_, fun g' hg' hlt => ?_⟩
        · rcases List.mem_append.mp hp with hp | hp
          · exact ⟨g, List.mem_cons_self, s, rfl, hhead, by rw [hseg]; exact hp⟩
          · obtain ⟨g', hg', u', hcfg', hread⟩ := hof p hp
            exact ⟨g', List.mem_cons_of_mem _ hg', u', hcfg'.trans hcfg, hread⟩
        · rcases List.mem_cons.mp hg' with rfl | hg'
          · exact ⟨s, rfl, hhead, fun p hp => List.mem_append_left _ (by rw [hseg] at hp; exact hp)⟩
          · obtain ⟨u', hcfg', hhas', hall⟩ := hto g' hg' hlt
            exact ⟨u', hcfg'.trans hcfg, hhas', fun p hp => List.mem_append_right _ (hall p hp)⟩

/-- The record of an offset is found among segment files. -/
theorem seekSegments_found {s : IngestLog} {target : Nat} {gs : List Segment} {es : List (Nat × SegFile)}
    (hes : es.map (fun e => (e.1, e.2.written)) = gs.map (fun g => (g.start, g.bytes)))
    (hchain : gs.IsChain (fun g g' => g.next = g'.start)) {g : Segment} (hg : g ∈ gs) (hf : g.Fits) (hhas : s.HasSegment g target)
    {before more : List LogEntry} {e : LogEntry} (hentries : g.entries = before ++ e :: more)
    (hmax : ∀ x ∈ before ++ [e], (recordBytes x.record).length ≤ maxFramePayloadBytes) (htarget : target = g.start + before.length) :
    (seekSegments target es s).1 = some (e.event target) := by
  induction gs generalizing es with
  | nil => cases hg
  | cons g1 gs ih =>
    cases es with
    | nil => simp at hes
    | cons e1 es =>
      obtain ⟨k, f⟩ := e1
      simp only [List.map_cons, List.cons.injEq, Prod.mk.injEq] at hes
      obtain ⟨⟨rfl, hbytes⟩, hes⟩ := hes
      rw [seekSegments, hbytes]
      have hlen : ¬g1.bytes.length < segmentHeaderSize := by
        rw [Segment.length_bytes]
        omega
      rw [List.isChain_cons] at hchain
      rw [if_neg hlen]
      rcases List.mem_cons.mp hg with rfl | hg
      · -- the next segment starts behind the record
        have hskip : ¬nextStartsBy target es = true := by
          cases es with
          | nil => exact Bool.false_ne_true
          | cons e2 es =>
            cases gs with
            | nil => simp at hes
            | cons g2 gs =>
              simp only [List.map_cons, List.cons.injEq, Prod.mk.injEq] at hes
              have hnext : g.next = g2.start := hchain.1 g2 rfl
              have hlong := congrArg List.length hentries
              rw [List.length_append, List.length_cons] at hlong
              simp only [nextStartsBy, decide_eq_true_eq, hes.1.1, ← hnext, Segment.next]
              omega
        have hmagic : segmentMagic g.bytes = logMagic := segmentMagic_header _ _ _
        have hversion : segmentVersion g.bytes = logVersion := segmentVersion_header _ _ _
        obtain ⟨file, hget, hwritten⟩ := hhas.file
        rw [if_neg hskip, if_neg (by simp [hmagic, hversion, supportedLogVersions, logVersion])]
        rcases hseek : s.seekSegment target g.start g.bytes with ⟨rest, sought, t⟩
        simp only [hversion]
        exact seekSegment_found hf hget hwritten hhas.index hentries hmax htarget hseek
      · have hskip : nextStartsBy target es = true := by
          cases gs with
          | nil => cases hg
          | cons g2 gs =>
            cases es with
            | nil => simp at hes
            | cons e2 es =>
              simp only [List.map_cons, List.cons.injEq, Prod.mk.injEq] at hes
              have hle : g2.start ≤ g.start := by
                rcases List.mem_cons.mp hg with rfl | hg
                · exact Nat.le_refl _
                · exact start_le_of_chain hchain.2 g hg
              simp only [nextStartsBy, decide_eq_true_eq, hes.1.1]
              omega
        rw [if_pos hskip]
        exact ih hes hchain.2 hg

end IngestLog

/-! ## Records of a layout -/

/-- Where the record of an item stands in its segment. -/
theorem Layout.place_of_mem_items {L : Layout} {i : Item} (hi : i ∈ L.items) : ∃ g ∈ L.segments, ∃ es more,
    g.entries = es ++ i.entry :: more ∧ i.offset = g.start + es.length ∧ i.segment = g.start := by
  obtain ⟨g, hg, hmem⟩ := List.mem_flatMap.mp hi
  have hplace : ∀ {offset pos : Nat} {es : List LogEntry}, i ∈ itemsFrom g.start offset pos es →
      ∃ before more, es = before ++ i.entry :: more ∧ i.offset = offset + before.length := by
    intro offset pos es hmem
    induction es generalizing offset pos with
    | nil => cases hmem
    | cons e es ih =>
      rcases List.mem_cons.mp hmem with rfl | hmem
      · exact ⟨[], es, rfl, rfl⟩
      · obtain ⟨before, more, rfl, hoff⟩ := ih hmem
        refine ⟨e :: before, more, rfl, ?_⟩
        rw [hoff, List.length_cons]
        omega
  obtain ⟨es, more, hes, hoff⟩ := hplace hmem
  exact ⟨g, hg, es, more, hes, hoff, Segment.segment_of_mem_items hmem⟩

/-- The item of a record in a segment. -/
theorem Layout.item_of_place {L : Layout} {g : Segment} (hg : g ∈ L.segments) {es more : List LogEntry} {e : LogEntry}
    (hes : g.entries = es ++ e :: more) : ∃ i ∈ L.items, i.offset = g.start + es.length ∧ i.entry = e ∧ i.segment = g.start := by
  refine ⟨⟨g.start + es.length, e, g.start, segmentHeaderSize + entriesSize es + e.size⟩, ?_, rfl, rfl, rfl⟩
  refine List.mem_flatMap.mpr ⟨g, hg, ?_⟩
  rw [Segment.items, hes, itemsFrom_append]
  exact List.mem_append_right _ List.mem_cons_self

/-- Items of one offset are one. -/
theorem Layout.item_unique {L : Layout} {i j : Item} (hi : i ∈ L.items) (hj : j ∈ L.items) (h : i.offset = j.offset) : i = j := by
  have hnodup : (L.items.map Item.offset).Nodup := by
    rw [L.map_offset_items.1]
    exact List.nodup_range'
  exact List.inj_on_of_nodup_map hnodup hi hj h

/-- A record and those before it in its segment are within the limits of the reader. -/
def Legible (limit : Int) (items : List Item) (i : Item) : Prop :=
  ∀ j ∈ items, j.segment = i.segment → j.offset ≤ i.offset → j.entry.FitsLimits limit

instance (limit : Int) (items : List Item) (i : Item) : Decidable (Legible limit items i) := by
  unfold Legible
  infer_instance

namespace IngestLog

/-- Legibility is a matter of the segment. -/
theorem legible_iff {s : IngestLog} {L : Layout} (h : s.Represents L) {i : Item} {limit : Int} {g : Segment} (hg : g ∈ L.segments) {es more : List LogEntry} (hes : g.entries = es ++ i.entry :: more)
    (hoff : i.offset = g.start + es.length) (hseg : i.segment = g.start) :
    Legible limit L.items i ↔ ∀ x ∈ es ++ [i.entry], x.FitsLimits limit := by
  constructor
  · intro hlegible x hx
    obtain ⟨before, after, hsplit⟩ := List.append_of_mem hx
    have hentries : g.entries = before ++ x :: (after ++ more) := by
      rw [hes, show es ++ i.entry :: more = es ++ [i.entry] ++ more by simp, hsplit, List.append_assoc]
      rfl
    obtain ⟨j, hj, hjoff, rfl, hjseg⟩ := Layout.item_of_place hg hentries
    refine hlegible j hj (hjseg.trans hseg.symm) ?_
    have hlen := congrArg List.length hsplit
    simp only [List.length_append, List.length_cons, List.length_nil] at hlen
    omega
  · intro hfit j hj hjseg hle
    obtain ⟨g', hg', es', more', hes', hjoff, hjseg'⟩ := Layout.place_of_mem_items hj
    obtain rfl : g' = g := h.unique g hg g' hg' (by rw [← hjseg', hjseg, hseg])
    refine hfit _ ?_
    rw [hes, show es ++ i.entry :: more = es ++ [i.entry] ++ more by simp,
      show es' ++ j.entry :: more' = es' ++ [j.entry] ++ more' by simp] at hes'
    have hprefix : es' ++ [j.entry] <+: es ++ [i.entry] := by
      refine List.prefix_of_prefix_length_le ⟨more', hes'.symm⟩ (List.prefix_append _ _) ?_
      simp only [List.length_append, List.length_cons, List.length_nil]
      omega
    exact hprefix.subset (by simp)

/-- The state in which a log is read: all is in its files, and they are those of the layout. -/
theorem read_of_flush {s : IngestLog} {L : Layout} (h : s.Represents L) (startOffset : Nat)
    (hidx : (∀ g ∈ L.segments, startOffset ≤ g.start) ∨ s.dir.IndexesSound L.segments) (now : UInt64) : (s.flush .ok true now).2.Represents L ∧ (s.flush .ok true now).2.config = s.config ∧
      (s.flush .ok true now).2.dir.segments.entries.map (fun e => (e.1, e.2.written)) = L.segments.map (fun g => (g.start, g.bytes)) ∧
      ∀ g ∈ L.segments, (s.flush .ok true now).2.HasSegment g startOffset := by
  obtain ⟨-, hrep, hdrained, hcfg, hidx', -⟩ := flush_spec h now
  refine ⟨hrep, hcfg, hdrained.files, fun g hg => ⟨?_, hidx.imp (fun hle => hle g hg) (fun hs => by rw [hidx']; exact hs g hg)⟩⟩
  have hmem : (g.start, g.bytes) ∈ (s.flush .ok true now).2.dir.segments.entries.map (fun e => (e.1, e.2.written)) := by
    rw [show (s.flush .ok true now).2.dir.segments.entries.map (fun e => (e.1, e.2.written)) = _ from hdrained.files]
    exact List.mem_map_of_mem hg
  obtain ⟨⟨k, file⟩, hentry, heq⟩ := List.mem_map.mp hmem
  obtain ⟨rfl, hbytes⟩ := Prod.mk.inj heq
  exact ⟨file, Store.get?_of_mem hentry, hbytes⟩

section

variable {s : IngestLog} {L : Layout} (h : s.Represents L) (hidx : s.dir.IndexesSound L.segments) {i : Item} (hi : i ∈ L.items)

include h hidx hi

/-- A legible record is read by `iter_from`, wherever it begins. -/
theorem event_mem_iterFrom (hlegible : Legible s.config.maxSegmentBytes L.items i) {start : Int} (hfirst : L.first ≤ start.toNat)
    (hle : start ≤ i.offset) (now : UInt64) : ∃ events, (s.iterFrom start now).1 = .ok events ∧ i.event ∈ events := by
  obtain ⟨hrep, hcfg, hfiles, hhas⟩ := read_of_flush h start.toNat (Or.inr hidx) now
  obtain ⟨g, hg, es, more, hes, hoff, hseg⟩ := Layout.place_of_mem_items hi
  have hlen := congrArg List.length hes
  rw [List.length_append, List.length_cons] at hlen
  obtain ⟨-, hto⟩ := iterSegments_of hfiles L.chain L.fits hrep.unique hhas
  obtain ⟨t, hcfg', hhas', hall⟩ := hto g hg (by rw [Segment.next]; omega)
  obtain ⟨file, hget, hbytes⟩ := hhas'.file
  have hevent := event_mem_iterSegment (L.fits g hg) hget hbytes hhas'.index hes
    (by rw [hcfg', hcfg]; exact (legible_iff h hg hes hoff hseg).mp hlegible) (by omega)
  refine ⟨(iterSegments start.toNat (s.flush .ok true now).2.dir.segments.entries (s.flush .ok true now).2).1, ?_, ?_⟩
  · rw [iterFrom]
    simp only
    rw [if_neg (by rw [(earliestOffset_eq hrep).1]; omega)]
  · rw [← hoff] at hevent
    exact hall _ hevent

/-- A legible record is found by `seek_record`. -/
theorem seekRecord_found (hlegible : Legible s.config.maxSegmentBytes L.items i) (now : UInt64) :
    (s.seekRecord i.offset now).1 = some i.event := by
  obtain ⟨hrep, hcfg, hfiles, hhas⟩ := read_of_flush h i.offset (Or.inr hidx) now
  obtain ⟨g, hg, es, more, hes, hoff, hseg⟩ := Layout.place_of_mem_items hi
  have hfit := (legible_iff h hg hes hoff hseg).mp hlegible
  rw [seekRecord, if_neg (by omega)]
  simp only [Int.toNat_natCast]
  exact seekSegments_found hfiles L.chain hg (L.fits g hg) (hhas g hg) hes (fun x hx => (hfit x hx).1) hoff

omit hidx in
/-- What `iter_from` reads from the first offset on at the offset of a record is the record, and it is legible. -/
theorem legible_of_mem_iterFrom {now : UInt64} {events : List (Nat × RawEvent)} (hread : (s.iterFrom L.first now).1 = .ok events)
    {x : RawEvent} (hx : (i.offset, x) ∈ events) : Legible s.config.maxSegmentBytes L.items i ∧ (i.offset, x) = i.event := by
  obtain ⟨hrep, hcfg, hfiles, hhas⟩ := read_of_flush h L.first (Or.inl L.first_le) now
  rw [iterFrom] at hread
  simp only [Int.toNat_natCast] at hread
  rw [if_neg (by rw [(earliestOffset_eq hrep).1]; omega), Except.ok.injEq] at hread
  subst hread
  obtain ⟨hof, -⟩ := iterSegments_of hfiles L.chain L.fits hrep.unique hhas
  obtain ⟨g, hg, t, hcfg', hhas', hmem⟩ := hof _ hx
  obtain ⟨file, hget, hbytes⟩ := hhas'.file
  obtain ⟨es, e, more, hes, hfit, heq⟩ := of_mem_iterSegment (L.fits g hg) hget hbytes hhas'.index (L.first_le g hg) hmem
  obtain ⟨j, hj, hjoff, rfl, hjseg⟩ := Layout.item_of_place hg hes
  obtain ⟨hoff, -⟩ := Prod.mk.inj heq
  obtain rfl := Layout.item_unique hj hi (hjoff.trans hoff.symm)
  rw [hcfg', hcfg] at hfit
  refine ⟨(legible_iff h hg hes hjoff hjseg).mpr hfit, ?_⟩
  rw [heq, ← hjoff]
  rfl

end

end IngestLog

end Mdrap
