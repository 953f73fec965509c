import Mdrap.Lemmas.Frame
import Mdrap.Theorems.Salvage

/-!
# What salvage keeps

Salvage takes the length in a frame header at its word, also where the checksum says that the frame is damaged, and goes on behind as
many bytes. A damaged frame whose length has grown hides the frames behind it. The frames that nobody has altered are kept as long as
the altered bytes, read so, lead up to each of them.
-/

namespace Mdrap

open Lib

/-! ## The frames on the way -/

/-- What a scan finds in the bytes behind a segment header: the frames it keeps, and whether it sees any damage. -/
inductive Scans (version : Nat) : Bytes → List (Bytes × Bytes) → Bool → Prop
  | eof : Scans version [] [] false
  | torn {b : Bytes} (hne : b ≠ []) (hframe : ¬BeginsFrame b) (hdamaged : ¬BeginsDamaged b) : Scans version b [] true
  | frame {b : Bytes} {frames : List (Bytes × Bytes)} {corrupt : Bool} (h : BeginsFrame b) (hcrc : CrcAgrees version b)
      (rest : Scans version (b.drop (frameSpan b)) frames corrupt) : Scans version b (firstFrame b :: frames) corrupt
  | badCrc {b : Bytes} {frames : List (Bytes × Bytes)} {corrupt : Bool} (h : BeginsFrame b) (hcrc : ¬CrcAgrees version b)
      (rest : Scans version (b.drop (frameSpan b)) frames corrupt) : Scans version b frames true
  | damaged {b x more : Bytes} {frames : List (Bytes × Bytes)} {corrupt : Bool} (h : BeginsDamaged b)
      (hmagic : b.drop 1 = x ++ 0xAA :: 0x55 :: more) (hfirst : MagicFree (x ++ [0xAA]))
      (rest : Scans version (0xAA :: 0x55 :: more) frames corrupt) : Scans version b frames true
  | lost {b : Bytes} (h : BeginsDamaged b) (hfree : MagicFree (b.drop 1)) : Scans version b [] true

theorem BeginsFrame.not_damaged {b : Bytes} (h : BeginsFrame b) : ¬BeginsDamaged b := fun hdamaged => h.2.1 hdamaged.2

theorem frameSpan_pos (b : Bytes) : 0 < frameSpan b := Nat.lt_of_lt_of_le (by decide : 0 < frameHeaderSize) (Nat.le_add_right _ _)

theorem BeginsFrame.ne_nil {b : Bytes} (h : BeginsFrame b) : b ≠ [] := by
  rintro rfl
  have hlen := h.1
  simp [frameHeaderSize] at hlen

/-- The first frame magic is where it is. -/
theorem first_magic_unique {x y more more' : Bytes} (h : x ++ 0xAA :: 0x55 :: more = y ++ 0xAA :: 0x55 :: more')
    (hx : MagicFree (x ++ [0xAA])) (hy : MagicFree (y ++ [0xAA])) : x = y ∧ more = more' := by
  have hlt : ∀ {x y more more' : Bytes}, x ++ 0xAA :: 0x55 :: more = y ++ 0xAA :: 0x55 :: more' → MagicFree (y ++ [0xAA]) →
      ¬x.length < y.length := by
    intro x y more more' heq hy hlt
    -- the magic behind the shorter part lies in the longer one
    refine hy ?_
    have hbegins : x ++ [0xAA, 0x55] <+: y ++ 0xAA :: 0x55 :: more' := ⟨more, by simp [← heq]⟩
    have hshort : x ++ [0xAA, 0x55] <+: y ++ [0xAA] := by
      refine List.prefix_of_prefix_length_le hbegins ⟨0x55 :: more', by simp⟩ ?_
      simp
      omega
    exact (List.suffix_append x [0xAA, 0x55]).isInfix.trans hshort.isInfix
  have hlen : x.length = y.length := by
    have h1 := hlt h hy
    have h2 := hlt h.symm hx
    omega
  obtain ⟨hxy, hmore⟩ := List.append_inj h hlen
  exact ⟨hxy, by simpa using hmore⟩

section
variable {version : Nat} {file : Bytes}

/-- A scan that ends finds what it finds. -/
theorem scans_of_ends {b : Bytes} {pos : Nat} {corrupt : Bool} {found : List (Bytes × Bytes)} (hb : file.drop pos = b)
    (hends : Ends (salvageRound version file) ⟨pos, false, corrupt, found⟩) :
    ∃ frames corrupt', Scans version b frames corrupt' ∧
      Gives (salvageRound version file) ⟨pos, false, corrupt, found⟩ (corrupt || corrupt', found ++ frames) := by
  induction hn : b.length using Nat.strongRecOn generalizing b pos corrupt found with
  | ind n ih =>
    by_cases hframe : BeginsFrame b
    · have hround := @round_frame version _ _ corrupt found _ hb hframe
      have hdrop : file.drop (pos + frameSpan b) = b.drop (frameSpan b) := by rw [← List.drop_drop, hb]
      have hshort : (b.drop (frameSpan b)).length < n := by
        have hpos := frameSpan_pos b
        have hlen := List.length_pos_iff.mpr hframe.ne_nil
        rw [List.length_drop]
        omega
      by_cases hcrc : CrcAgrees version b
      · rw [if_pos hcrc] at hround
        rw [ends_iff_of_next hround] at hends
        obtain ⟨frames, corrupt', hscans, hgives⟩ := ih _ hshort hdrop hends rfl
        refine ⟨firstFrame b :: frames, corrupt', .frame hframe hcrc hscans, ?_⟩
        rw [gives_iff_of_next hround]
        simpa using hgives
      · rw [if_neg hcrc] at hround
        rw [ends_iff_of_next hround] at hends
        obtain ⟨frames, corrupt', hscans, hgives⟩ := ih _ hshort hdrop hends rfl
        refine ⟨frames, true, .badCrc hframe hcrc hscans, ?_⟩
        rw [gives_iff_of_next hround]
        simpa using hgives
    · by_cases hdamaged : BeginsDamaged b
      · have hround := @round_damaged version _ _ corrupt found _ hb hdamaged
        have hdrop : file.drop (pos + 1) = b.drop 1 := by rw [← List.drop_drop, hb]
        rw [ends_iff_of_next hround] at hends
        rcases magic_cases (b.drop 1) with ⟨x, more, hmagic, hfirst⟩ | hfree
        · have hfound := @gives_search_found version _ _ true found _ _ (hdrop.trans hmagic) hfirst
          rw [ends_iff_of_gives hfound] at hends
          have hlen := congrArg List.length hmagic
          rw [List.length_drop, List.length_append] at hlen
          obtain ⟨frames, corrupt', hscans, hgives⟩ := ih (0xAA :: 0x55 :: more).length (by
            have := hdamaged.1
            simp only [frameHeaderSize] at this
            omega) (b := 0xAA :: 0x55 :: more) (by rw [← List.drop_drop, hdrop, hmagic, List.drop_left]) hends rfl
          refine ⟨frames, true, .damaged hdamaged hmagic hfirst hscans, ?_⟩
          rw [gives_iff_of_next hround, hfound]
          simpa using hgives
        · refine ⟨[], true, .lost hdamaged hfree, ?_⟩
          have hnone := @gives_search_none version _ _ true found (hdrop ▸ hfree)
          obtain ⟨r, hgives⟩ := ends_iff_gives.mp hends
          rw [gives_iff_of_next hround, hnone]
          exact ⟨((hnone r).mp hgives).1, by simp⟩
      · have hround := @round_torn version _ _ corrupt found _ hb hframe hdamaged
        by_cases hnil : b = []
        · subst hnil
          refine ⟨[], false, .eof, ?_⟩
          rw [gives_iff_of_done hround]
          simp
        · refine ⟨[], true, .torn hnil hframe hdamaged, ?_⟩
          rw [gives_iff_of_done hround]
          simp [hnil]

end

/-! ## What is found -/

section
variable {version : Nat} {b t : Bytes} {frames : List (Bytes × Bytes)} {corrupt : Bool}

theorem firstFrame_append (b : Bytes) : ((firstFrame b).1 ++ (firstFrame b).2) ++ b.drop (frameSpan b) = b := by
  rw [firstFrame, frameSpan, ← List.drop_drop, List.append_assoc, List.take_append_drop, List.take_append_drop]

theorem firstFrame_lengths (h : BeginsFrame b) :
    (firstFrame b).1.length = frameHeaderSize ∧ (firstFrame b).2.length = (unpackFrameHeader (firstFrame b).1).length := by
  obtain ⟨hhdr, -, hlen⟩ := h
  refine ⟨?_, ?_⟩
  · rw [firstFrame, List.length_take]
    omega
  · simp only [firstFrame, List.length_take, List.length_drop]
    omega

/-- Where no damage is seen, the bytes are the frames. -/
theorem Scans.eq_frames (h : Scans version b frames false) : b = frames.flatMap (fun f => f.1 ++ f.2) := by
  generalize hc : false = c at h
  induction h with
  | eof => rfl
  | frame _ _ _ ih =>
    rw [List.flatMap_cons, ← ih hc]
    exact (firstFrame_append _).symm
  | torn => cases hc
  | badCrc => cases hc
  | damaged => cases hc
  | lost => cases hc

/-- Each frame that is found stands where the bytes lead. -/
theorem Scans.mem (h : Scans version b frames corrupt) {f : Bytes × Bytes} (hf : f ∈ frames) :
    ∃ t, Leads b t ∧ BeginsFrame t ∧ f = firstFrame t := by
  induction h with
  | eof => cases hf
  | torn => cases hf
  | lost => cases hf
  | frame hbegins _ _ ih =>
    rcases List.mem_cons.mp hf with rfl | hmem
    · exact ⟨_, .here _, hbegins, rfl⟩
    · obtain ⟨t, hleads, ht⟩ := ih hmem
      exact ⟨t, .frame hbegins hleads, ht⟩
  | badCrc hbegins _ _ ih =>
    obtain ⟨t, hleads, ht⟩ := ih hf
    exact ⟨t, .frame hbegins hleads, ht⟩
  | damaged hdamaged hmagic hfirst _ ih =>
    obtain ⟨t, hleads, ht⟩ := ih hf
    exact ⟨t, .damaged hdamaged hmagic hfirst hleads, ht⟩

/-- From where the bytes lead, the rest of the frames is found. -/
theorem Scans.of_leads (h : Scans version b frames corrupt) (hleads : Leads b t) :
    ∃ before after corrupt', frames = before ++ after ∧ Scans version t after corrupt' := by
  induction hleads generalizing frames corrupt with
  | here b => exact ⟨[], frames, corrupt, rfl, h⟩
  | frame hbegins _ ih =>
    cases h with
    | eof => exact absurd rfl hbegins.ne_nil
    | torn _ hframe _ => exact absurd hbegins hframe
    | damaged hdamaged _ _ _ => exact absurd hdamaged hbegins.not_damaged
    | lost hdamaged _ => exact absurd hdamaged hbegins.not_damaged
    | frame _ _ rest =>
      obtain ⟨before, after, corrupt', rfl, hafter⟩ := ih rest
      exact ⟨_ :: before, after, corrupt', rfl, hafter⟩
    | badCrc _ _ rest => exact ih rest
  | damaged hdamaged hmagic hfirst _ ih =>
    cases h with
    | eof =>
      have hlen := hdamaged.1
      simp [frameHeaderSize] at hlen
    | torn _ _ hnot => exact absurd hdamaged hnot
    | frame hbegins _ _ => exact absurd hdamaged hbegins.not_damaged
    | badCrc hbegins _ _ => exact absurd hdamaged hbegins.not_damaged
    | lost _ hfree =>
      refine absurd ?_ hfree
      rw [hmagic]
      exact ⟨_, _, List.append_assoc _ [0xAA, 0x55] _⟩
    | damaged _ hmagic' hfirst' rest =>
      obtain ⟨rfl, rfl⟩ := first_magic_unique (hmagic.symm.trans hmagic') hfirst hfirst'
      exact ih rest

theorem Leads.length_le (h : Leads b t) : t.length ≤ b.length := by
  induction h with
  | here b => exact Nat.le_refl _
  | frame _ _ ih =>
    rw [List.length_drop] at ih
    omega
  | damaged _ hmagic _ _ ih =>
    have hlen := congrArg List.length hmagic
    rw [List.length_drop, List.length_append] at hlen
    omega

theorem Leads.suffix (h : Leads b t) : t <:+ b := by
  induction h with
  | here b => exact List.suffix_rfl
  | frame _ _ ih => exact ih.trans (List.drop_suffix _ _)
  | damaged _ hmagic _ _ ih =>
    refine ih.trans (List.IsSuffix.trans ?_ (List.drop_suffix 1 _))
    rw [hmagic]
    exact List.suffix_append _ _

/-- The way to a later place goes through an earlier one. -/
theorem Leads.through {u : Bytes} (h : Leads b t) (hu : Leads b u) (hle : u.length ≤ t.length) : Leads t u := by
  induction h with
  | here b => exact hu
  | frame hbegins rest ih =>
    cases hu with
    | here =>
      -- the place is behind the frame already
      have hshort := rest.length_le
      have hpos := List.length_pos_iff.mpr hbegins.ne_nil
      rw [List.length_drop] at hshort
      have hspan : 0 < frameHeaderSize := by decide
      omega
    | frame _ rest' => exact ih rest' hle
    | damaged hdamaged _ _ _ => exact absurd hdamaged hbegins.not_damaged
  | damaged hdamaged hmagic hfirst rest ih =>
    cases hu with
    | here =>
      have hshort := rest.length_le
      have hpos := hdamaged.1
      have hlen := congrArg List.length hmagic
      rw [List.length_drop, List.length_append] at hlen
      simp only [frameHeaderSize] at hpos
      omega
    | frame hbegins _ => exact absurd hdamaged hbegins.not_damaged
    | damaged _ hmagic' hfirst' rest' =>
      obtain ⟨rfl, rfl⟩ := first_magic_unique (hmagic.symm.trans hmagic') hfirst hfirst'
      exact ih rest' hle

/-- The way goes on behind a frame. -/
theorem Leads.behind (h : Leads b t) (hbegins : BeginsFrame b) (hlt : t.length < b.length) : Leads (b.drop (frameSpan b)) t := by
  cases h with
  | here => omega
  | frame _ rest => exact rest
  | damaged hdamaged _ _ _ => exact absurd hdamaged hbegins.not_damaged

end

/-! ## Frames that nobody has altered -/

section
variable {f : Frame} {rest : Bytes}

theorem take_frame (f : Frame) (rest : Bytes) : (f.bytes ++ rest).take frameHeaderSize = frameHeaderBytes f logVersion :=
  take_header_bytes f rest

theorem drop_frame (f : Frame) (rest : Bytes) : (f.bytes ++ rest).drop frameHeaderSize = f.payload ++ rest := by
  rw [Frame.bytes, List.append_assoc]
  exact List.drop_left' (by simp [frameHeaderSize])

theorem beginsFrame_bytes (hf : f.Fits) (hmax : f.payload.length ≤ defaultMaxSegmentBytes) (rest : Bytes) :
    BeginsFrame (f.bytes ++ rest) := by
  refine ⟨?_, ?_, ?_⟩
  · simp [frameHeaderSize]
    omega
  · rw [take_frame, badSalvageHeader, unpackFrameHeader_bytes hf]
    simp [hmax]
  · rw [take_frame, unpackFrameHeader_bytes hf]
    simp [frameHeaderSize]

theorem frameSpan_bytes (hf : f.Fits) (rest : Bytes) : frameSpan (f.bytes ++ rest) = f.bytes.length := by
  rw [frameSpan, take_frame, unpackFrameHeader_bytes hf]
  simp [frameHeaderSize]

theorem firstFrame_bytes (hf : f.Fits) (rest : Bytes) : firstFrame (f.bytes ++ rest) = (frameHeaderBytes f logVersion, f.payload) := by
  rw [firstFrame, take_frame, drop_frame, unpackFrameHeader_bytes hf]
  simp

theorem crcAgrees_bytes (hf : f.Fits) (version : Nat) (rest : Bytes) : CrcAgrees version (f.bytes ++ rest) := by
  rw [CrcAgrees, firstFrame_bytes hf, take_frame, unpackFrameHeader_bytes hf]
  have hbegins : (frameHeaderBytes f logVersion).take 24 = framePrefix f logVersion := by
    rw [frameHeaderBytes]
    exact List.take_left' (by simp)
  have hversion : effectiveVersion logVersion version = logVersion := if_pos (by decide)
  rw [hbegins, hversion]

end

/-! ## Segments that are altered -/

/-- What stands in a file where some frames were written. -/
def bodyOf (fcs : List (Frame × Bytes)) : Bytes := fcs.flatMap (·.2)

/-- The frames that nobody has altered. -/
def unaltered (fcs : List (Frame × Bytes)) : List Bytes := (fcs.filter (fun p => p.2 = p.1.bytes)).map (·.2)

/-- A segment file with what stands where its frames were written. -/
def alteredSegment (start : Nat) (ts : UInt64) (fcs : List (Frame × Bytes)) : Bytes := segmentHeaderBytes start ts ++ bodyOf fcs

/-- The frames are frames of the log, and what stands where they were written is as long as they are. -/
structure Altered (fcs : List (Frame × Bytes)) : Prop where
  fits : ∀ p ∈ fcs, p.1.Fits ∧ p.1.payload.length ≤ maxFramePayloadBytes
  length : ∀ p ∈ fcs, p.2.length = p.1.bytes.length

/-- No frame that is not altered is larger than a default segment, and the bytes lead up to it. -/
def LedUpTo (fcs : List (Frame × Bytes)) (b : Bytes) : Prop :=
  ∀ pre p post, fcs = pre ++ p :: post → p.2 = p.1.bytes →
    p.1.payload.length ≤ defaultMaxSegmentBytes ∧ Leads b (bodyOf (p :: post))

theorem ledUpTo_nil (b : Bytes) : LedUpTo [] b := by
  intro pre p post heq
  simp at heq

theorem ledUpTo_cons {p : Frame × Bytes} {fcs : List (Frame × Bytes)} {b : Bytes} : LedUpTo (p :: fcs) b ↔
    (p.2 = p.1.bytes → p.1.payload.length ≤ defaultMaxSegmentBytes ∧ Leads b (bodyOf (p :: fcs))) ∧ LedUpTo fcs b := by
  refine ⟨fun h => ⟨h [] p fcs rfl, fun pre q post heq => h (p :: pre) q post (by rw [heq]; rfl)⟩, ?_⟩
  rintro ⟨hfirst, hrest⟩ pre q post heq
  rcases List.cons_eq_append_iff.mp heq with ⟨rfl, hcons⟩ | ⟨pre', rfl, hfcs⟩
  · obtain ⟨rfl, rfl⟩ := List.cons.inj hcons
    exact hfirst
  · exact hrest pre' q post hfcs

theorem bodyOf_cons (p : Frame × Bytes) (fcs : List (Frame × Bytes)) : bodyOf (p :: fcs) = p.2 ++ bodyOf fcs := rfl

theorem unaltered_cons_pos {p : Frame × Bytes} (h : p.2 = p.1.bytes) (fcs : List (Frame × Bytes)) :
    unaltered (p :: fcs) = p.1.bytes :: unaltered fcs := by
  simp [unaltered, h]

theorem unaltered_cons_neg {p : Frame × Bytes} (h : ¬p.2 = p.1.bytes) (fcs : List (Frame × Bytes)) :
    unaltered (p :: fcs) = unaltered fcs := by
  simp [unaltered, h]

theorem length_bodyOf_append_le (pre post : List (Frame × Bytes)) : (bodyOf post).length ≤ (bodyOf (pre ++ post)).length := by
  rw [bodyOf, bodyOf, List.flatMap_append, List.length_append]
  omega

/-- The frames that are reached are found, in order. -/
theorem Scans.unaltered_sublist {version : Nat} {b : Bytes} {frames : List (Bytes × Bytes)} {corrupt : Bool}
    (h : Scans version b frames corrupt) {fcs : List (Frame × Bytes)} (hfits : ∀ p ∈ fcs, p.1.Fits) (hled : LedUpTo fcs b) :
    (unaltered fcs).Sublist (frames.map (fun f => f.1 ++ f.2)) := by
  induction fcs generalizing b frames corrupt with
  | nil => exact List.nil_sublist _
  | cons p fcs ih =>
    by_cases hp : p.2 = p.1.bytes
    · obtain ⟨hsmall, hleads⟩ := (ledUpTo_cons.mp hled).1 hp
      rw [bodyOf_cons, hp] at hleads
      have hfit := hfits p List.mem_cons_self
      have hbegins := beginsFrame_bytes hfit hsmall (bodyOf fcs)
      have hdrop : (p.1.bytes ++ bodyOf fcs).drop (frameSpan (p.1.bytes ++ bodyOf fcs)) = bodyOf fcs := by
        rw [frameSpan_bytes hfit, List.drop_left]
      obtain ⟨before, after, corrupt', rfl, hafter⟩ := h.of_leads hleads
      rw [unaltered_cons_pos hp, List.map_append]
      refine List.Sublist.trans ?_ (List.sublist_append_right _ _)
      generalize hfront : p.1.bytes ++ bodyOf fcs = front at hafter hleads hbegins hdrop
      cases hafter with
      | eof => exact absurd rfl hbegins.ne_nil
      | torn _ hframe _ => exact absurd hbegins hframe
      | damaged hdamaged _ _ _ => exact absurd hdamaged hbegins.not_damaged
      | lost hdamaged _ => exact absurd hdamaged hbegins.not_damaged
      | badCrc _ hcrc _ => exact absurd (hfront ▸ crcAgrees_bytes hfit version (bodyOf fcs)) hcrc
      | frame _ _ rest =>
        have hfirst : firstFrame front = (frameHeaderBytes p.1 logVersion, p.1.payload) := hfront ▸ firstFrame_bytes hfit (bodyOf fcs)
        rw [List.map_cons, hfirst]
        refine List.Sublist.cons_cons _ (ih rest (fun q hq => hfits q (List.mem_cons_of_mem _ hq)) ?_)
        -- the frames behind are reached through this one
        rintro pre q post rfl hq
        obtain ⟨hqsmall, hqleads⟩ := (ledUpTo_cons.mp hled).2 pre q post rfl hq
        have hle := length_bodyOf_append_le pre (q :: post)
        have hlen : front.length = p.1.bytes.length + (bodyOf (pre ++ q :: post)).length := by rw [← hfront, List.length_append]
        have hpos : 0 < p.1.bytes.length := by rw [Frame.length_bytes]; omega
        exact ⟨hqsmall, (hleads.through hqleads (by omega)).behind hbegins (by omega)⟩
    · rw [unaltered_cons_neg hp]
      exact ih h (fun q hq => hfits q (List.mem_cons_of_mem _ hq)) (ledUpTo_cons.mp hled).2

/-! ## The salvaged segment -/

/-- A segment file is a header and these frames. -/
def Holds (file : Bytes) (frames : List (Bytes × Bytes)) : Prop :=
  (∃ hdr : Bytes, hdr.length = segmentHeaderSize ∧ file = hdr ++ frames.flatMap (fun f => f.1 ++ f.2)) ∧
    ∀ f ∈ frames, f.1.length = frameHeaderSize ∧ f.2.length = (unpackFrameHeader f.1).length

theorem frames_unique {frames frames' : List (Bytes × Bytes)}
    (h : ∀ f ∈ frames, f.1.length = frameHeaderSize ∧ f.2.length = (unpackFrameHeader f.1).length)
    (h' : ∀ f ∈ frames', f.1.length = frameHeaderSize ∧ f.2.length = (unpackFrameHeader f.1).length)
    (heq : frames.flatMap (fun f => f.1 ++ f.2) = frames'.flatMap (fun f => f.1 ++ f.2)) : frames = frames' := by
  have hsize : 0 < frameHeaderSize := by decide
  induction frames generalizing frames' with
  | nil =>
    cases frames' with
    | nil => rfl
    | cons f' frames' =>
      have hlen := congrArg List.length heq
      have hhdr := (h' f' List.mem_cons_self).1
      rw [List.flatMap_cons, List.length_append, List.length_append, List.flatMap_nil, List.length_nil] at hlen
      omega
  | cons f frames ih =>
    cases frames' with
    | nil =>
      have hlen := congrArg List.length heq
      have hhdr := (h f List.mem_cons_self).1
      rw [List.flatMap_cons, List.length_append, List.length_append, List.flatMap_nil, List.length_nil] at hlen
      omega
    | cons f' frames' =>
      obtain ⟨hhdr, hpayload⟩ := h f List.mem_cons_self
      obtain ⟨hhdr', hpayload'⟩ := h' f' List.mem_cons_self
      rw [List.flatMap_cons, List.flatMap_cons, List.append_assoc, List.append_assoc] at heq
      obtain ⟨hfst, heq⟩ := List.append_inj heq (hhdr.trans hhdr'.symm)
      obtain ⟨hsnd, heq⟩ := List.append_inj heq (by rw [hpayload, hpayload', hfst])
      rw [Prod.ext hfst hsnd, ih (fun g hg => h g (List.mem_cons_of_mem _ hg)) (fun g hg => h' g (List.mem_cons_of_mem _ hg)) heq]

theorem Holds.unique {file : Bytes} {frames frames' : List (Bytes × Bytes)} (h : Holds file frames) (h' : Holds file frames') :
    frames = frames' := by
  obtain ⟨⟨hdr, hlen, heq⟩, hframes⟩ := h
  obtain ⟨⟨hdr', hlen', heq'⟩, hframes'⟩ := h'
  exact frames_unique hframes hframes' (List.append_inj (heq.symm.trans heq') (hlen.trans hlen'.symm)).2

theorem holds_cleanSegment (file : Bytes) (now : UInt64) {frames : List (Bytes × Bytes)} (hne : frames ≠ [])
    (h : ∀ f ∈ frames, f.1.length = frameHeaderSize ∧ f.2.length = (unpackFrameHeader f.1).length) :
    Holds (cleanSegment file now frames) frames := by
  cases frames with
  | nil => exact absurd rfl hne
  | cons f frames =>
    refine ⟨⟨_, ?_, rfl⟩, h⟩
    simp [logMagic, segmentHeaderSize]

theorem get?_repairDamaged (backup : Bool) (now : UInt64) (second : Nat) (name : String) (file : Bytes) (frames : List (Bytes × Bytes))
    (dir : SalvageDir) (j : String) :
    (repairDamaged backup now second name file frames dir).segments.get? j =
      if j = name then if frames = [] then none else some (cleanSegment file now frames) else dir.segments.get? j := by
  have hcopied : (if backup then { dir with backups := dir.backups.set (name ++ ".bak." ++ toString second) file } else dir).segments =
      dir.segments := by
    split <;> rfl
  simp only [repairDamaged]
  by_cases hnil : frames = []
  · rw [if_pos hnil, if_pos hnil]
    simp only [hcopied]
    rw [Dict.get?_erase]
  · rw [if_neg hnil, if_neg hnil]
    simp only [hcopied]
    rw [Dict.get?_set]

/-- What becomes of a segment file is a matter of its own bytes. -/
theorem salvageFiles_get? {fuel : Nat} {backup : Bool} {now : UInt64} {second : Nat} {files : List (String × Bytes)}
    (hnames : (files.map (·.1)).Nodup) {report report' : SalvageReport} {dir dir' : SalvageDir}
    (h : salvageFiles fuel backup now second files report dir = some (report', dir')) (name : String) :
    (name ∉ files.map (·.1) → dir'.segments.get? name = dir.segments.get? name) ∧
      ∀ file, (name, file) ∈ files → dir.segments.get? name = some file →
        ∃ corrupt frames, scanSegment fuel file = some (corrupt, frames) ∧
          dir'.segments.get? name = if corrupt then if frames = [] then none else some (cleanSegment file now frames) else some file := by
  induction files generalizing report dir with
  | nil =>
    simp only [salvageFiles, Option.some.injEq, Prod.mk.injEq] at h
    exact ⟨fun _ => by rw [h.2], fun file hmem => absurd hmem List.not_mem_nil⟩
  | cons f files ih =>
    obtain ⟨first, firstFile⟩ := f
    rw [List.map_cons, List.nodup_cons] at hnames
    rw [salvageFiles] at h
    rcases hscan : scanSegment fuel firstFile with _ | ⟨corrupt, frames⟩
    · rw [hscan] at h
      cases h
    · rw [hscan] at h
      obtain ⟨hother, hfound⟩ := ih hnames.2 h
      have hfirst : ∀ j, (if corrupt then repairDamaged backup now second first firstFile frames dir else dir).segments.get? j =
          if corrupt ∧ j = first then if frames = [] then none else some (cleanSegment firstFile now frames)
          else dir.segments.get? j := by
        intro j
        cases corrupt with
        | true => simp [get?_repairDamaged]
        | false => simp
      refine ⟨?_, ?_⟩
      · intro hnot
        rw [List.map_cons, List.mem_cons, not_or] at hnot
        rw [hother hnot.2, hfirst, if_neg (fun hboth => hnot.1 hboth.2)]
      · intro file hmem hget
        rcases List.mem_cons.mp hmem with heq | hrest
        · obtain ⟨rfl, rfl⟩ := Prod.mk.inj heq
          refine ⟨corrupt, frames, hscan, ?_⟩
          rw [hother hnames.1, hfirst, hget]
          cases corrupt <;> simp
        · have hne : name ≠ first := by
            rintro rfl
            exact hnames.1 (List.mem_map.mpr ⟨(name, file), hrest, rfl⟩)
          refine hfound file hrest ?_
          rw [hfirst, if_neg (fun hboth => hne hboth.2), hget]

/-- Salvage of a directory: the frames that are found in a segment file are written anew if it has any damage. -/
theorem salvage_get? {fuel : Nat} {backup : Bool} {now : UInt64} {second : Nat} {dir dir' : SalvageDir} {report : SalvageReport}
    (hdir : dir.segments.Distinct) (h : salvage fuel backup now second dir = some (report, dir')) {name : String} {file : Bytes}
    (hfile : dir.segments.get? name = some file) :
    ∃ corrupt frames, scanSegment fuel file = some (corrupt, frames) ∧
      dir'.segments.get? name = if corrupt then if frames = [] then none else some (cleanSegment file now frames) else some file := by
  refine (salvageFiles_get? ?_ h name).2 file (mem_sortBy.mpr (Dict.mem_of_get? hfile)) hfile
  exact ((sortBy_perm dir.segments.items).map _).nodup_iff.mpr hdir

/-- Salvage returns, and the frames that nobody has altered are in the salvaged segment, in order. -/
def Kept (fcs : List (Frame × Bytes)) (backup : Bool) (now : UInt64) (second : Nat) (dir : SalvageDir) (name : String) : Prop :=
  ∃ fuel report dir', salvage fuel backup now second dir = some (report, dir') ∧
    (unaltered fcs = [] ∨ ∃ file frames, dir'.segments.get? name = some file ∧ Holds file frames ∧
      (unaltered fcs).Sublist (frames.map (fun f => f.1 ++ f.2)))

/-- Each frame that nobody has altered stands at one place of the file only. -/
def Once (fcs : List (Frame × Bytes)) : Prop :=
  ∀ pre p post, fcs = pre ++ p :: post → p.2 = p.1.bytes → ∀ t, t <:+ bodyOf fcs → p.1.bytes <+: t → t = bodyOf (p :: post)

section
variable {start : Nat} {ts : UInt64} {fcs : List (Frame × Bytes)}

/-- What the scan of the file gives is what it finds behind the header. -/
theorem scanSegment_altered (hends : ¬Stranded (alteredSegment start ts fcs)) :
    ∃ frames corrupt, Scans (segmentVersion (alteredSegment start ts fcs)) (bodyOf fcs) frames corrupt ∧
      ∃ fuel, scanSegment fuel (alteredSegment start ts fcs) = some (corrupt, frames) := by
  have hlen : ¬(alteredSegment start ts fcs).length < segmentHeaderSize := by simp [alteredSegment, segmentHeaderSize]
  have hdrop : (alteredSegment start ts fcs).drop segmentHeaderSize = bodyOf fcs := List.drop_left' (by simp [segmentHeaderSize])
  have hstart : salvageStart (alteredSegment start ts fcs) = ⟨segmentHeaderSize, false, false, []⟩ := by
    simp only [salvageStart, alteredSegment, segmentMagic_header, segmentVersion_header]
    rfl
  obtain ⟨fuel, r, hr⟩ := (scanSegment_ends_iff _).mpr hends
  simp only [scanSegment, if_neg hlen, hstart] at hr
  obtain ⟨frames, corrupt, hscans, n, hn⟩ := scans_of_ends hdrop ⟨fuel, r, hr⟩
  refine ⟨frames, corrupt, hscans, n, ?_⟩
  rw [scanSegment, if_neg hlen, hstart, hn]
  simp

theorem scanSegment_unique {file : Bytes} {n m : Nat} {r r' : Bool × List (Bytes × Bytes)} (h : scanSegment n file = some r)
    (h' : scanSegment m file = some r') : r = r' := by
  have hn := scanSegment_mono (Nat.le_max_left n m) h
  have hm := scanSegment_mono (Nat.le_max_right n m) h'
  exact Option.some.inj (hn.symm.trans hm)

theorem Scans.lengths {version : Nat} {b : Bytes} {frames : List (Bytes × Bytes)} {corrupt : Bool}
    (h : Scans version b frames corrupt) :
    ∀ f ∈ frames, f.1.length = frameHeaderSize ∧ f.2.length = (unpackFrameHeader f.1).length := by
  intro f hf
  obtain ⟨t, -, hbegins, rfl⟩ := h.mem hf
  exact firstFrame_lengths hbegins

/-- The salvaged segment holds what the scan finds, unless nothing is found. -/
theorem salvaged_holds {frames : List (Bytes × Bytes)} {corrupt : Bool}
    (h : Scans (segmentVersion (alteredSegment start ts fcs)) (bodyOf fcs) frames corrupt) (now : UInt64)
    (hne : corrupt = true → frames ≠ []) :
    ∃ file, (if corrupt then if frames = [] then none else some (cleanSegment (alteredSegment start ts fcs) now frames)
        else some (alteredSegment start ts fcs)) = some file ∧ Holds file frames := by
  cases corrupt with
  | true =>
    rw [if_pos rfl, if_neg (hne rfl)]
    exact ⟨_, rfl, holds_cleanSegment _ now (hne rfl) h.lengths⟩
  | false =>
    refine ⟨_, rfl, ⟨segmentHeaderBytes start ts, by simp [segmentHeaderSize], ?_⟩, h.lengths⟩
    rw [← h.eq_frames]
    rfl

end

/-- Salvage loses no frame that nobody has altered if it ends, and the altered bytes lead it up to each such frame; and only then, where
no such frame stands in the file a second time. -/
theorem salvage_keeps_unaltered {start : Nat} {ts : UInt64} {fcs : List (Frame × Bytes)} (h : Altered fcs) (backup : Bool) (now : UInt64)
    (second : Nat) {dir : SalvageDir} (hdir : dir.segments.Distinct) {name : String}
    (hfile : dir.segments.get? name = some (alteredSegment start ts fcs)) :
    ((∀ f ∈ dir.segments.items, ¬Stranded f.2) ∧ LedUpTo fcs (bodyOf fcs) → Kept fcs backup now second dir name) ∧
      (Once fcs → Kept fcs backup now second dir name →
        (∀ f ∈ dir.segments.items, ¬Stranded f.2) ∧ LedUpTo fcs (bodyOf fcs)) := by
  have hsalvage : (∃ fuel r, salvage fuel backup now second dir = some r) ↔ ∀ f ∈ dir.segments.items, ¬Stranded f.2 := by
    simp only [salvage, salvageFiles_ends_iff, mem_sortBy, scanSegment_ends_iff]
  refine ⟨?_, ?_⟩
  · rintro ⟨hends, hled⟩
    obtain ⟨frames, corrupt, hscans, fuel', hscan'⟩ := scanSegment_altered (hends _ (Dict.mem_of_get? hfile))
    have hsublist := hscans.unaltered_sublist (fun p hp => (h.fits p hp).1) hled
    obtain ⟨fuel, ⟨report, dir'⟩, hrun⟩ := hsalvage.mpr hends
    refine ⟨fuel, report, dir', hrun, ?_⟩
    obtain ⟨corrupt', frames', hscan, hget⟩ := salvage_get? hdir hrun hfile
    obtain ⟨rfl, rfl⟩ := Prod.mk.inj (scanSegment_unique hscan hscan')
    by_cases hnil : frames' = []
    · left
      rw [hnil] at hsublist
      exact List.sublist_nil.mp hsublist
    · obtain ⟨file, hclean, hholds⟩ := salvaged_holds hscans now (fun _ => hnil)
      exact .inr ⟨file, frames', hget.trans hclean, hholds, hsublist⟩
  · rintro honce ⟨fuel, report, dir', hrun, hkept⟩
    have hends := hsalvage.mp ⟨fuel, (report, dir'), hrun⟩
    refine ⟨hends, ?_⟩
    rintro pre p post rfl hp
    obtain ⟨frames, corrupt, hscans, fuel', hscan'⟩ := scanSegment_altered (hends _ (Dict.mem_of_get? hfile))
    obtain ⟨corrupt', frames', hscan, hget⟩ := salvage_get? hdir hrun hfile
    obtain ⟨rfl, rfl⟩ := Prod.mk.inj (scanSegment_unique hscan hscan')
    have hmem : p.1.bytes ∈ unaltered (pre ++ p :: post) :=
      List.mem_map.mpr ⟨p, List.mem_filter.mpr ⟨List.mem_append_right _ List.mem_cons_self, by simpa using hp⟩, hp⟩
    obtain ⟨file, found, hfound, hholds, hsublist⟩ := hkept.resolve_left (List.ne_nil_of_mem hmem)
    -- the frames of the salvaged segment are those that were found
    have hsame : found = frames' := by
      have hne : corrupt' = true → frames' ≠ [] := by
        rintro rfl rfl
        rw [hget] at hfound
        cases hfound
      obtain ⟨file', hfile', hholds'⟩ := salvaged_holds hscans now hne
      have heq : file = file' := Option.some.inj (hfound.symm.trans (hget.trans hfile'))
      exact hholds.unique (heq ▸ hholds')
    rw [hsame] at hsublist
    obtain ⟨f, hf, hbytes⟩ := List.mem_map.mp (hsublist.subset hmem)
    obtain ⟨t, hleads, hbegins, rfl⟩ := hscans.mem hf
    have hleading : p.1.bytes <+: t := by
      rw [← hbytes]
      exact ⟨_, firstFrame_append t⟩
    have hplace := honce pre p post rfl hp t hleads.suffix hleading
    refine ⟨?_, hplace ▸ hleads⟩
    have hfit := (h.fits p (List.mem_append_right _ List.mem_cons_self)).1
    have hgood := hbegins.2.1
    rw [hplace, bodyOf_cons, hp, take_frame, badSalvageHeader, unpackFrameHeader_bytes hfit, not_or, not_lt] at hgood
    exact hgood.2

/-- Three frames, with other bytes where the first one was written. -/
def firstAltered (c : Bytes) : List (Frame × Bytes) :=
  [(⟨0, 0, [1]⟩, c), (⟨1, 0, [2]⟩, (Frame.mk 1 0 [2]).bytes), (⟨2, 0, [3]⟩, (Frame.mk 2 0 [3]).bytes)]

/-- A directory with the three frames in its only segment file. -/
def alteredDir (c : Bytes) : SalvageDir :=
  ⟨⟨[("segment_00000000000000000000.log", alteredSegment 0 0 (firstAltered c))]⟩, Dict.empty, Dict.empty⟩

/-- The first frame with another byte in its payload. -/
def payloadAltered : Bytes := (Frame.mk 0 0 [1]).bytes.set 28 7

/-- The first frame with a length that covers the second one as well. -/
def lengthAltered : Bytes := (Frame.mk 0 0 [1]).bytes.set 23 30

theorem altered_firstAltered {c : Bytes} (h : c.length = 29) : Altered (firstAltered c) := by
  refine ⟨?_, ?_⟩
  · intro p hp
    simp only [firstAltered, List.mem_cons, List.not_mem_nil, or_false] at hp
    rcases hp with rfl | rfl | rfl
    · exact (by decide : (Frame.mk 0 0 [1]).Fits ∧ [(1 : UInt8)].length ≤ maxFramePayloadBytes)
    · decide
    · decide
  · intro p hp
    simp only [firstAltered, List.mem_cons, List.not_mem_nil, or_false] at hp
    rcases hp with rfl | rfl | rfl
    · simpa using h
    · rfl
    · rfl

/-- Where the payload of the first frame was damaged, the two others are kept. -/
theorem salvage_keeps_unaltered_payload : Kept (firstAltered payloadAltered) true 0 0 (alteredDir payloadAltered)
    "segment_00000000000000000000.log" := by
  have hfirst : BeginsFrame (bodyOf (firstAltered payloadAltered)) := ⟨by decide, by decide, by decide⟩
  have hspan : (bodyOf (firstAltered payloadAltered)).drop (frameSpan (bodyOf (firstAltered payloadAltered))) =
      bodyOf (firstAltered payloadAltered).tail := by decide +kernel
  have hsecond : BeginsFrame (bodyOf (firstAltered payloadAltered).tail) := beginsFrame_bytes (by decide) (by decide) _
  have hspan' : (bodyOf (firstAltered payloadAltered).tail).drop (frameSpan (bodyOf (firstAltered payloadAltered).tail)) =
      bodyOf (firstAltered payloadAltered).tail.tail := by decide +kernel
  have hdistinct : (alteredDir payloadAltered).segments.Distinct := List.pairwise_singleton _ _
  refine (salvage_keeps_unaltered (altered_firstAltered (by decide)) true 0 0 hdistinct rfl).1 ⟨?_, ?_⟩
  · intro f hf
    have hscan : scanSegment 5 (alteredSegment 0 0 (firstAltered payloadAltered)) = some (true,
        [(frameHeaderBytes ⟨1, 0, [2]⟩ logVersion, [2]), (frameHeaderBytes ⟨2, 0, [3]⟩ logVersion, [3])]) := by decide +kernel
    rw [List.mem_singleton.mp hf]
    exact (scanSegment_ends_iff _).mp ⟨5, _, hscan⟩
  · refine ledUpTo_cons.mpr ⟨fun heq => absurd heq (by decide +kernel), ledUpTo_cons.mpr ⟨fun _ => ⟨by decide, ?_⟩,
      ledUpTo_cons.mpr ⟨fun _ => ⟨by decide, ?_⟩, ledUpTo_nil _⟩⟩⟩
    · exact .frame hfirst (hspan ▸ .here _)
    · exact .frame hfirst (hspan ▸ .frame hsecond (hspan' ▸ .here _))

/-- Where the length of the first frame was damaged, the second one is lost. -/
theorem salvage_keeps_unaltered_false :
    ¬∀ (start : Nat) (ts : UInt64) (fcs : List (Frame × Bytes)), Altered fcs →
      (∀ p ∈ fcs, p.2 ≠ p.1.bytes → MagicFree (p.2.drop frameHeaderSize)) →
      ∀ (backup : Bool) (now : UInt64) (second : Nat) (dir : SalvageDir) (name : String), dir.segments.Distinct →
        dir.segments.get? name = some (alteredSegment start ts fcs) → Kept fcs backup now second dir name := by
  intro hall
  have hdistinct : (alteredDir lengthAltered).segments.Distinct := List.pairwise_singleton _ _
  have hfile : (alteredDir lengthAltered).segments.get? "segment_00000000000000000000.log" =
      some (alteredSegment 0 0 (firstAltered lengthAltered)) := rfl
  have hmagic : ∀ p ∈ firstAltered lengthAltered, p.2 ≠ p.1.bytes → MagicFree (p.2.drop frameHeaderSize) := by
    intro p hp
    simp only [firstAltered, List.mem_cons, List.not_mem_nil, or_false] at hp
    rcases hp with rfl | rfl | rfl
    · intro _
      decide
    · exact fun hne => absurd rfl hne
    · exact fun hne => absurd rfl hne
  obtain ⟨fuel, report, dir, hrun, hkept⟩ := hall 0 0 (firstAltered lengthAltered) (altered_firstAltered (by decide)) hmagic true 0 0
    (alteredDir lengthAltered) "segment_00000000000000000000.log" hdistinct hfile
  obtain ⟨corrupt, frames, hscan, hget⟩ := salvage_get? hdistinct hrun hfile
  -- the scan finds the third frame only
  have hthird : scanSegment 5 (alteredSegment 0 0 (firstAltered lengthAltered)) =
      some (true, [(frameHeaderBytes ⟨2, 0, [3]⟩ logVersion, [3])]) := by decide +kernel
  obtain ⟨rfl, rfl⟩ := Prod.mk.inj (scanSegment_unique hscan hthird)
  have hkeep : unaltered (firstAltered lengthAltered) = [(Frame.mk 1 0 [2]).bytes, (Frame.mk 2 0 [3]).bytes] := by decide +kernel
  rw [hkeep] at hkept
  obtain ⟨file, found, hfound, hholds, hsublist⟩ := hkept.resolve_left (List.cons_ne_nil _ _)
  have hclean := hfound.symm.trans hget
  rw [if_pos rfl, if_neg (List.cons_ne_nil _ _), Option.some.injEq] at hclean
  have hone := hholds.unique (hclean ▸ holds_cleanSegment _ 0 (List.cons_ne_nil _ _) (by decide))
  have hlen := hsublist.length_le
  rw [hone] at hlen
  simp at hlen

end Mdrap
