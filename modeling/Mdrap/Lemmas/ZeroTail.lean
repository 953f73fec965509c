import Mdrap.Lemmas.Crash

/-!
# Zeros behind a torn frame

A crash may leave zeros behind the bytes of the newest segment file. Whether the repair loop cuts them off with the torn frame
depends on how much of the frame is left and on how far the zeros reach (`tornTail_zeros_iff`).
-/

namespace Mdrap

open Lib

/-- The zeros behind a torn frame are cut off with it: the frame left no byte, both do not fill a frame header, or the frame
left its magic and version and the zeros do not go beyond the end its header then gives, where the checksum is wrong. -/
def ZerosHarmless (torn : Bytes) (z : Nat) : Prop :=
  let h := unpackFrameHeader ((torn ++ zeros z).take frameHeaderSize)
  let crc := computeFrameCrc ((torn ++ zeros z).take 24) ((torn ++ zeros z).drop frameHeaderSize) logVersion
  torn = [] ∨ torn.length + z < frameHeaderSize ∨
    4 ≤ torn.length ∧ (torn.length + z < frameHeaderSize + h.length ∨
      torn.length + z = frameHeaderSize + h.length ∧ crc.toNat ≠ h.crc)

instance (torn : Bytes) (z : Nat) : Decidable (ZerosHarmless torn z) := inferInstanceAs (Decidable (_ ∨ _ ∨ _ ∧ _))

/-- A tail of zeros is cut off. -/
theorem tornTail_zeros (limit : Int) (v z : Nat) : TornTail limit v (zeros z) := by
  have hall : (zeros z).all (· == 0) = true := by simp [zeros]
  by_cases hz : z < frameHeaderSize
  · unfold TornTail readFrame
    by_cases hnil : zeros z = []
    · simp [hnil]
    · simp [hnil, hz]
  · have htake : (zeros z).take frameHeaderSize = zeros 28 := by
      rw [take_zeros, frameHeaderSize] at *
      congr 1
      omega
    have hnil : zeros z ≠ [] := by
      intro h
      have := congrArg List.length h
      simp only [length_zeros, List.length_nil] at this
      rw [frameHeaderSize] at hz
      omega
    have hmagic : (unpackFrameHeader (zeros 28)).magic ≠ frameMagic := by decide
    unfold TornTail readFrame
    rw [if_neg hnil, if_neg (by rw [length_zeros]; exact hz), htake]
    simp only [hmagic, ne_eq, not_false_eq_true, if_true, hall]

section TornFrame

variable {limit : Int} {f : Frame} {r z : Nat}

theorem Frame.take_four (f : Frame) : f.bytes.take 4 = [0xAA, 0x55, 0, 2] := by
  rw [Frame.bytes, frameHeaderBytes, framePrefix, List.append_assoc, List.append_assoc, List.append_assoc, List.append_assoc]
  rfl

theorem Frame.take_of_le_four (f : Frame) (hr : r ≤ 4) : f.bytes.take r = [0xAA, 0x55, 0, 2].take r := by
  rw [← f.take_four, List.take_take, Nat.min_eq_left hr]

/-- The fields of a header that is filled with zeros. -/
theorem slice_header {a n : Nat} (hr : r < f.bytes.length) (hz : frameHeaderSize ≤ r + z) (han : a + n ≤ frameHeaderSize) :
    (((f.bytes.take r ++ zeros z).take frameHeaderSize).drop a).take n =
      resize n (((f.bytes.drop a).take n).take (r - a)) := by
  have hlen : frameHeaderSize ≤ f.bytes.length := by
    rw [Frame.length_bytes, frameHeaderSize]
    omega
  rw [List.drop_take, List.take_take, Nat.min_eq_left (by omega)]
  exact slice_take_zeros (by omega) (by omega) (by omega)

/-- One byte of a frame before the zeros is no magic. -/
theorem not_tornTail_one (v : Nat) (hz : 27 ≤ z) : ¬TornTail limit v (f.bytes.take 1 ++ zeros z) := by
  have hbytes : f.bytes.take 1 ++ zeros z = 0xAA :: zeros z := by
    rw [f.take_of_le_four (by decide)]
    rfl
  have htake : (0xAA :: zeros z).take frameHeaderSize = 0xAA :: zeros 27 := by
    rw [frameHeaderSize, List.take_succ_cons, take_zeros, Nat.min_eq_left hz]
  have hmagic : (unpackFrameHeader (0xAA :: zeros 27)).magic ≠ frameMagic := by decide
  have hall : (0xAA :: zeros z : Bytes).all (· == 0) = false := by simp
  rw [hbytes]
  unfold TornTail readFrame
  rw [if_neg (List.cons_ne_nil _ _), if_neg (by simp [frameHeaderSize]; omega), htake]
  simp only [hmagic, ne_eq, not_false_eq_true, if_true, hall]
  exact Bool.false_ne_true

/-- The magic of a frame before the zeros is read as an empty frame of version zero. -/
theorem not_tornTail_two (v : Nat) (hlimit : 0 ≤ limit) (hr : r = 2 ∨ r = 3) (hz : frameHeaderSize ≤ r + z) :
    ¬TornTail limit v (f.bytes.take r ++ zeros z) := by
  have hbytes : f.bytes.take r ++ zeros z = [0xAA, 0x55] ++ zeros (r + z - 2) := by
    rcases hr with rfl | rfl
    · rw [f.take_of_le_four (by decide)]
      simp
    · rw [f.take_of_le_four (by decide), show 3 + z - 2 = 1 + z by omega, zeros_add]
      rfl
  rw [frameHeaderSize] at hz
  have htake : ([0xAA, 0x55] ++ zeros (r + z - 2)).take frameHeaderSize = [0xAA, 0x55] ++ zeros 26 := by
    rw [frameHeaderSize, List.take_append, take_zeros, List.length_cons, List.length_singleton, Nat.min_eq_left (by omega)]
    rfl
  have hh : unpackFrameHeader ([0xAA, 0x55] ++ zeros 26) = ⟨frameMagic, 0, 0, 0, 0, 0⟩ := by decide
  have hh' : unpackFrameHeader (([0xAA, 0x55] ++ zeros (r + z - 2)).take frameHeaderSize) = ⟨frameMagic, 0, 0, 0, 0, 0⟩ := by
    rw [htake, hh]
  have hcrc : (computeFrameCrc (([0xAA, 0x55] ++ zeros (r + z - 2)).take 24) [] (effectiveVersion 0 v)).toNat = 0 := by
    simp [computeFrameCrc, effectiveVersion, supportedLogVersions]
    decide
  have hread : readFrame limit v ([0xAA, 0x55] ++ zeros (r + z - 2)) =
      .frame ⟨0, 0, []⟩ (([0xAA, 0x55] ++ zeros (r + z - 2)).drop frameHeaderSize) :=
    (readFrame_eq_frame_iff hh').mpr ⟨by simp [frameHeaderSize]; omega, rfl, by simp, by simpa using hlimit, rfl, rfl, hcrc⟩
  rw [hbytes]
  unfold TornTail
  rw [hread]
  exact not_false

/-- A frame that left its magic and version is read up to the end its header gives. -/
theorem tornTail_zeros_iff_of_four (hf : f.Readable limit) (hr : r < f.bytes.length) (h4 : 4 ≤ r)
    (hz : frameHeaderSize ≤ r + z) : TornTail limit logVersion (f.bytes.take r ++ zeros z) ↔
      (f.bytes.take r).length + z < frameHeaderSize +
        (unpackFrameHeader ((f.bytes.take r ++ zeros z).take frameHeaderSize)).length ∨
      (f.bytes.take r).length + z = frameHeaderSize +
          (unpackFrameHeader ((f.bytes.take r ++ zeros z).take frameHeaderSize)).length ∧
        (computeFrameCrc ((f.bytes.take r ++ zeros z).take 24) ((f.bytes.take r ++ zeros z).drop frameHeaderSize)
          logVersion).toNat ≠ (unpackFrameHeader ((f.bytes.take r ++ zeros z).take frameHeaderSize)).crc := by
  obtain ⟨hfits, hmax, hlimit⟩ := hf
  have hlen : (f.bytes.take r ++ zeros z).length = (f.bytes.take r).length + z := by
    rw [List.length_append, length_zeros]
  have hrlen : (f.bytes.take r).length = r := by rw [List.length_take, Nat.min_eq_left (by omega)]
  have hmagic : (unpackFrameHeader ((f.bytes.take r ++ zeros z).take frameHeaderSize)).magic = frameMagic := by
    have hslice := slice_header (a := 0) (n := 2) hr hz (by decide)
    have hfield : (f.bytes.drop 0).take 2 = [0xAA, 0x55] := f.take_of_le_four (by decide)
    have hwhole : ([0xAA, 0x55] : Bytes).take (r - 0) = [0xAA, 0x55] := List.take_of_length_le (by simp; omega)
    rw [hfield, hwhole, List.drop_zero] at hslice
    simp only [unpackFrameHeader, hslice]
    decide
  have hversion : (unpackFrameHeader ((f.bytes.take r ++ zeros z).take frameHeaderSize)).version = logVersion := by
    have hslice := slice_header (a := 2) (n := 2) hr hz (by decide)
    have hfield : (f.bytes.drop 2).take 2 = [0, 2] := by
      have := congrArg (List.drop 2) f.take_four
      rwa [List.drop_take] at this
    have hwhole : ([0, 2] : Bytes).take (r - 2) = [0, 2] := List.take_of_length_le (by simp; omega)
    rw [hfield, hwhole] at hslice
    simp only [unpackFrameHeader, hslice]
    decide
  have hpayload : (unpackFrameHeader ((f.bytes.take r ++ zeros z).take frameHeaderSize)).length ≤ f.payload.length := by
    have hslice := slice_header (a := 20) (n := 4) hr hz (by decide)
    have hfield : beNat ((f.bytes.drop 20).take 4) = f.payload.length := by
      have hheader := congrArg FrameHeader.length (unpackFrameHeader_bytes hfits)
      rw [← take_header_bytes f [], List.append_nil] at hheader
      simp only [unpackFrameHeader] at hheader
      rwa [List.drop_take, List.take_take, Nat.min_eq_left (by decide)] at hheader
    have hfour : ((f.bytes.drop 20).take 4).length = 4 := by
      rw [List.length_take, List.length_drop, Frame.length_bytes]
      omega
    have hle := beNat_resize_take_le (r - 20) ((f.bytes.drop 20).take 4)
    rw [hfour, hfield] at hle
    simp only [unpackFrameHeader, hslice]
    exact hle
  have hne : f.bytes.take r ++ zeros z ≠ [] := by
    intro hnil
    rw [hnil, hrlen, List.length_nil] at hlen
    omega
  rw [← hlen]
  unfold TornTail readFrame
  rw [if_neg hne, if_neg (by rw [hlen, hrlen]; omega)]
  simp only [hmagic, hversion, ne_eq, not_true_eq_false, if_false]
  generalize unpackFrameHeader ((f.bytes.take r ++ zeros z).take frameHeaderSize) = h at *
  generalize f.bytes.take r ++ zeros z = b at *
  have heff : effectiveVersion logVersion logVersion = logVersion := rfl
  have hb : frameHeaderSize ≤ b.length := by omega
  have hdrop : (b.drop frameHeaderSize).length = b.length - frameHeaderSize := List.length_drop
  rw [heff, if_neg (by omega)]
  by_cases hpay : b.length < frameHeaderSize + h.length
  · rw [if_pos (by rw [List.length_take, hdrop]; omega)]
    simp only [hpay, true_or]
  · rw [if_neg (by rw [List.length_take, hdrop]; omega)]
    by_cases hend : b.length = frameHeaderSize + h.length
    · -- the zeros end where the frame does, and the checksum decides
      have hrest : b.drop (frameHeaderSize + h.length) = [] := List.drop_of_length_le (by omega)
      have hwhole : (b.drop frameHeaderSize).take h.length = b.drop frameHeaderSize :=
        List.take_of_length_le (by rw [hdrop]; omega)
      rw [hwhole, hrest]
      by_cases hcrc : (computeFrameCrc (b.take 24) (b.drop frameHeaderSize) logVersion).toNat = h.crc
      · simp [hcrc, hpay]
      · simp [hcrc, hend]
    · -- there are bytes behind the frame
      have hrest : b.drop (frameHeaderSize + h.length) ≠ [] := by
        intro hnil
        have := congrArg List.length hnil
        rw [List.length_drop, List.length_nil] at this
        omega
      simp only [hpay, hend, false_or, false_and, iff_false]
      by_cases hcrc : (computeFrameCrc (b.take 24) ((b.drop frameHeaderSize).take h.length) logVersion).toNat = h.crc
      · simp [hcrc]
      · simp [hcrc, hrest]

/-- Zeros behind a torn frame. -/
theorem tornTail_zeros_iff (hf : f.Readable limit) (hr : r < f.bytes.length) :
    TornTail limit logVersion (f.bytes.take r ++ zeros z) ↔ ZerosHarmless (f.bytes.take r) z := by
  have hrlen : (f.bytes.take r).length = r := by rw [List.length_take, Nat.min_eq_left (by omega)]
  have hlen : (f.bytes.take r ++ zeros z).length = r + z := by rw [List.length_append, length_zeros, hrlen]
  have hlimit : 0 ≤ limit := by
    have := hf.2.2
    omega
  unfold ZerosHarmless
  by_cases hshort : r + z < frameHeaderSize
  · have htorn : TornTail limit logVersion (f.bytes.take r ++ zeros z) := by
      unfold TornTail readFrame
      by_cases hnil : f.bytes.take r ++ zeros z = []
      · simp [hnil]
      · rw [if_neg hnil, if_pos (by rw [hlen]; exact hshort)]
        trivial
    simp only [hrlen, htorn, hshort, true_or, or_true]
  · have hz : frameHeaderSize ≤ r + z := by omega
    have hz' : 28 ≤ r + z := hz
    by_cases h4 : 4 ≤ r
    · have hne : f.bytes.take r ≠ [] := by
        intro hnil
        rw [hnil] at hrlen
        simp at hrlen
        omega
      rw [tornTail_zeros_iff_of_four hf hr h4 hz]
      simp only [hne, hrlen, hshort, h4, false_or, true_and]
    · have hcases : r = 0 ∨ r = 1 ∨ (r = 2 ∨ r = 3) := by omega
      rcases hcases with rfl | rfl | hr2
      · simp only [List.take_zero, List.nil_append, true_or, iff_true]
        exact tornTail_zeros limit logVersion z
      · have hnot : ¬TornTail limit logVersion (f.bytes.take 1 ++ zeros z) := not_tornTail_one logVersion (by omega)
        have hne : f.bytes.take 1 ≠ [] := by
          rw [f.take_of_le_four (by decide)]
          decide
        simp only [hnot, hne, hrlen, hshort, h4, false_or, false_and]
      · have hnot : ¬TornTail limit logVersion (f.bytes.take r ++ zeros z) := not_tornTail_two logVersion hlimit hr2 hz
        have hne : f.bytes.take r ≠ [] := by
          intro hnil
          rw [hnil, List.length_nil] at hrlen
          omega
        simp only [hnot, hne, hrlen, hshort, h4, false_or, false_and]

end TornFrame

/-- What a cut leaves of a segment, with zeros behind it. -/
theorem Segment.tornTail_zeros_iff {limit : Int} {g : Segment} (hf : g.Fits) (hw : g.Within limit) {c : Nat}
    (hc : segmentHeaderSize ≤ c) (z : Nat) :
    ∃ tail, g.bytes.take c = (g.cut c).bytes ++ tail ∧
      (TornTail limit logVersion (tail ++ zeros z) ↔ ZerosHarmless tail z) := by
  obtain ⟨tail, htake, ⟨_, rfl⟩ | ⟨e, rest, r, hentries, hr, rfl⟩⟩ := g.take_bytes c hc
  · refine ⟨[], htake, ?_⟩
    rw [List.nil_append]
    exact iff_of_true (tornTail_zeros limit logVersion z) (Or.inl rfl)
  · have hmem : e.frame (g.cut c).next ∈ g.frames := by
      rw [Segment.frames, hentries, framesFrom_append]
      exact List.mem_append_right _ List.mem_cons_self
    exact ⟨_, htake, Mdrap.tornTail_zeros_iff (Segment.readable hf hw _ hmem) (by rw [LogEntry.length_frame_bytes]; exact hr)⟩

/-- The last of records one behind the other ends behind all of them. -/
theorem endPos_getLast_itemsFrom (g offset pos : Nat) (es : List LogEntry) :
    ((itemsFrom g offset pos es).getLast?.map Item.endPos).getD pos = pos + entriesSize es := by
  rcases List.eq_nil_or_concat es with rfl | ⟨es, e, rfl⟩
  · rfl
  · rw [List.concat_eq_append, itemsFrom_append, itemsFrom, itemsFrom, List.getLast?_concat]
    simp only [Option.map_some, Option.getD_some, entriesSize_append, entriesSize_cons, entriesSize_nil]
    omega

namespace IngestLog

variable {s : IngestLog} {L : Layout} (h : s.Represents L)

include h

/-- The whole frames before a cut are those of the cut segment. -/
theorem wholeEnd_eq (c : Nat) : s.wholeEnd L.items c = (L.active.cut c).bytes.length := by
  have hfilter : L.items.filter (fun i => i.segment = s.newestSegment ∧ i.endPos ≤ c) = (L.active.cut c).items := by
    rw [Layout.items, Layout.segments, List.flatMap_append, List.filter_append, Segment.items_cut, newestSegment_eq h,
      List.flatMap_cons, List.flatMap_nil, List.append_nil]
    have hsealed : (L.sealed.flatMap Segment.items).filter (fun i => i.segment = L.active.start ∧ i.endPos ≤ c) = [] := by
      rw [List.filter_eq_nil_iff]
      intro i hi
      obtain ⟨g, hg, hig⟩ := List.mem_flatMap.mp hi
      have hlt := L.start_lt_active g hg
      have hseg := Segment.segment_of_mem_items hig
      simp only [decide_eq_true_eq]
      omega
    rw [hsealed, List.nil_append]
    refine List.filter_congr ?_
    intro i hi
    simp [Segment.segment_of_mem_items hi]
  rw [wholeEnd, hfilter, Segment.length_bytes]
  exact endPos_getLast_itemsFrom _ _ _ _

/-- A tail that is not torn is not cut off where the log can be opened. -/
theorem files_ne_of_not_tornTail {cfg : LogConfig} (hw : L.Within cfg.maxSegmentBytes) (c : Nat) {now ts : UInt64}
    {tail : Bytes} (htail : ¬TornTail cfg.maxSegmentBytes logVersion tail) {t : IngestLog}
    (hopen : openLog cfg (s.crashTo ((L.active.cut c).bytes ++ tail)) now ts = .ok t) : t.dir.files ≠ (L.cut c).files := by
  obtain ⟨pre, durable, hentries, _⟩ := entries_crashTo h ((L.active.cut c).bytes ++ tail)
  have hf : (L.active.cut c).Fits := Segment.fits_cut (L.fits L.active (by simp)) c
  have hw' : (L.active.cut c).Within cfg.maxSegmentBytes :=
    Segment.within_cut (hw L.active (by simp [Layout.segments])) c
  generalize s.crashTo ((L.active.cut c).bytes ++ tail) = dir at hentries hopen
  rcases recoverSegments_spec cfg dir.segments.entries dir (-1) 0 [] rfl with
    ⟨dir', n', hrec, hdir', hall⟩ | ⟨e, _, reason, _, hrec⟩
  · obtain ⟨x, hx⟩ := hall (L.active.start, ⟨(L.active.cut c).bytes ++ tail, durable⟩) (by rw [hentries]; simp)
    obtain ⟨m, hm, hrep⟩ := verifyAndRepairSegment_bytes_append hf hw' tail durable
    cases hloop : repairLoop cfg.maxSegmentBytes logVersion m tail (L.active.cut c).bytes.length (L.active.cut c).highest with
    | error e =>
      rw [hloop] at hrep
      rw [hrep] at hx
      cases hx
    | ok r =>
      rw [hloop] at hrep
      have hlt := lt_validPos_of_not_tornTail htail hm hloop
      have hle := repairLoop_validPos_le hloop
      have hfile : repairedFile cfg.maxSegmentBytes (L.active.start, ⟨(L.active.cut c).bytes ++ tail, durable⟩) =
          some (L.active.start, ⟨((L.active.cut c).bytes ++ tail).take r.validPos, min durable r.validPos⟩) := by
        simp only [repairedFile, hrep]
      rw [List.nil_append, hentries, List.filterMap_append, List.filterMap_cons_some hfile, List.filterMap_nil] at hdir'
      have hdir := openLog_dir hrec (by rw [hdir']; simp) hopen
      intro hfiles
      have hlast := congrArg List.getLast? hfiles
      rw [hdir, LogDir.files, hdir', List.map_append, Layout.files, Layout.segments, List.map_append, List.map_singleton,
        List.map_singleton, List.getLast?_concat, List.getLast?_concat] at hlast
      simp only [Option.some.injEq, Prod.mk.injEq] at hlast
      have hlen := congrArg List.length hlast.2
      rw [List.length_take, List.length_append] at hlen
      have hcut : (L.cut c).active = L.active.cut c := rfl
      rw [hcut] at hlen
      omega
  · rw [openLog, recoverAndOpen, hrec] at hopen
    cases hopen

end IngestLog

end Mdrap
