import Mdrap.IngestLog.Frame

/-!
# What is packed is unpacked

A frame written by the log is read back whatever follows it (`readFrame_bytes`), and the header of a new segment passes its
checks. For any bytes, a frame that was read stands at their start and is read again whatever is put behind it
(`readFrame_frame`).
-/

namespace Mdrap

open Lib

/-! ## Sizes -/

@[simp] theorem length_framePrefix (f : Frame) (v : Nat) : (framePrefix f v).length = 24 := by
  simp [framePrefix]

@[simp] theorem length_frameHeaderBytes (f : Frame) (v : Nat) : (frameHeaderBytes f v).length = 28 := by
  simp [frameHeaderBytes]

@[simp] theorem Frame.length_bytes (f : Frame) : f.bytes.length = 28 + f.payload.length := by
  simp [Frame.bytes]

@[simp] theorem length_segmentPrefix (start : Nat) (ts : UInt64) : (segmentPrefix start ts).length = 26 := by
  simp [segmentPrefix, logMagic]

@[simp] theorem length_segmentHeaderBytes (start : Nat) (ts : UInt64) : (segmentHeaderBytes start ts).length = 32 := by
  simp [segmentHeaderBytes]

/-! ## Unpacking -/

theorem take_header_bytes (f : Frame) (r : Bytes) :
    (f.bytes ++ r).take frameHeaderSize = frameHeaderBytes f logVersion := by
  rw [Frame.bytes, List.append_assoc]
  exact List.take_left' (by simp [frameHeaderSize])

theorem take_prefix_bytes (f : Frame) (r : Bytes) : (f.bytes ++ r).take 24 = framePrefix f logVersion := by
  rw [Frame.bytes, frameHeaderBytes, List.append_assoc, List.append_assoc]
  exact List.take_left' (by simp)

/-- The fields of a packed header, read one after the other. -/
theorem unpackFrameHeader_bytes {f : Frame} (hf : f.Fits) :
    unpackFrameHeader (frameHeaderBytes f logVersion) =
      ⟨frameMagic, logVersion, f.offset, f.ts, f.payload.length,
        (computeFrameCrc (framePrefix f logVersion) f.payload logVersion).toNat⟩ := by
  obtain ⟨hoff, hlen⟩ := hf
  rw [frameHeaderBytes]
  generalize computeFrameCrc (framePrefix f logVersion) f.payload logVersion = crc
  have hm : beNat (be 2 frameMagic) = frameMagic := beNat_be_of_lt (by decide)
  have hv : beNat (be 2 logVersion) = logVersion := beNat_be_of_lt (by decide)
  have ho : beNat (be 8 f.offset) = f.offset := beNat_be_of_lt (by simpa using hoff)
  have hts : beNat (be 8 f.ts.toNat) = f.ts.toNat := beNat_be_of_lt f.ts.toNat_lt
  have hl : beNat (be 4 f.payload.length) = f.payload.length := beNat_be_of_lt (by simpa using hlen)
  have hcrc : beNat (be 4 crc.toNat) = crc.toNat := beNat_be_of_lt crc.toNat_lt
  simp [unpackFrameHeader, framePrefix, List.drop_append, hm, hv, ho, hts, hl, hcrc]

/-- A frame of the log is read back, whatever follows it. -/
theorem readFrame_bytes {f : Frame} (hf : f.Fits) {limit : Int} (hmax : f.payload.length ≤ maxFramePayloadBytes)
    (hlimit : (f.payload.length : Int) ≤ limit) (v : Nat) (r : Bytes) :
    readFrame limit v (f.bytes ++ r) = .frame f r := by
  have hlen : ¬(f.bytes ++ r).length < frameHeaderSize := by
    simp [frameHeaderSize]
    omega
  have hne : f.bytes ++ r ≠ [] := by
    intro h
    rw [h] at hlen
    exact hlen (by decide)
  have hdrop : (f.bytes ++ r).drop frameHeaderSize = f.payload ++ r := by
    rw [Frame.bytes, List.append_assoc]
    exact List.drop_left' (by simp [frameHeaderSize])
  have hpayload : (f.payload ++ r).take f.payload.length = f.payload := List.take_left
  have hrest : (f.bytes ++ r).drop (frameHeaderSize + f.payload.length) = r :=
    List.drop_left' (by simp [frameHeaderSize])
  have heff : effectiveVersion logVersion v = logVersion := rfl
  have hsize : ¬(maxFramePayloadBytes < f.payload.length ∨ limit < (f.payload.length : Int)) := by omega
  unfold readFrame
  rw [if_neg hne, if_neg hlen, take_header_bytes, unpackFrameHeader_bytes hf]
  simp only [ne_eq, not_true_eq_false, if_false, if_neg hsize, hdrop, hpayload, hrest, take_prefix_bytes, heff,
    Nat.lt_irrefl]

/-- A frame beyond a limit is not read back. -/
theorem readFrame_oversized {f : Frame} (hf : f.Fits) {limit : Int}
    (h : ¬(f.payload.length ≤ maxFramePayloadBytes ∧ (f.payload.length : Int) ≤ limit)) (v : Nat) (r : Bytes) :
    ∃ hd, readFrame limit v (f.bytes ++ r) = .oversized hd := by
  have hlen : ¬(f.bytes ++ r).length < frameHeaderSize := by
    simp [frameHeaderSize]
    omega
  have hne : f.bytes ++ r ≠ [] := by
    intro h
    rw [h] at hlen
    exact hlen (by decide)
  have hsize : maxFramePayloadBytes < f.payload.length ∨ limit < (f.payload.length : Int) := by omega
  unfold readFrame
  rw [if_neg hne, if_neg hlen, take_header_bytes, unpackFrameHeader_bytes hf]
  simp only [ne_eq, not_true_eq_false, if_false, if_pos hsize]
  exact ⟨_, rfl⟩

/-! ## Segment headers -/

theorem segmentMagic_header (start : Nat) (ts : UInt64) (r : Bytes) :
    segmentMagic (segmentHeaderBytes start ts ++ r) = logMagic := by
  simp [segmentMagic, segmentHeaderBytes, segmentPrefix, logMagic]

theorem segmentVersion_header (start : Nat) (ts : UInt64) (r : Bytes) :
    segmentVersion (segmentHeaderBytes start ts ++ r) = logVersion := by
  have hv : beNat (be 2 logVersion) = logVersion := beNat_be_of_lt (by decide)
  simp [segmentVersion, segmentHeaderBytes, segmentPrefix, logMagic, List.drop_append, hv]

/-- The header of a new segment passes the checks. -/
theorem checkSegmentHeader_header (start : Nat) (ts : UInt64) :
    checkSegmentHeader (segmentHeaderBytes start ts) = .ok () := by
  have hmagic := segmentMagic_header start ts []
  have hversion := segmentVersion_header start ts []
  have hcrc : segmentCrc (segmentHeaderBytes start ts) = (crc32 ((segmentHeaderBytes start ts).take 26)).toNat := by
    have htake : (segmentHeaderBytes start ts).take 26 = segmentPrefix start ts := List.take_left' (by simp)
    have hdrop : (segmentHeaderBytes start ts).drop 26 =
        be 4 (crc32 (segmentPrefix start ts)).toNat ++ [0, 0] := List.drop_left' (by simp)
    rw [segmentCrc, htake, hdrop, List.take_left' (by simp), beNat_be_of_lt (UInt32.toNat_lt _)]
  rw [List.append_nil] at hmagic hversion
  unfold checkSegmentHeader
  rw [if_neg (by simp [hmagic, hversion, supportedLogVersions, logVersion]), if_neg (fun h => h.2 hcrc)]

/-! ## Any bytes -/

/-- When a frame is read: its header is whole and sound, its payload is whole, and the checksum is right. -/
theorem readFrame_eq_frame_iff {limit : Int} {v : Nat} {b r : Bytes} {f : Frame} {h : FrameHeader}
    (hh : unpackFrameHeader (b.take frameHeaderSize) = h) :
    readFrame limit v b = .frame f r ↔
      frameHeaderSize + h.length ≤ b.length ∧ h.magic = frameMagic ∧ h.length ≤ maxFramePayloadBytes ∧
      (h.length : Int) ≤ limit ∧ f = ⟨h.offset, h.ts, (b.drop frameHeaderSize).take h.length⟩ ∧
      r = b.drop (frameHeaderSize + h.length) ∧
      (computeFrameCrc (b.take 24) f.payload (effectiveVersion h.version v)).toNat = h.crc := by
  have hempty : ∀ n, frameHeaderSize + n ≤ b.length → b ≠ [] ∧ ¬b.length < frameHeaderSize := by
    intro n hn
    refine ⟨?_, by omega⟩
    rintro rfl
    simp [frameHeaderSize] at hn
  have hpayload : ¬b.length < frameHeaderSize →
      (((b.drop frameHeaderSize).take h.length).length < h.length ↔ ¬frameHeaderSize + h.length ≤ b.length) := by
    intro hge
    rw [List.length_take, List.length_drop]
    omega
  unfold readFrame
  simp only [hh]
  constructor
  · intro hread
    split at hread
    · cases hread
    split at hread
    · cases hread
    split at hread
    · cases hread
    split at hread
    · cases hread
    split at hread
    · cases hread
    split at hread
    · cases hread
    rename_i hge hmagic hsize hlen hcrc
    cases hread
    rw [hpayload hge] at hlen
    exact ⟨not_not.mp hlen, not_not.mp hmagic, by omega, by omega, rfl, rfl, not_not.mp hcrc⟩
  · rintro ⟨hlen, hmagic, hmax, hlimit, rfl, rfl, hcrc⟩
    obtain ⟨hne, hge⟩ := hempty _ hlen
    rw [if_neg hne, if_neg hge, if_neg (not_not.mpr hmagic), if_neg (by omega),
      if_neg (fun h => (hpayload hge).mp h hlen), if_neg (not_not.mpr hcrc)]

/-- A frame that was read stands at the start of the bytes, and is read again whatever follows. -/
theorem readFrame_frame {limit : Int} {v : Nat} {b r : Bytes} {f : Frame} (h : readFrame limit v b = .frame f r) :
    ∃ chunk, b = chunk ++ r ∧ chunk.length = 28 + f.payload.length ∧
      ∀ r', readFrame limit v (chunk ++ r') = .frame f r' := by
  obtain ⟨hlen, hmagic, hmax, hlimit, rfl, rfl, hcrc⟩ := (readFrame_eq_frame_iff rfl).mp h
  generalize hh : unpackFrameHeader (b.take frameHeaderSize) = hd at *
  have hchunk : (b.take (frameHeaderSize + hd.length)).length = frameHeaderSize + hd.length := by
    rw [List.length_take, Nat.min_eq_left hlen]
  refine ⟨b.take (frameHeaderSize + hd.length), (List.take_append_drop _ _).symm, ?_, ?_⟩
  · rw [hchunk, List.length_take, List.length_drop, Nat.min_eq_left (by omega)]
    rfl
  · intro r'
    have htake : ∀ n, n ≤ frameHeaderSize → (b.take (frameHeaderSize + hd.length) ++ r').take n = b.take n := by
      intro n hn
      rw [List.take_append_of_le_length (by omega), List.take_take, Nat.min_eq_left (by omega)]
    have hpayload : ((b.take (frameHeaderSize + hd.length) ++ r').drop frameHeaderSize).take hd.length =
        (b.drop frameHeaderSize).take hd.length := by
      rw [List.drop_append_of_le_length (by omega), List.take_append_of_le_length (by rw [List.length_drop]; omega),
        List.drop_take, Nat.add_sub_cancel_left, List.take_take, Nat.min_self]
    refine (readFrame_eq_frame_iff (h := hd) (by rw [htake _ (Nat.le_refl _), hh])).mpr ⟨?_, hmagic, hmax, hlimit, ?_, ?_, ?_⟩
    · rw [List.length_append, hchunk]
      omega
    · rw [hpayload]
    · exact (List.drop_left' hchunk).symm
    · rw [htake 24 (by decide)]
      exact hcrc

end Mdrap
