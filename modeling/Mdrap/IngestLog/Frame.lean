import Mdrap.Lib.Digest

/-!
# Frames and segment headers

The bytes of the log: a segment file is a 32-byte header and frames, and a frame is a 28-byte header and a payload. All
integers are big-endian. Packing fails, as `struct.pack` does, on a number that its field does not hold; a time is stored as
the 64 bits of a floating-point number.
-/

namespace Mdrap

open Lib

/-- `LOG_MAGIC`, the text `MDRAPILG`. -/
def logMagic : Bytes := [0x4d, 0x44, 0x52, 0x41, 0x50, 0x49, 0x4c, 0x47]

/-- `LOG_VERSION`. -/
def logVersion : Nat := 2

/-- `SUPPORTED_LOG_VERSIONS`. -/
def supportedLogVersions : List Nat := [0, 1, 2]

/-- `SEGMENT_HEADER_SIZE`. -/
def segmentHeaderSize : Nat := 32

/-- `FRAME_MAGIC`. -/
def frameMagic : Nat := 0xAA55

/-- `FRAME_HEADER_SIZE`. -/
def frameHeaderSize : Nat := 28

/-- `MAX_FRAME_PAYLOAD_BYTES`. -/
def maxFramePayloadBytes : Nat := 16 * 1024 * 1024

/-! ## Frames -/

/-- The header of a frame, unpacked. -/
structure FrameHeader where
  magic : Nat
  version : Nat
  offset : Nat
  ts : UInt64
  length : Nat
  crc : Nat
  deriving DecidableEq

/-- A frame of the log: an offset, the time it was written at, and its payload. -/
structure Frame where
  offset : Nat
  ts : UInt64
  payload : Bytes
  deriving DecidableEq

/-- A frame whose numbers fit their fields. -/
def Frame.Fits (f : Frame) : Prop := f.offset < 2 ^ 64 ∧ f.payload.length < 2 ^ 32

instance (f : Frame) : Decidable f.Fits := inferInstanceAs (Decidable (_ ∧ _))

/-- `compute_frame_crc`: from version 2 on the checksum covers the header prefix too. -/
def computeFrameCrc (hdrPrefix payload : Bytes) (version : Nat) : UInt32 :=
  if 2 ≤ version then crc32With payload (crc32 hdrPrefix) else crc32 payload

/-- The first 24 bytes of a frame header. -/
def framePrefix (f : Frame) (version : Nat) : Bytes :=
  be 2 frameMagic ++ be 2 version ++ be 8 f.offset ++ be 8 f.ts.toNat ++ be 4 f.payload.length

/-- The 28 bytes of a frame header. -/
def frameHeaderBytes (f : Frame) (version : Nat) : Bytes :=
  framePrefix f version ++ be 4 (computeFrameCrc (framePrefix f version) f.payload version).toNat

/-- `pack_frame_header`. -/
def packFrameHeader (offset : Nat) (now : UInt64) (payload : Bytes) (version : Nat) : Option Bytes :=
  if (Frame.mk offset now payload).Fits then some (frameHeaderBytes ⟨offset, now, payload⟩ version) else none

/-- A frame as it stands in a segment file. -/
def Frame.bytes (f : Frame) : Bytes := frameHeaderBytes f logVersion ++ f.payload

/-- `struct.unpack` of a frame header. -/
def unpackFrameHeader (b : Bytes) : FrameHeader where
  magic := beNat (b.take 2)
  version := beNat ((b.drop 2).take 2)
  offset := beNat ((b.drop 4).take 8)
  ts := UInt64.ofNat (beNat ((b.drop 12).take 8))
  length := beNat ((b.drop 20).take 4)
  crc := beNat ((b.drop 24).take 4)

/-! ## Segment headers -/

/-- The first 26 bytes of a segment header. -/
def segmentPrefix (start : Nat) (ts : UInt64) : Bytes := logMagic ++ be 2 logVersion ++ be 8 start ++ be 8 ts.toNat

/-- The header of a new segment: its checksum stands in the reserved bytes. -/
def segmentHeaderBytes (start : Nat) (ts : UInt64) : Bytes :=
  segmentPrefix start ts ++ (be 4 (crc32 (segmentPrefix start ts)).toNat ++ [0, 0])

/-- The packing of a segment header in `_rotate_to_new_segment`. -/
def packSegmentHeader (start : Nat) (ts : UInt64) : Option Bytes :=
  if start < 2 ^ 64 then some (segmentHeaderBytes start ts) else none

/-- The magic bytes and the version of a segment header. -/
def segmentMagic (b : Bytes) : Bytes := b.take 8

def segmentVersion (b : Bytes) : Nat := beNat ((b.drop 8).take 2)

/-- The checksum in the reserved bytes of a segment header; zero stands for none. -/
def segmentCrc (b : Bytes) : Nat := beNat ((b.drop 26).take 4)

/-- What makes a segment unreadable: the reasons of `IngestLogCorruptError`, with what its message names. -/
inductive CorruptReason where
  | header (magic : Bytes) (version : Nat)
  | headerCrc (expected found : Nat)
  | frameMagic (magic pos offset : Nat)
  | oversized (length pos : Nat)
  | crcMismatch (offset expected found : Nat)
  deriving DecidableEq

/-- The header checks of `_verify_and_repair_segment`. -/
def checkSegmentHeader (b : Bytes) : Except CorruptReason Unit :=
  if segmentMagic b ≠ logMagic ∨ segmentVersion b ∉ supportedLogVersions then
    .error (.header (segmentMagic b) (segmentVersion b))
  else if segmentCrc b ≠ 0 ∧ segmentCrc b ≠ (crc32 (b.take 26)).toNat then
    .error (.headerCrc (crc32 (b.take 26)).toNat (segmentCrc b))
  else .ok ()

/-! ## Reading one frame -/

/-- What stands at a position of a segment file. -/
inductive FrameRead where
  | eof
  | tornHeader
  | badMagic (h : FrameHeader)
  | oversized (h : FrameHeader)
  | tornPayload
  | badCrc (f : Frame) (expected actual : Nat) (rest : Bytes)
  | frame (f : Frame) (rest : Bytes)

/-- The version a frame is checked under: that of its header if it is a known one, else that of the segment. -/
def effectiveVersion (frameVersion segVersion : Nat) : Nat :=
  if frameVersion ∈ supportedLogVersions then frameVersion else segVersion

/-- One round of the loops that read frames: the header, the checks on it, the payload, and the checksum, in the order
`_verify_and_repair_segment` and `iter_from` make them. -/
def readFrame (maxSegmentBytes : Int) (segVersion : Nat) (b : Bytes) : FrameRead :=
  if b = [] then .eof
  else if b.length < frameHeaderSize then .tornHeader
  else
    let h := unpackFrameHeader (b.take frameHeaderSize)
    if h.magic ≠ frameMagic then .badMagic h
    else if maxFramePayloadBytes < h.length ∨ maxSegmentBytes < (h.length : Int) then .oversized h
    else
      let payload := (b.drop frameHeaderSize).take h.length
      let rest := b.drop (frameHeaderSize + h.length)
      if payload.length < h.length then .tornPayload
      else
        let actual := (computeFrameCrc (b.take 24) payload (effectiveVersion h.version segVersion)).toNat
        if actual ≠ h.crc then .badCrc ⟨h.offset, h.ts, payload⟩ h.crc actual rest
        else .frame ⟨h.offset, h.ts, payload⟩ rest

end Mdrap
