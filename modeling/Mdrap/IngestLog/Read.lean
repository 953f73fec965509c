import Mdrap.IngestLog.Log

/-!
# Reading the log

`iter_from` goes through the segment files in order. In a segment that starts before the wanted offset it takes the sparse
index to a frame at or before that offset; should nothing readable stand there, the segment is read from its first frame.
`seek_record` looks for one record in the one segment that can have it, in the same way.
-/

namespace Mdrap

open Lib

/-- `RecoveryError`, as the reading of the log raises it: the history before the first segment is gone. -/
structure HistoryIncomplete where
  requested : Nat
  earliest : Nat
  deriving DecidableEq

/-- `_verify_candidate_frame`: a whole and undamaged frame of the expected offset at a position of the file. -/
def verifyCandidateFrame (file : Bytes) (pos expectedOffset segVersion : Nat) : Bool :=
  if pos < segmentHeaderSize ∨ file.length < pos + frameHeaderSize then false
  else
    let hdr := (file.drop pos).take frameHeaderSize
    let h := unpackFrameHeader hdr
    if h.magic ≠ frameMagic ∨ h.offset ≠ expectedOffset ∨ maxFramePayloadBytes < h.length ∨
      file.length < pos + frameHeaderSize + h.length then false
    else
      let payload := (file.drop (pos + frameHeaderSize)).take h.length
      (computeFrameCrc (hdr.take 24) payload (effectiveVersion h.version segVersion)).toNat = h.crc

/-- The loop of `bisect.bisect_right` on the part of a list between `lo` and `hi`. -/
def bisectRight (a : List Nat) (x : Nat) : Nat → Nat → Nat → Nat
  | 0, lo, _ => lo
  | n + 1, lo, hi =>
    if lo < hi then
      let mid := (lo + hi) / 2
      if x < a.getD mid 0 then bisectRight a x n lo mid else bisectRight a x n (mid + 1) hi
    else lo

/-- The entry of the index to begin at: the one before the first offset beyond the wanted one. -/
def indexEntry (startOffset : Nat) (entries : List (Nat × Nat)) : Option (Nat × Nat) :=
  match bisectRight (entries.map (·.1)) startOffset (entries.length + 1) 0 entries.length with
  | 0 => none
  | i + 1 => entries[i]?

/-- The loop of `iter_from` over the frames of one segment file: the events from an offset on, and the number of damaged
frames. As long as a position taken from the index has given nothing, a frame that cannot be read sends the loop back to the
first frame. -/
def iterLoop (maxSegmentBytes : Int) (segVersion startOffset : Nat) (file : Bytes) :
    Nat → Bytes → Bool → Bool → List (Nat × RawEvent) × Nat
  | 0, _, _, _ => ([], 0)
  | n + 1, rest, sought, yielded =>
    let restart (damaged : Nat) :=
      if sought ∧ ¬yielded then
        iterLoop maxSegmentBytes segVersion startOffset file n (file.drop segmentHeaderSize) false yielded
      else ([], damaged)
    match readFrame maxSegmentBytes segVersion rest with
    | .eof => ([], 0)
    | .tornHeader => ([], 0)
    | .badMagic _ => restart 0
    | .oversized _ => restart 1
    | .tornPayload => restart 0
    | .badCrc _ _ _ rest =>
      let r := iterLoop maxSegmentBytes segVersion startOffset file n rest sought yielded
      (r.1, r.2 + 1)
    | .frame f rest =>
      match (if startOffset ≤ f.offset then decodeRecord f else none) with
      | some e =>
        let r := iterLoop maxSegmentBytes segVersion startOffset file n rest sought true
        ((f.offset, e) :: r.1, r.2)
      | none => iterLoop maxSegmentBytes segVersion startOffset file n rest sought yielded

namespace IngestLog

/-- Where the reading of a segment begins: at its first frame, or at the frame the sparse index leads to. -/
def seekSegment (s : IngestLog) (startOffset start : Nat) (file : Bytes) : Bytes × Bool × IngestLog :=
  if start < startOffset then
    let (entries, dir) := loadSparseIndex s.config.interval start s.dir
    let s := { s with dir := dir }
    match indexEntry startOffset entries with
    | none => (file.drop segmentHeaderSize, false, s)
    | some (off, pos) =>
      if verifyCandidateFrame file pos off (segmentVersion file) then (file.drop pos, true, s)
      else (file.drop segmentHeaderSize, false, { s with dir := (buildSparseIndex s.config.interval start s.dir).2 })
  else (file.drop segmentHeaderSize, false, s)

/-- The events of one segment file from an offset on. A file without a readable header is passed over. -/
def iterSegment (s : IngestLog) (startOffset start : Nat) (file : Bytes) : List (Nat × RawEvent) × IngestLog :=
  if file.length < segmentHeaderSize then ([], s)
  else if segmentMagic file ≠ logMagic ∨ segmentVersion file ∉ supportedLogVersions then ([], s)
  else
    let (rest, sought, s) := s.seekSegment startOffset start file
    let (events, damaged) :=
      iterLoop s.config.maxSegmentBytes (segmentVersion file) startOffset file (2 * file.length + 2) rest sought false
    (events, { s with corruptedFramesCount := s.corruptedFramesCount + damaged })

/-- Whether there is a next segment and it starts at or before an offset. -/
def nextStartsBy (startOffset : Nat) : List (Nat × SegFile) → Bool
  | (next, _) :: _ => next ≤ startOffset
  | [] => false

/-- The loop of `iter_from` over the segment files. A segment is passed over when the next one starts at or before the wanted
offset. -/
def iterSegments (startOffset : Nat) : List (Nat × SegFile) → IngestLog → List (Nat × RawEvent) × IngestLog
  | [], s => ([], s)
  | (start, f) :: rest, s =>
    if nextStartsBy startOffset rest then iterSegments startOffset rest s
    else
      let (events, s) := s.iterSegment startOffset start f.written
      let (more, s) := iterSegments startOffset rest s
      (events ++ more, s)

/-- `list(iter_from(start_offset))`, with no failing file operation. The flush at the start writes the buffer out. -/
def iterFrom (s : IngestLog) (startOffset : Int) (now : UInt64) :
    Except HistoryIncomplete (List (Nat × RawEvent)) × IngestLog :=
  let start := startOffset.toNat
  let s := (s.flush .ok true now).2
  if 0 < s.nextOffset ∧ s.dir.segments.entries ≠ [] ∧ start < s.earliestOffset then
    (.error ⟨start, s.earliestOffset⟩, s)
  else
    let r := iterSegments start s.dir.segments.entries s
    (.ok r.1, r.2)

end IngestLog

/-! ## One record -/

/-- The loop of `seek_record` over the frames of one segment file. A frame that cannot be read, or one beyond the wanted offset,
sends the loop back to the first frame once if it began at a position taken from the index. Only the frame of the wanted offset has
its checksum computed. -/
def seekLoop (segVersion target : Nat) (file : Bytes) : Nat → Bytes → Bool → Option (Nat × RawEvent)
  | 0, _, _ => none
  | n + 1, rest, sought =>
    let restart := if sought then seekLoop segVersion target file n (file.drop segmentHeaderSize) false else none
    let hdr := rest.take frameHeaderSize
    if hdr.length < frameHeaderSize then none
    else
      let h := unpackFrameHeader hdr
      if h.magic ≠ frameMagic ∨ maxFramePayloadBytes < h.length then restart
      else if target < h.offset then restart
      else
        let payload := (rest.drop frameHeaderSize).take h.length
        if payload.length < h.length then restart
        else if h.offset = target then
          if (computeFrameCrc (hdr.take 24) payload (effectiveVersion h.version segVersion)).toNat ≠ h.crc then none
          else (decodeRecord ⟨h.offset, h.ts, payload⟩).map (fun e => (h.offset, e))
        else seekLoop segVersion target file n (rest.drop (frameHeaderSize + h.length)) sought

namespace IngestLog

/-- The loop of `seek_record` over the segment files: the first one with a readable header that is not passed over is the only one that
is read. -/
def seekSegments (target : Nat) : List (Nat × SegFile) → IngestLog → Option (Nat × RawEvent) × IngestLog
  | [], s => (none, s)
  | (start, f) :: rest, s =>
    if f.written.length < segmentHeaderSize then seekSegments target rest s
    else if nextStartsBy target rest then seekSegments target rest s
    else if segmentMagic f.written ≠ logMagic ∨ segmentVersion f.written ∉ supportedLogVersions then seekSegments target rest s
    else
      let (bytes, sought, s) := s.seekSegment target start f.written
      (seekLoop (segmentVersion f.written) target f.written (2 * f.written.length + 2) bytes sought, s)

/-- `seek_record(target_offset)`, with no failing file operation. The flush at the start writes the buffer out. -/
def seekRecord (s : IngestLog) (target : Int) (now : UInt64) : Option (Nat × RawEvent) × IngestLog :=
  if target < 0 then (none, s)
  else
    let s := (s.flush .ok true now).2
    seekSegments target.toNat s.dir.segments.entries s

end IngestLog

end Mdrap
