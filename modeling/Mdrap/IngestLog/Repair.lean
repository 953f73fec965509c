import Mathlib.Data.String.Basic
import Mdrap.Lib.Store
import Mdrap.IngestLog.Frame
import Mdrap.Lib.Dict
import Mdrap.Lib.Proc
import Mdrap.Lib.Sort

/-!
# Segment files, their sparse index, and the repair of a segment on opening

A segment file has the bytes handed to the operating system and a length up to which they are durable. Beside it may stand an
index file that lists the positions of some of its frames. The loops run over the bytes that are left to read; their first
argument bounds the number of rounds, and every round consumes at least a frame header.
-/

namespace Mdrap

open Lib

/-- The fsync policies of the log. -/
inductive FsyncPolicy where
  | always
  | groupedByTime
  | groupedBySize
  | never
  | trueGroupCommit
  deriving DecidableEq

/-- The parameters a log is opened with. -/
structure LogConfig where
  fsyncPolicy : FsyncPolicy
  maxSegmentBytes : Int
  sparseIndexInterval : Int

/-- `self.sparse_index_interval`. -/
def LogConfig.interval (cfg : LogConfig) : Nat := (max 1 cfg.sparseIndexInterval).toNat

/-- A segment file: its bytes, and how many of them are durable. -/
structure SegFile where
  written : Bytes
  durable : Nat

/-- A sparse index file: the size of the segment it was built for, and positions of frames by offset. -/
structure SparseIndex where
  interval : Nat
  boundSize : Nat
  lastOffset : Nat
  entries : List (Nat × Nat)

/-- The directory of a log: segment files and index files, named by the start offset of the segment. -/
structure LogDir where
  segments : Store SegFile
  indexes : Store SparseIndex

/-- An empty directory. -/
def LogDir.empty : LogDir := ⟨Store.empty, Store.empty⟩

/-! ## The sparse index -/

/-- The loop of `build_sparse_index`: the frames from a position on, by their headers alone. -/
@[grind =] def buildIndexLoop (interval : Nat) : Nat → Bytes → Nat → List (Nat × Nat) → Int → List (Nat × Nat) × Int
  | 0, _, _, entries, last => (entries, last)
  | n + 1, rest, pos, entries, last =>
    if rest.length < frameHeaderSize then (entries, last)
    else
      let h := unpackFrameHeader (rest.take frameHeaderSize)
      if h.magic ≠ frameMagic ∨ maxFramePayloadBytes < h.length then (entries, last)
      else
        let entries := if h.offset % interval = 0 ∨ entries = [] then entries ++ [(h.offset, pos)] else entries
        buildIndexLoop interval n (rest.drop (frameHeaderSize + h.length)) (pos + frameHeaderSize + h.length) entries
          h.offset

/-- The index of a segment's bytes; a file shorter than a header has none. -/
def sparseIndexOf (interval : Nat) (b : Bytes) : Option SparseIndex :=
  if b.length < segmentHeaderSize then none
  else
    let (entries, last) := buildIndexLoop interval (b.length + 1) (b.drop segmentHeaderSize) segmentHeaderSize [] (-1)
    some ⟨interval, b.length, last.toNat, entries⟩

/-- Whether the numbers of an index fit the fields of its file. -/
def SparseIndex.fits (x : SparseIndex) : Bool := x.interval < 2 ^ 32 && x.entries.length < 2 ^ 32 && x.boundSize < 2 ^ 64

/-- `build_sparse_index`: the entries of a segment, and the directory with its index file. An index that does not fit its
file is not written. -/
def buildSparseIndex (interval start : Nat) (dir : LogDir) : List (Nat × Nat) × LogDir :=
  match (dir.segments.get? start).bind (fun f => sparseIndexOf interval f.written) with
  | none => ([], dir)
  | some x => (x.entries, if x.fits then { dir with indexes := dir.indexes.put start x } else dir)

/-- The index file of a segment, if it is one for the segment as it stands. -/
def usableIndex (size : Nat) (x : SparseIndex) : Bool :=
  x.boundSize == size && !x.entries.isEmpty && x.entries.all (fun e => segmentHeaderSize ≤ e.2 && e.2 < size)

/-- `load_sparse_index`: the entries of the index file, or those of a new index when it is missing or stale. -/
def loadSparseIndex (interval start : Nat) (dir : LogDir) : List (Nat × Nat) × LogDir :=
  match dir.segments.get? start, dir.indexes.get? start with
  | some f, some x => if usableIndex f.written.length x then (x.entries, dir) else buildSparseIndex interval start dir
  | _, _ => buildSparseIndex interval start dir

/-! ## Repair -/

/-- What the repair loop leaves: where the valid frames end, the highest offset among them, and how many torn frames were
counted. -/
structure Repair where
  validPos : Nat
  highestOffset : Int
  corruptedFrames : Nat

/-- The loop of `_verify_and_repair_segment`. At the head of each round the read position is `validPos`. -/
@[grind =] def repairLoop (maxSegmentBytes : Int) (segVersion : Nat) : Nat → Bytes → Nat → Int → Except CorruptReason Repair
  | 0, _, validPos, highest => .ok ⟨validPos, highest, 0⟩
  | n + 1, rest, validPos, highest =>
    match readFrame maxSegmentBytes segVersion rest with
    | .eof => .ok ⟨validPos, highest, 0⟩
    | .tornHeader => .ok ⟨validPos, highest, 1⟩
    | .badMagic h =>
      -- a tail of zeros is left by file systems that allocate before they write
      if rest.all (· == 0) then .ok ⟨validPos, highest, 0⟩ else .error (.frameMagic h.magic validPos h.offset)
    | .oversized h => .error (.oversized h.length validPos)
    | .tornPayload => .ok ⟨validPos, highest, 1⟩
    | .badCrc f expected actual rest =>
      if rest = [] then .ok ⟨validPos, highest, 1⟩ else .error (.crcMismatch f.offset expected actual)
    | .frame f rest =>
      repairLoop maxSegmentBytes segVersion n rest (validPos + frameHeaderSize + f.payload.length) (max highest f.offset)

/-- The file that repair leaves of a segment file, if it leaves one, and what it found in it. -/
def verifyAndRepairSegment (maxSegmentBytes : Int) (f : SegFile) : Except CorruptReason (Option SegFile × Repair) :=
  if f.written.length < segmentHeaderSize then .ok (none, ⟨0, -1, 0⟩)
  else
    match checkSegmentHeader (f.written.take segmentHeaderSize) with
    | .error e => .error e
    | .ok () =>
      match repairLoop maxSegmentBytes (segmentVersion f.written) (f.written.length + 1)
        (f.written.drop segmentHeaderSize) segmentHeaderSize (-1) with
      | .error e => .error e
      | .ok r => .ok (some ⟨f.written.take r.validPos, min f.durable r.validPos⟩, r)

end Mdrap

/-!
## Salvage of damaged segments

`salvage` reads every segment file of a directory frame by frame, looks for the next frame magic where something else stands, and
writes the frames it could read to a clean file. The two loops over a file are one loop here, whose state says which of them it is
in; no operation on the files fails.
-/

namespace Mdrap

open Lib

/-- `DEFAULT_MAX_SEGMENT_BYTES`. -/
def defaultMaxSegmentBytes : Nat := 10 * 1024 * 1024

/-- `DEFAULT_SPARSE_INDEX_INTERVAL`. -/
def defaultSparseIndexInterval : Nat := 1024

/-- `f.read(n)` at a position; the position moves on by what was read. -/
def readAt (file : Bytes) (pos n : Nat) : Bytes := (file.drop pos).take n

/-- Where the loops over a file stand: the read position, whether the next magic is being searched for, and what was found. -/
structure SalvageScan where
  pos : Nat
  searching : Bool
  isCorrupt : Bool
  recovered : List (Bytes × Bytes)

/-- One round of the search for the next frame magic: whether the loop is left, and the position then. -/
def searchRound (file : Bytes) (pos : Nat) : Bool × Nat :=
  match readAt file pos 1 with
  | [] => (true, pos)
  | searchByte :: _ =>
    if searchByte = 0xAA then
      let nextByte := readAt file (pos + 1) 1
      let told := pos + 1 + nextByte.length
      if nextByte = [0x55] then (true, told - 2) else (false, told - 1)
    else (false, pos + 1)

/-- What salvage takes for no frame header: another magic, or a length beyond a default segment. -/
def badSalvageHeader (hdr : Bytes) : Prop :=
  (unpackFrameHeader hdr).magic ≠ frameMagic ∨ defaultMaxSegmentBytes < (unpackFrameHeader hdr).length

instance (hdr : Bytes) : Decidable (badSalvageHeader hdr) := inferInstanceAs (Decidable (_ ∨ _))

/-- One round of the loop over the frames: it ends at the end of the file and at a frame that is not all there. -/
def frameRound (segVersion : Nat) (file : Bytes) (s : SalvageScan) : Turn SalvageScan (Bool × List (Bytes × Bytes)) :=
  let hdr := readAt file s.pos frameHeaderSize
  if hdr = [] then .done (s.isCorrupt, s.recovered)
  else if hdr.length < frameHeaderSize then .done (true, s.recovered)
  else if badSalvageHeader hdr then .next { s with pos := s.pos + 1, searching := true, isCorrupt := true }
  else
    let h := unpackFrameHeader hdr
    let payload := readAt file (s.pos + frameHeaderSize) h.length
    if payload.length < h.length then .done (true, s.recovered)
    else
      let pos := s.pos + frameHeaderSize + h.length
      let actual := (computeFrameCrc (hdr.take 24) payload (effectiveVersion h.version segVersion)).toNat
      if actual ≠ h.crc then .next { s with pos := pos, isCorrupt := true }
      else .next { s with pos := pos, recovered := s.recovered ++ [(hdr, payload)] }

/-- One round of whichever loop it is. -/
def salvageRound (segVersion : Nat) (file : Bytes) (s : SalvageScan) : Turn SalvageScan (Bool × List (Bytes × Bytes)) :=
  if s.searching then
    let r := searchRound file s.pos
    .next { s with pos := r.2, searching := !r.1 }
  else frameRound segVersion file s

/-- The start of the loop: behind the segment header. -/
def salvageStart (file : Bytes) : SalvageScan :=
  ⟨segmentHeaderSize, false, segmentMagic file ≠ logMagic ∨ segmentVersion file ∉ supportedLogVersions, []⟩

/-- Whether a segment file is damaged, and the frames that could be read: a file shorter than a header has none. -/
def scanSegment (fuel : Nat) (file : Bytes) : Option (Bool × List (Bytes × Bytes)) :=
  if file.length < segmentHeaderSize then some (true, [])
  else loop (salvageRound (segmentVersion file) file) fuel (salvageStart file)

/-- Whether a time is one to write, as `if first_ts` asks: not a zero. -/
def isTruthyTime (ts : UInt64) : Bool := ts != 0 && ts != 0x8000000000000000

/-- The clean file of the frames of a segment. -/
def cleanSegment (file : Bytes) (now : UInt64) : List (Bytes × Bytes) → Bytes
  | [] => []
  | (hdr, payload) :: frames =>
    let first := unpackFrameHeader hdr
    let version := if segmentVersion file ∈ supportedLogVersions then segmentVersion file else logVersion
    let ts := if isTruthyTime first.ts then first.ts else now
    let front := logMagic ++ be 2 version ++ be 8 first.offset ++ be 8 ts.toNat
    front ++ (be 4 (crc32 front).toNat ++ [0, 0]) ++ ((hdr, payload) :: frames).flatMap (fun f => f.1 ++ f.2)

/-- The summary of a salvage. -/
structure SalvageReport where
  scannedSegments : Nat
  corruptedSegments : Nat
  recoveredRecords : Nat
  repairedFiles : List String

/-- A directory: the files named `segment_*.log`, their index files by the same name, and the backups. -/
structure SalvageDir where
  segments : Dict String Bytes
  indexes : Dict String SparseIndex
  backups : Dict String Bytes

/-- What becomes of a damaged segment: it is copied, and written anew with the frames that could be read, or removed. -/
def repairDamaged (backup : Bool) (now : UInt64) (second : Nat) (name : String) (file : Bytes) (frames : List (Bytes × Bytes))
    (dir : SalvageDir) : SalvageDir :=
  let dir :=
    if backup then { dir with backups := dir.backups.set (name ++ ".bak." ++ toString second) file } else dir
  if frames = [] then { dir with segments := dir.segments.erase name, indexes := dir.indexes.erase name }
  else
    let clean := cleanSegment file now frames
    { dir with
      segments := dir.segments.set name clean
      indexes :=
        match sparseIndexOf defaultSparseIndexInterval clean with
        | some x => if x.fits then dir.indexes.set name x else dir.indexes.erase name
        | none => dir.indexes.erase name }

/-- The loop of `salvage` over the segment files. -/
def salvageFiles (fuel : Nat) (backup : Bool) (now : UInt64) (second : Nat) :
    List (String × Bytes) → SalvageReport → SalvageDir → Option (SalvageReport × SalvageDir)
  | [], report, dir => some (report, dir)
  | (name, file) :: rest, report, dir =>
    match scanSegment fuel file with
    | none => none
    | some (isCorrupt, frames) =>
      let report := { report with
        scannedSegments := report.scannedSegments + 1
        corruptedSegments := report.corruptedSegments + isCorrupt.toNat
        recoveredRecords := report.recoveredRecords + frames.length
        repairedFiles := if isCorrupt ∧ frames ≠ [] then report.repairedFiles ++ [name] else report.repairedFiles }
      salvageFiles fuel backup now second rest report
        (if isCorrupt then repairDamaged backup now second name file frames dir else dir)

/-- `salvage`, with at most so many rounds for each file. -/
def salvage (fuel : Nat) (backup : Bool) (now : UInt64) (second : Nat) (dir : SalvageDir) : Option (SalvageReport × SalvageDir) :=
  salvageFiles fuel backup now second (sortBy Prod.fst dir.segments.items) ⟨0, 0, 0, []⟩ dir

end Mdrap
