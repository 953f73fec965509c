import Mdrap.IngestLog.Record
import Mdrap.IngestLog.Repair

/-!
# The log: opening, appending, flushing, rotating, purging

A log writes through one open file. What is written first stands in the buffer of that file; a flush hands it to the operating
system, and a successful fsync makes what the system has durable. Whatever the outside decides during a call is an argument of
it: the readings of the clock, and for each file operation whether it fails and how far it came (`Env`).

Every operation gives its result, or the error it raises, together with the log it leaves.
-/

namespace Mdrap

open Lib

/-! ## The outside -/

/-- The outcome of a write or a flush: all of it, or an error after some bytes went through. -/
inductive IoResult where
  | ok
  | fail (n : Nat)
  deriving DecidableEq

/-- How many of a number of bytes went through. -/
def IoResult.count (r : IoResult) (n : Nat) : Nat :=
  match r with
  | .ok => n
  | .fail k => k

/-- The outcome of creating a segment file: all of it, no file at all, or a file with the first bytes of the header. -/
inductive CreateResult where
  | ok
  | refused
  | torn (n : Nat)
  deriving DecidableEq

/-- The file operations of a rotation: flush and fsync of the old segment, and the creation of the new one. -/
structure RotateIo where
  flush : IoResult
  fsync : Bool
  create : CreateResult

/-- The file operations of a call, and the readings of the clock: for the time stamp of an event, for the frame, for the
header of a new segment, and after the write. -/
structure Env where
  stampTs : UInt64
  frameTs : UInt64
  segmentTs : UInt64
  policyTs : UInt64
  rotate : RotateIo
  write : IoResult
  flush : IoResult
  fsync : Bool
  rollback : IoResult

/-- A call during which no file operation fails. -/
def Env.faultless (stampTs frameTs segmentTs policyTs : UInt64) : Env :=
  ⟨stampTs, frameTs, segmentTs, policyTs, ⟨.ok, true, .ok⟩, .ok, .ok, true, .ok⟩

/-! ## The state -/

/-- What a call on the log raises; `blocked` stands for a call that never returns. -/
inductive IngestLogError where
  | corrupt (start : Nat) (reason : CorruptReason)
  | poisoned
  | structError
  | ioError
  | blocked
  deriving DecidableEq

/-- The file the log writes through: the segment it is, the bytes in its buffer, and whether it was closed. -/
structure OpenFile where
  start : Nat
  buffer : Bytes
  closed : Bool

/-- The log. -/
structure IngestLog where
  config : LogConfig
  dir : LogDir
  nextOffset : Nat
  syncedOffset : Int
  pendingSyncOffset : Int
  current : Option OpenFile
  currentSegmentStartOffset : Nat
  currentSegmentBytes : Nat
  bytesSinceFlush : Nat
  bytesSinceFsync : Nat
  lastFsyncTs : UInt64
  isPoisoned : Bool
  groupCommitFlushing : Bool
  corruptedFramesCount : Nat

/-- `now - last >= limit`, on times as they are stored. -/
def elapsed (now last : UInt64) (limit : Float) : Bool := Float.ofBits now - Float.ofBits last ≥ limit

namespace IngestLog

/-! ## File operations -/

/-- Give the segment of the open file new bytes. -/
def setWritten (s : IngestLog) (start : Nat) (f : SegFile → SegFile) : IngestLog :=
  match s.dir.segments.get? start with
  | none => s
  | some file => { s with dir := { s.dir with segments := s.dir.segments.put start (f file) } }

/-- `self._current_file.write`: into the buffer. -/
def fileWrite (s : IngestLog) (d : Bytes) (r : IoResult) : Bool × IngestLog :=
  match s.current with
  | none => (false, s)
  | some f =>
    if f.closed then (false, s)
    else (r = .ok, { s with current := some { f with buffer := f.buffer ++ d.take (r.count d.length) } })

/-- `self._current_file.flush`: the buffer goes to the end of the file. -/
def fileFlush (s : IngestLog) (r : IoResult) : Bool × IngestLog :=
  match s.current with
  | none => (false, s)
  | some f =>
    if f.closed then (false, s)
    else
      let n := r.count f.buffer.length
      let s := s.setWritten f.start (fun file => { file with written := file.written ++ f.buffer.take n })
      (r = .ok, { s with current := some { f with buffer := f.buffer.drop n } })

/-- `os.fsync(self._current_file.fileno())`. -/
def fileFsync (s : IngestLog) (ok : Bool) : Bool × IngestLog :=
  match s.current with
  | none => (false, s)
  | some f =>
    if f.closed then (false, s)
    else if ok then (true, s.setWritten f.start (fun file => { file with durable := file.written.length }))
    else (false, s)

/-- `seek(pos)`, `truncate(pos)`, `flush()`: the buffer is flushed, then the file is cut or filled to the position. -/
def fileTruncate (s : IngestLog) (pos : Nat) (r : IoResult) : Bool × IngestLog :=
  match s.fileFlush r with
  | (false, s) => (false, s)
  | (true, s) =>
    match s.current with
    | none => (false, s)
    | some f =>
      (true, s.setWritten f.start (fun file => ⟨resize pos file.written, min file.durable pos⟩))

/-! ## Rotation -/

/-- Flush, fsync and close of the open file, with errors passed over. -/
def sealFile (s : IngestLog) (io : RotateIo) : IngestLog :=
  match s.fileFlush io.flush with
  | (false, s) => s
  | (true, s) =>
    match s.fileFsync io.fsync with
    | (false, s) => s
    | (true, s) => { s with current := s.current.map (fun (f : OpenFile) => { f with closed := true }) }

/-- The end of the old segment: its file is closed and its sparse index built. -/
def closeSegment (s : IngestLog) (io : RotateIo) : IngestLog :=
  match s.current with
  | none => s
  | some _ =>
    let s := s.sealFile io
    { s with dir := (buildSparseIndex s.config.interval s.currentSegmentStartOffset s.dir).2 }

/-- `_rotate_to_new_segment`: a failure to create the new file poisons the log. -/
def rotateToNewSegment (s : IngestLog) (start : Nat) (ts : UInt64) (io : RotateIo) : Except IngestLogError Unit × IngestLog :=
  let s := s.closeSegment io
  match packSegmentHeader start ts with
  | none => (.error .structError, s)
  | some hdr =>
    let create (b : Bytes) (durable : Nat) : LogDir := { s.dir with segments := s.dir.segments.put start ⟨b, durable⟩ }
    match io.create with
    | .refused => (.error .ioError, { s with isPoisoned := true })
    | .torn n => (.error .ioError, { s with dir := create (hdr.take n) 0, isPoisoned := true })
    | .ok =>
      (.ok (), { s with
        dir := create hdr hdr.length
        current := some ⟨start, [], false⟩
        currentSegmentStartOffset := start
        currentSegmentBytes := hdr.length
        bytesSinceFlush := 0
        bytesSinceFsync := 0 })

/-- A rotation where there is no open file or the bytes to come do not fit the segment. -/
def rotateIfFull (s : IngestLog) (size : Nat) (env : Env) : Except IngestLogError Unit × IngestLog :=
  if s.current.isNone ∨ s.config.maxSegmentBytes < ((s.currentSegmentBytes + size : Nat) : Int) then
    s.rotateToNewSegment s.nextOffset env.segmentTs env.rotate
  else (.ok (), s)

/-! ## Appending -/

/-- Whether a write is flushed at once: always, except under `never`, where 64 KiB are gathered first. -/
def flushDue (s : IngestLog) : Bool := s.config.fsyncPolicy != .never || 65536 ≤ s.bytesSinceFlush

/-- The flush after a write, where one is due. -/
def flushIfDue (s : IngestLog) (r : IoResult) : Bool × IngestLog :=
  if s.flushDue then
    match s.fileFlush r with
    | (true, s) => (true, { s with bytesSinceFlush := 0 })
    | (false, s) => (false, s)
  else (true, s)

/-- The write of frames and the flush after it, with the counters they move. -/
def writeFrames (s : IngestLog) (d : Bytes) (env : Env) : Bool × IngestLog :=
  match s.fileWrite d env.write with
  | (false, s) => (false, s)
  | (true, s) =>
    let s := { s with
      currentSegmentBytes := s.currentSegmentBytes + d.length
      bytesSinceFlush := s.bytesSinceFlush + d.length }
    s.flushIfDue env.flush

/-- Back to a write position after a failure. A failure to go back poisons the log. -/
def rollback (s : IngestLog) (writePos : Nat) (r : IoResult) : IngestLog :=
  match s.fileTruncate writePos r with
  | (true, s) => { s with currentSegmentBytes := writePos, bytesSinceFlush := 0 }
  | (false, s) => { s with isPoisoned := true }

/-- Whether a single append is synced before it returns, under the policies other than group commit. -/
def appendSyncDue (s : IngestLog) (env : Env) : Bool :=
  match s.config.fsyncPolicy with
  | .always => true
  | .groupedBySize => 64 * 1024 ≤ s.bytesSinceFsync
  | .groupedByTime => elapsed env.policyTs s.lastFsyncTs 0.05
  | .never => false
  | .trueGroupCommit => false

/-- The sync of a single append at `offset`, where the policy asks for one. -/
def appendSync (s : IngestLog) (offset : Nat) (env : Env) : Bool × IngestLog :=
  if s.appendSyncDue env then
    match s.fileFsync env.fsync with
    | (false, s) => (false, s)
    | (true, s) =>
      (true, { s with
        bytesSinceFsync := 0
        syncedOffset := offset
        lastFsyncTs := if s.config.fsyncPolicy = .groupedByTime then env.policyTs else s.lastFsyncTs })
  else (true, s)

/-- What a thread does at the head of the group commit loop: it is done, it raises, it leads a sync, or it waits. -/
inductive GroupTurn where
  | done
  | poisoned
  | lead (target : Int)
  | wait

/-- The head of the group commit loop of `append`. -/
def groupTurn (s : IngestLog) (myOffset : Nat) : GroupTurn :=
  if (myOffset : Int) ≤ s.syncedOffset then .done
  else if s.isPoisoned then .poisoned
  else if s.groupCommitFlushing then .wait
  else .lead s.pendingSyncOffset

/-- The leader takes the lock again after its fsync. -/
def groupSynced (s : IngestLog) (target : Int) (ok : Bool) : IngestLog :=
  if ok then
    { s with groupCommitFlushing := false, syncedOffset := max s.syncedOffset target, bytesSinceFsync := 0 }
  else { s with groupCommitFlushing := false, isPoisoned := true }

/-- The start of `append`, up to the point where the policy decides: the frame of the record is packed, the segment rotated
if it is full, the frame written, and the offset taken. Gives the offset and the position before the write; a failure to
write is rolled back. -/
def appendBegin (s : IngestLog) (raw : RawInput) (env : Env) : Except IngestLogError (Nat × Nat) × IngestLog :=
  if s.isPoisoned then (.error .poisoned, s)
  else
    let payload := recordBytes (appendRecord env.stampTs raw)
    let offset := s.nextOffset
    match packFrameHeader offset env.frameTs payload logVersion with
    | none => (.error .structError, s)
    | some hdr =>
      match s.rotateIfFull (frameHeaderSize + payload.length) env with
      | (.error e, s) => (.error e, s)
      | (.ok (), s) =>
        let writePos := s.currentSegmentBytes
        match s.writeFrames (hdr ++ payload) env with
        | (false, s) => (.error .ioError, s.rollback writePos env.rollback)
        | (true, s) =>
          (.ok (offset, writePos), { s with
            bytesSinceFsync := s.bytesSinceFsync + frameHeaderSize + payload.length
            nextOffset := offset + 1
            pendingSyncOffset := offset })

/-- The failure branch of `append`: the offset is given back if no other was taken since, and the frame rolled back. -/
def appendAbort (s : IngestLog) (offset writePos : Nat) (r : IoResult) : IngestLog :=
  let s := { s with nextOffset := if s.nextOffset = offset + 1 then offset else s.nextOffset }
  s.rollback writePos r

/-- The group commit of `append` with no other thread: the caller leads its own sync, and its frame is the last one
written. A leader that is not there is waited for in vain. -/
def appendGroupCommit (s : IngestLog) (offset writePos : Nat) (env : Env) : Except IngestLogError Nat × IngestLog :=
  match s.groupTurn offset with
  | .done => (.ok offset, s)
  | .poisoned => (.error .poisoned, s.appendAbort offset writePos env.rollback)
  | .wait => (.error .blocked, s)
  | .lead target =>
    match s.fileFsync env.fsync with
    | (true, s) => (.ok offset, s.groupSynced target true)
    | (false, s) => (.error .ioError, (s.groupSynced target false).appendAbort offset writePos env.rollback)

/-- `append`, with no other thread. -/
def append (s : IngestLog) (raw : RawInput) (env : Env) : Except IngestLogError Nat × IngestLog :=
  match s.appendBegin raw env with
  | (.error e, s) => (.error e, s)
  | (.ok (offset, writePos), s) =>
    if s.config.fsyncPolicy = .trueGroupCommit then s.appendGroupCommit offset writePos env
    else
      match s.appendSync offset env with
      | (true, s) => (.ok offset, s)
      | (false, s) => (.error .ioError, s.appendAbort offset writePos env.rollback)

/-- Whether a batch is synced before it returns. -/
def batchSyncDue (s : IngestLog) (env : Env) : Bool :=
  match s.config.fsyncPolicy with
  | .always => true
  | .groupedBySize => 64 * 1024 ≤ s.bytesSinceFsync
  | .groupedByTime => elapsed env.policyTs s.lastFsyncTs 0.05
  | .never => false
  | .trueGroupCommit => true

/-- The sync of a batch whose last offset is `last`, where the policy asks for one. -/
def batchSync (s : IngestLog) (last : Nat) (env : Env) : Bool × IngestLog :=
  if s.batchSyncDue env then
    match s.fileFsync env.fsync with
    | (false, s) => (false, s)
    | (true, s) =>
      (true, { s with
        bytesSinceFsync := 0
        lastFsyncTs := env.policyTs
        syncedOffset := last
        pendingSyncOffset := last })
  else (true, s)

/-- The frames of a batch, from an offset on. -/
def batchFrames (now : UInt64) : Nat → List Bytes → List Frame
  | _, [] => []
  | offset, p :: ps => ⟨offset, now, p⟩ :: batchFrames now (offset + 1) ps

/-- The bytes of a batch; packing one of its headers may fail. -/
def packBatch (frames : List Frame) : Option Bytes :=
  if frames.all (fun f => f.Fits) then some (frames.flatMap Frame.bytes) else none

/-- The last stage of `append_batch`, on the bytes of `count` frames from an offset on: the write, the sync, and the next
offset. A failure goes back to the position before the write. -/
def batchCommit (s : IngestLog) (startOff count : Nat) (buffer : Bytes) (env : Env) :
    Except IngestLogError (List Nat) × IngestLog :=
  let writePos := s.currentSegmentBytes
  match s.writeFrames buffer env with
  | (false, s) => (.error .ioError, s.rollback writePos env.rollback)
  | (true, s) =>
    let s := { s with bytesSinceFsync := s.bytesSinceFsync + buffer.length }
    match s.batchSync (startOff + count - 1) env with
    | (false, s) => (.error .ioError, s.rollback writePos env.rollback)
    | (true, s) => (.ok (List.range' startOff count), { s with nextOffset := startOff + count })

/-- `append_batch`. A failure before the write position is known poisons the log, as does one to roll back. -/
def appendBatch (s : IngestLog) (events : List RawInput) (env : Env) : Except IngestLogError (List Nat) × IngestLog :=
  if events = [] then (.ok [], s)
  else if s.isPoisoned then (.error .poisoned, s)
  else
    let payloads := events.map (fun e => recordBytes (batchRecord env.frameTs e))
    let total := (payloads.map (fun p => frameHeaderSize + p.length)).sum
    let startOff := s.nextOffset
    match s.rotateIfFull total env with
    | (.error e, s) => (.error e, { s with isPoisoned := true })
    | (.ok (), s) =>
      match packBatch (batchFrames env.frameTs startOff payloads) with
      | none => (.error .structError, { s with isPoisoned := true })
      | some buffer => s.batchCommit startOff payloads.length buffer env

/-! ## Flushing and closing -/

/-- `flush`. -/
def flush (s : IngestLog) (flushIo : IoResult) (fsyncIo : Bool) (now : UInt64) : Except IngestLogError Unit × IngestLog :=
  match s.current with
  | none => (.ok (), s)
  | some f =>
    if f.closed then (.ok (), s)
    else
      match s.fileFlush flushIo with
      | (false, s) => (.error .ioError, s)
      | (true, s) =>
        match ({ s with bytesSinceFlush := 0 } : IngestLog).fileFsync fsyncIo with
        | (false, s) => (.error .ioError, s)
        | (true, s) =>
          (.ok (), { s with
            bytesSinceFsync := 0
            lastFsyncTs := now
            syncedOffset := (s.nextOffset : Int) - 1
            pendingSyncOffset := (s.nextOffset : Int) - 1 })

/-- Whether a round of the background flusher syncs. -/
def flusherDue (s : IngestLog) (now : UInt64) : Bool :=
  match s.config.fsyncPolicy with
  | .groupedByTime | .groupedBySize => s.syncedOffset < (s.nextOffset : Int) - 1 && elapsed now s.lastFsyncTs 0.045
  | _ => false

/-- A round of `_flusher_loop`; its errors are passed over. -/
def flusherStep (s : IngestLog) (flushIo : IoResult) (fsyncIo : Bool) (now : UInt64) : IngestLog :=
  if s.flusherDue now then
    match s.fileFlush flushIo with
    | (false, s) => s
    | (true, s) =>
      match s.fileFsync fsyncIo with
      | (false, s) => s
      | (true, s) =>
        { s with
          lastFsyncTs := now
          bytesSinceFsync := 0
          syncedOffset := (s.nextOffset : Int) - 1
          pendingSyncOffset := (s.nextOffset : Int) - 1 }
  else s

/-- `close`: flush and fsync with errors passed over, then no file is open. A file that was closed before stays as it is. -/
def close (s : IngestLog) (flushIo : IoResult) (fsyncIo : Bool) : IngestLog :=
  match s.current with
  | none => s
  | some f =>
    if f.closed then s
    else
      match s.fileFlush flushIo with
      | (false, s) => { s with current := none }
      | (true, s) =>
        match ({ s with bytesSinceFlush := 0 } : IngestLog).fileFsync fsyncIo with
        | (false, s) => { s with current := none }
        | (true, s) =>
          { s with
            syncedOffset := (s.nextOffset : Int) - 1
            pendingSyncOffset := (s.nextOffset : Int) - 1
            current := none }

/-! ## Purging -/

/-- `earliest_offset`. -/
def earliestOffset (s : IngestLog) : Nat :=
  match s.dir.segments.entries with
  | [] => 0
  | (start, _) :: _ => start

/-- The segments `delete_segments_before` removes: those whose successor starts at or before the checkpoint. -/
def obsoleteSegments (checkpoint : Int) : List (Nat × SegFile) → List Nat
  | (start, _) :: (next, f) :: rest =>
    if (next : Int) ≤ checkpoint then start :: obsoleteSegments checkpoint ((next, f) :: rest)
    else obsoleteSegments checkpoint ((next, f) :: rest)
  | _ => []

/-- `delete_segments_before`: the number of files removed, and the log without them and their index files. -/
def deleteSegmentsBefore (s : IngestLog) (checkpoint : Int) : Nat × IngestLog :=
  let gone := obsoleteSegments checkpoint s.dir.segments.entries
  (gone.length, { s with dir :=
    { segments := s.dir.segments.filter (fun e => !gone.contains e.1)
      indexes := s.dir.indexes.filter (fun e => !gone.contains e.1) } })

/-! ## Opening -/

/-- A log with no file open yet. -/
def fresh (cfg : LogConfig) (dir : LogDir) (now : UInt64) : IngestLog where
  config := cfg
  dir := dir
  nextOffset := 0
  syncedOffset := -1
  pendingSyncOffset := -1
  current := none
  currentSegmentStartOffset := 0
  currentSegmentBytes := 0
  bytesSinceFlush := 0
  bytesSinceFsync := 0
  lastFsyncTs := now
  isPoisoned := false
  groupCommitFlushing := false
  corruptedFramesCount := 0

/-- The loop of `_recover_and_open` over the segment files: each is repaired in place, or removed, and the index of a file
that was cut is built again. Gives the directory, the highest offset found and the number of torn frames. -/
def recoverSegments (cfg : LogConfig) :
    List (Nat × SegFile) → LogDir → Int → Nat → Except IngestLogError (LogDir × Int × Nat)
  | [], dir, highest, corrupted => .ok (dir, highest, corrupted)
  | (start, f) :: rest, dir, highest, corrupted =>
    match verifyAndRepairSegment cfg.maxSegmentBytes f with
    | .error e => .error (.corrupt start e)
    | .ok (none, r) =>
      recoverSegments cfg rest { dir with segments := dir.segments.erase start } (max highest r.highestOffset)
        (corrupted + r.corruptedFrames)
    | .ok (some f', r) =>
      let dir := { dir with segments := dir.segments.put start f' }
      let dir :=
        if f'.written.length = f.written.length then dir
        else (buildSparseIndex cfg.interval start { dir with indexes := dir.indexes.erase start }).2
      recoverSegments cfg rest dir (max highest r.highestOffset) (corrupted + r.corruptedFrames)

/-- `_recover_and_open`: the newest segment left becomes the current one, or a new one is started. -/
def recoverAndOpen (cfg : LogConfig) (dir : LogDir) (now segmentTs : UInt64) : Except IngestLogError IngestLog :=
  match recoverSegments cfg dir.segments.entries dir (-1) 0 with
  | .error e => .error e
  | .ok (dir, highest, corrupted) =>
    let s := { fresh cfg dir now with nextOffset := (highest + 1).toNat, corruptedFramesCount := corrupted }
    match dir.segments.entries.getLast? with
    | none =>
      match s.rotateToNewSegment s.nextOffset segmentTs ⟨.ok, true, .ok⟩ with
      | (.ok (), s) => .ok s
      | (.error e, _) => .error e
    | some (start, f) =>
      .ok { s with
        current := some ⟨start, [], false⟩
        currentSegmentStartOffset := start
        currentSegmentBytes := f.written.length }

/-- `IngestLog(log_dir, ...)`. -/
def openLog (cfg : LogConfig) (dir : LogDir) (now segmentTs : UInt64) : Except IngestLogError IngestLog :=
  (recoverAndOpen cfg dir now segmentTs).map (fun s =>
    { s with syncedOffset := (s.nextOffset : Int) - 1, pendingSyncOffset := (s.nextOffset : Int) - 1 })

end IngestLog

end Mdrap
