import Mdrap.IngestLog.Layout

/-!
# Runs of appending calls, and crashes

A run is a list of calls on a log. What a call acknowledges is kept with its place: the segment the record was written to and
the position its frame ends at, as the counters of the log give them when the call returns. A crash leaves the directory with
the newest segment file cut.
-/

namespace Mdrap

open Lib

/-- A call that appends. -/
inductive Call where
  | append (raw : RawInput) (env : Env)
  | appendBatch (raws : List RawInput) (env : Env)

namespace Call

/-- What the outside does during the call. -/
def env : Call → Env
  | .append _ env => env
  | .appendBatch _ env => env

/-- The records the call logs if it succeeds. -/
def entries : Call → List LogEntry
  | .append raw env => [⟨env.frameTs, appendRecord env.stampTs raw⟩]
  | .appendBatch raws env => raws.map (fun raw => ⟨env.frameTs, batchRecord env.frameTs raw⟩)

/-- The call on a log: the records it acknowledges, in their places, and the log it leaves. -/
def run (call : Call) (s : IngestLog) : List Item × IngestLog :=
  match call with
  | .append raw env =>
    match s.append raw env with
    | (.error _, t) => ([], t)
    | (.ok offset, t) =>
      (itemsFrom t.currentSegmentStartOffset offset
        (t.currentSegmentBytes - ((Call.append raw env).entries.map LogEntry.size).sum) (Call.append raw env).entries, t)
  | .appendBatch raws env =>
    match s.appendBatch raws env with
    | (.error _, t) => ([], t)
    | (.ok [], t) => ([], t)
    | (.ok (offset :: _), t) =>
      (itemsFrom t.currentSegmentStartOffset offset
        (t.currentSegmentBytes - ((Call.appendBatch raws env).entries.map LogEntry.size).sum)
        (Call.appendBatch raws env).entries, t)

end Call

/-- A list of calls, one after the other: all that they acknowledge, and the log they leave. -/
def runCalls : List Call → IngestLog → List Item × IngestLog
  | [], s => ([], s)
  | call :: calls, s =>
    let (acks, s) := call.run s
    let (more, s) := runCalls calls s
    (acks ++ more, s)

namespace IngestLog

/-- The start offset in the name of the newest segment file. -/
def newestSegment (s : IngestLog) : Nat :=
  match s.dir.segments.entries.getLast? with
  | some (start, _) => start
  | none => 0

/-- The bytes of the newest segment file, with what is still in the buffer. -/
def newestBytes (s : IngestLog) : Bytes :=
  match s.dir.segments.entries.getLast? with
  | some (start, f) => f.written ++ s.pending start
  | none => []

/-- The directory after a crash: other bytes stand in the newest segment file. -/
def crashTo (s : IngestLog) (b : Bytes) : LogDir :=
  match s.dir.segments.entries.getLast? with
  | none => s.dir
  | some (start, f) => { s.dir with segments := s.dir.segments.put start ⟨b, min f.durable b.length⟩ }

/-- A crash that cuts the newest segment file: its first bytes are left. -/
def crash (s : IngestLog) (c : Nat) : LogDir := s.crashTo (s.newestBytes.take c)

/-- A crash that leaves zeros behind the first bytes. -/
def crashZeros (s : IngestLog) (c z : Nat) : LogDir := s.crashTo (s.newestBytes.take c ++ zeros z)

/-- The record lies wholly before the cut of a crash. -/
def survives (s : IngestLog) (c : Nat) (i : Item) : Bool := i.segment ≠ s.newestSegment ∨ i.endPos ≤ c

/-- Where the last of some records in the newest segment file ends that lie wholly before a cut. -/
def wholeEnd (s : IngestLog) (acks : List Item) (c : Nat) : Nat :=
  ((acks.filter (fun i => i.segment = s.newestSegment ∧ i.endPos ≤ c)).getLast?.map Item.endPos).getD segmentHeaderSize

end IngestLog

end Mdrap

/-!
## The lifetime of a log directory

A directory outlives the processes that write to it. A process opens it, appends, purges old segments, closes the log or crashes,
and the next one opens what is left. The world keeps, beside the log or the directory, the acknowledged records that no crash has
cut off; purging does not take a record off this list.
-/

namespace Mdrap

open Lib

/-- Either a process has the log, or only the directory is there. -/
inductive LogState where
  | running (s : IngestLog)
  | down (dir : LogDir)

/-- The log or its directory, and the acknowledged records that survived. -/
structure World where
  log : LogState
  acked : List Item

/-- A directory nobody has written to. -/
def World.initial : World := ⟨.down LogDir.empty, []⟩

/-- What can happen to a log. -/
inductive Event where
  | call (call : Call)
  | purge (checkpoint : Int)
  | close (fsyncIo : Bool)
  | crash (c : Nat)
  | reopen (now ts : UInt64)

/-- The offset in the name of the newest segment file; zero where there is none. -/
def LogDir.newestOffset (dir : LogDir) : Nat :=
  match dir.segments.entries.getLast? with
  | some (start, _) => start
  | none => 0

/-- The directory as the next process finds it: there is one when no process has a file of it open. -/
def LogState.dir? : LogState → Option LogDir
  | .running s => if s.current.isNone then some s.dir else none
  | .down dir => some dir

namespace Event

/-- One event. A directory that cannot be opened stays as it is. -/
def step (cfg : LogConfig) (e : Event) (w : World) : World :=
  match e, w.log with
  | .call c, .running s => ⟨.running (c.run s).2, w.acked ++ (c.run s).1⟩
  | .purge checkpoint, .running s => ⟨.running (s.deleteSegmentsBefore checkpoint).2, w.acked⟩
  | .close fsyncIo, .running s => ⟨.running (s.close .ok fsyncIo), w.acked⟩
  | .crash c, .running s => ⟨.down (s.crash c), w.acked.filter (s.survives c)⟩
  | .reopen now ts, log =>
    match log.dir? with
    | none => w
    | some dir =>
      match IngestLog.openLog cfg dir now ts with
      | .error _ => w
      | .ok s => ⟨.running s, w.acked⟩
  | _, .down _ => w

/-- The offsets returned by a call follow each other and are greater than those of all records that survived; the next offset of
a log that is opened is not below the offset in the name of the newest segment file, before and after. -/
def Fresh (cfg : LogConfig) (e : Event) (w : World) : Prop :=
  match e, w.log with
  | .call c, .running s =>
    (∀ i ∈ (c.run s).1, ∀ j ∈ w.acked, j.offset < i.offset) ∧ ((c.run s).1.map Item.offset).Pairwise (· < ·)
  | .reopen now ts, log =>
    ∀ dir ∈ log.dir?, ∀ s ∈ (IngestLog.openLog cfg dir now ts).toOption,
      dir.newestOffset ≤ s.nextOffset ∧ s.newestSegment ≤ s.nextOffset
  | _, _ => True

instance (cfg : LogConfig) (e : Event) (w : World) : Decidable (e.Fresh cfg w) :=
  match e, w with
  | .call _, ⟨.running _, _⟩ => inferInstanceAs (Decidable (_ ∧ _))
  | .reopen now ts, ⟨log, _⟩ =>
    inferInstanceAs (Decidable (∀ dir ∈ log.dir?, ∀ s ∈ (IngestLog.openLog cfg dir now ts).toOption, _ ∧ _))
  | .call _, ⟨.down _, _⟩ | .purge _, _ | .close _, _ | .crash _, _ => isTrue trivial

end Event

/-- No event of a run reuses an offset. -/
def World.FreshRun (cfg : LogConfig) : List Event → World → Prop
  | [], _ => True
  | e :: es, w => e.Fresh cfg w ∧ World.FreshRun cfg es (e.step cfg w)

instance World.decidableFreshRun (cfg : LogConfig) : (es : List Event) → (w : World) → Decidable (World.FreshRun cfg es w)
  | [], _ => isTrue trivial
  | e :: es, w =>
    have := World.decidableFreshRun cfg es (e.step cfg w)
    inferInstanceAs (Decidable (_ ∧ _))

end Mdrap
