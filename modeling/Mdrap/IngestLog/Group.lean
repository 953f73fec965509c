import Mdrap.IngestLog.Run

/-!
# Frames in their places

A record that was written has a place: a segment and the position its frame ends at. Whatever fails later, the frame is intact as
long as its bytes stand there, and durable when they stand in the durable part of the file.

Beside the calls that append, a run may flush the log, and the background flusher may have its rounds.
-/

namespace Mdrap

open Lib

namespace Item

/-- The frame of a record. -/
def frame (i : Item) : Frame := i.entry.frame i.offset

/-- The bytes of a file have the frame in its place. -/
def StandsIn (i : Item) (b : Bytes) : Prop := EndsAt i.frame.bytes i.endPos b

instance (i : Item) (b : Bytes) : Decidable (i.StandsIn b) := inferInstanceAs (Decidable (EndsAt _ _ _))

/-- The frame is in its segment file, or in the buffer for it. -/
def Intact (i : Item) (s : IngestLog) : Prop :=
  ∃ file ∈ s.dir.segments.get? i.segment, i.StandsIn (file.written ++ s.pending i.segment)

instance (i : Item) (s : IngestLog) : Decidable (i.Intact s) := inferInstanceAs (Decidable (∃ file ∈ _, _))

/-- The frame is in its segment file. -/
def InFile (i : Item) (s : IngestLog) : Prop := ∃ file ∈ s.dir.segments.get? i.segment, i.StandsIn file.written

instance (i : Item) (s : IngestLog) : Decidable (i.InFile s) := inferInstanceAs (Decidable (∃ file ∈ _, _))

/-- The frame is in the durable part of its segment file. -/
def Durable (i : Item) (s : IngestLog) : Prop :=
  ∃ file ∈ s.dir.segments.get? i.segment, i.StandsIn (file.written.take file.durable)

instance (i : Item) (s : IngestLog) : Decidable (i.Durable s) := inferInstanceAs (Decidable (∃ file ∈ _, _))

end Item

/-- What one thread does with a log. -/
inductive LogOp where
  | call (call : Call)
  | flush (flushIo : IoResult) (fsyncIo : Bool) (now : UInt64)
  | flusher (flushIo : IoResult) (fsyncIo : Bool) (now : UInt64)

/-- The operation on a log: the records it acknowledges, and the log it leaves. -/
def LogOp.run (op : LogOp) (s : IngestLog) : List Item × IngestLog :=
  match op with
  | .call c => c.run s
  | .flush flushIo fsyncIo now => ([], (s.flush flushIo fsyncIo now).2)
  | .flusher flushIo fsyncIo now => ([], s.flusherStep flushIo fsyncIo now)

/-- Operations one after the other: all that they acknowledge, and the log they leave. -/
def runOps : List LogOp → IngestLog → List Item × IngestLog
  | [], s => ([], s)
  | op :: ops, s => ((op.run s).1 ++ (runOps ops (op.run s).2).1, (runOps ops (op.run s).2).2)

namespace IngestLog

/-- Nothing of the open file would be lost with the power. -/
def AllDurable (s : IngestLog) : Prop :=
  ∀ f ∈ s.current, f.buffer = [] ∧ ∀ file ∈ s.dir.segments.get? f.start, file.written.length ≤ file.durable

instance (s : IngestLog) : Decidable s.AllDurable := inferInstanceAs (Decidable (∀ f ∈ s.current, _ ∧ _))

/-- A rotation for more bytes, where one is due, syncs the old segment, unless all of it is durable already. -/
def SealsDurably (s : IngestLog) (size : Nat) (env : Env) : Prop :=
  s.isPoisoned = false → s.config.maxSegmentBytes < ((s.currentSegmentBytes + size : Nat) : Int) → env.rotate.create = .ok →
    (env.rotate.flush = .ok ∧ env.rotate.fsync = true) ∨ s.AllDurable

instance (s : IngestLog) (size : Nat) (env : Env) : Decidable (s.SealsDurably size env) :=
  inferInstanceAs (Decidable (_ → _ → _ → _))

end IngestLog

/-- The rotation of a call, where it makes one, syncs the old segment. -/
def LogOp.SealsDurably (op : LogOp) (s : IngestLog) : Prop :=
  match op with
  | .call c => s.SealsDurably (c.entries.map LogEntry.size).sum c.env
  | .flush _ _ _ | .flusher _ _ _ => True

instance (op : LogOp) (s : IngestLog) : Decidable (op.SealsDurably s) :=
  match op with
  | .call c => inferInstanceAs (Decidable (s.SealsDurably (c.entries.map LogEntry.size).sum c.env))
  | .flush _ _ _ | .flusher _ _ _ => isTrue trivial

/-- Every rotation of a run syncs the old segment. -/
def SealsRun : List LogOp → IngestLog → Prop
  | [], _ => True
  | op :: ops, s => op.SealsDurably s ∧ SealsRun ops (op.run s).2

instance decidableSealsRun : (ops : List LogOp) → (s : IngestLog) → Decidable (SealsRun ops s)
  | [], _ => isTrue trivial
  | op :: ops, s =>
    have := decidableSealsRun ops (op.run s).2
    inferInstanceAs (Decidable (_ ∧ _))

end Mdrap

/-!
## Threads under group commit

Under `true_group_commit` a thread that has written its frame gives up the lock twice: the leader around its fsync, and the others
while they wait for it. Between these points a call runs alone. A thread in between is an append in flight; any number of
threads may have one, and any of them may go on next. A thread that waits may be woken at any time.

An append that fails after it had given up the lock goes back to the position its frame was written at, in whatever file is then
the current one.
-/

namespace Mdrap

open Lib

/-- What a thread in the middle of `append` does without the lock: it runs the fsync it leads, of a segment and up to an offset,
or it waits. -/
inductive Role where
  | leading (target : Int) (segment : Nat)
  | waiting
  deriving DecidableEq

/-- An append in flight: the record in its place, and the position before the write. -/
structure InFlight where
  item : Item
  writePos : Nat
  role : Role

/-- The offset a leader syncs up to. -/
def InFlight.target (p : InFlight) : Int :=
  match p.role with
  | .leading target _ => target
  | .waiting => -1

/-- The log, the appends in flight, and the records that were acknowledged. -/
structure Group where
  log : IngestLog
  inFlight : List InFlight
  acked : List Item

namespace Group

/-- The records acknowledged, and those whose calls have not returned. -/
def live (g : Group) : List Item := g.acked ++ g.inFlight.map InFlight.item

/-- The head of the group commit loop, for an append that holds the lock. -/
def turn (g : Group) (p : InFlight) (rollback : IoResult) : Group :=
  match g.log.groupTurn p.item.offset with
  | .done => { g with acked := g.acked ++ [p.item] }
  | .poisoned => { g with log := g.log.appendAbort p.item.offset p.writePos rollback }
  | .wait => { g with inFlight := { p with role := .waiting } :: g.inFlight }
  | .lead target =>
    let log := { g.log with groupCommitFlushing := true }
    match log.current with
    | none => { g with log := log.appendAbort p.item.offset p.writePos rollback }
    | some f =>
      if f.closed then { g with log := log.appendAbort p.item.offset p.writePos rollback }
      else { g with log := log, inFlight := { p with role := .leading target f.start } :: g.inFlight }

/-- The fsync of a leader. A file that a rotation has closed is no longer touched. -/
def leaderFsync (log : IngestLog) (segment : Nat) (ok : Bool) : IngestLog :=
  if log.currentSegmentStartOffset = segment then (log.fileFsync ok).2 else log

end Group

/-- What a thread does while it has the lock. -/
inductive GroupStep where
  | append (raw : RawInput) (env : Env)
  | appendBatch (raws : List RawInput) (env : Env)
  | flush (flushIo : IoResult) (fsyncIo : Bool) (now : UInt64)
  | synced (n : Nat) (ok : Bool) (rollback : IoResult)
  | woken (n : Nat) (rollback : IoResult)

namespace GroupStep

/-- One step. The threads in flight are named by their place in the list. -/
def run (step : GroupStep) (g : Group) : Group :=
  match step with
  | .append raw env =>
    match g.log.appendBegin raw env with
    | (.error _, log) => { g with log := log }
    | (.ok (offset, writePos), log) =>
      { g with log := log }.turn
        ⟨⟨offset, ⟨env.frameTs, appendRecord env.stampTs raw⟩, log.currentSegmentStartOffset, log.currentSegmentBytes⟩, writePos,
          .waiting⟩ env.rollback
  | .appendBatch raws env =>
    { g with log := ((Call.appendBatch raws env).run g.log).2, acked := g.acked ++ ((Call.appendBatch raws env).run g.log).1 }
  | .flush flushIo fsyncIo now => { g with log := (g.log.flush flushIo fsyncIo now).2 }
  | .synced n ok rollback =>
    match g.inFlight[n]? with
    | none => g
    | some p =>
      match p.role with
      | .waiting => g
      | .leading target segment =>
        let log := (Group.leaderFsync g.log segment ok).groupSynced target ok
        let g := { g with log := log, inFlight := g.inFlight.eraseIdx n }
        if ok then g.turn p rollback else { g with log := log.appendAbort p.item.offset p.writePos rollback }
  | .woken n rollback =>
    match g.inFlight[n]? with
    | none => g
    | some p =>
      match p.role with
      | .leading _ _ => g
      | .waiting => { g with inFlight := g.inFlight.eraseIdx n }.turn p rollback

end GroupStep

/-- The file an append in flight would be rolled back in: it is its own and nothing was written behind the frame, or it is not
as long as the position. -/
def InFlight.RollsBackAlone (p : InFlight) (s : IngestLog) : Prop :=
  (s.currentSegmentStartOffset = p.item.segment ∧ s.currentSegmentBytes = p.item.endPos) ∨ s.currentSegmentBytes ≤ p.writePos

instance (p : InFlight) (s : IngestLog) : Decidable (p.RollsBackAlone s) := inferInstanceAs (Decidable (_ ∨ _))

/-- An append that fails after it had given up the lock rolls back alone: a leader whose fsync fails, or an append that is not
yet synced and finds the log poisoned. -/
def GroupStep.RollsBackAlone (step : GroupStep) (g : Group) : Prop :=
  match step with
  | .synced n ok _ => ∀ p ∈ g.inFlight[n]?,
    (ok = false ∨ g.log.isPoisoned = true ∧ max g.log.syncedOffset p.target < p.item.offset) → p.RollsBackAlone g.log
  | .woken n _ => ∀ p ∈ g.inFlight[n]?, g.log.isPoisoned = true → g.log.syncedOffset < p.item.offset → p.RollsBackAlone g.log
  | .append _ _ | .appendBatch _ _ | .flush _ _ _ => True

instance (step : GroupStep) (g : Group) : Decidable (step.RollsBackAlone g) :=
  match step with
  | .synced n ok _ =>
    inferInstanceAs (Decidable (∀ p ∈ g.inFlight[n]?,
      (ok = false ∨ g.log.isPoisoned = true ∧ max g.log.syncedOffset p.target < p.item.offset) → p.RollsBackAlone g.log))
  | .woken n _ => inferInstanceAs (Decidable
      (∀ p ∈ g.inFlight[n]?, g.log.isPoisoned = true → g.log.syncedOffset < p.item.offset → p.RollsBackAlone g.log))
  | .append _ _ | .appendBatch _ _ | .flush _ _ _ => isTrue trivial

/-- Steps one after the other. -/
def runSteps : List GroupStep → Group → Group
  | [], g => g
  | step :: steps, g => runSteps steps (step.run g)

/-- Every failure of a run after the lock was given up rolls back alone. -/
def RollBackAlone : List GroupStep → Group → Prop
  | [], _ => True
  | step :: steps, g => step.RollsBackAlone g ∧ RollBackAlone steps (step.run g)

instance decidableRollBackAlone : (steps : List GroupStep) → (g : Group) → Decidable (RollBackAlone steps g)
  | [], _ => isTrue trivial
  | step :: steps, g =>
    have := decidableRollBackAlone steps (step.run g)
    inferInstanceAs (Decidable (_ ∧ _))

end Mdrap
