import Mdrap.Lib.Runs
import Mdrap.Lib.Sort
import Mdrap.Projection.Sqlite
import Mdrap.Engine.Replay

/-!
# The projection tracker

`ProjectionTracker` delivers the batches of any number of threads to one projection in the order of their offsets. A thread puts
its batch into a queue that is kept sorted, and drains the queue: it takes the batches from the front as long as they follow one
another, gives them to the projection as one, and removes as many batches from the front as it has taken. The queue has a lock of
its own, which is not held while the projection is at work; draining has another one, so that only one thread drains.

The tracker's counters, times and states for monitoring are left out. When a thread drains is left open. Batches are numbered in
the order they come in, so that equal ones can be told apart.
-/

namespace Mdrap

open Lib

variable {V : Type}

/-- A batch in the queue. -/
structure PendingBatch (V : Type) where
  ticket : Nat
  offset : Int
  batch : List (BatchItem V)

namespace PendingBatch

/-- Where a batch begins: its smallest log offset; without one, as many places before its end as it has items, or nowhere. -/
def startOffset (b : PendingBatch V) : Int :=
  if b.batch = [] then b.offset
  else
    match (walOffsets b.batch).min? with
    | some n => n
    | none => if 0 ≤ b.offset then b.offset - b.batch.length + 1 else b.offset

/-- Where a batch ends. -/
def endOffset (b : PendingBatch V) : Int := (walOffsets b.batch).max?.getD b.offset

end PendingBatch

/-- `ProjectionTracker`, with what it knows of its projection: whether batches may be put together, and the offset it expects
first, if any. -/
structure ProjectionTracker (V : Type) where
  canCoalesce : Bool
  expectedStartOffset : Option Int
  batchSize : Nat
  maxPending : Nat
  lastContiguousOffset : Int
  failedOffsets : List Int
  pendingBatches : List (PendingBatch V)
  walCatchupNeeded : Bool
  maxEnqueuedWalOffset : Int

namespace ProjectionTracker

/-- A tracker with an empty queue. -/
def new (canCoalesce : Bool) (expectedStartOffset : Option Int) (batchSize maxPending : Nat) (lastContiguousOffset : Int) :
    ProjectionTracker V :=
  ⟨canCoalesce, expectedStartOffset, batchSize, maxPending, lastContiguousOffset, [], [], false, -1⟩

/-- A batch is put at the end of the queue, which is sorted again if the batch does not belong there. A full queue takes
nothing, and leaves it to the log. -/
def push (t : ProjectionTracker V) (b : PendingBatch V) : ProjectionTracker V :=
  if t.maxPending ≤ t.pendingBatches.length then { t with walCatchupNeeded := true }
  else
    match t.pendingBatches.getLast? with
    | none => { t with pendingBatches := t.pendingBatches ++ [b] }
    | some last =>
      if last.offset ≤ b.offset then { t with pendingBatches := t.pendingBatches ++ [b] }
      else { t with pendingBatches := sortBy PendingBatch.offset (t.pendingBatches ++ [b]) }

/-- The highest offset that was handed in. -/
def noteOffset (t : ProjectionTracker V) (offset : Int) : ProjectionTracker V :=
  if 0 ≤ offset then { t with maxEnqueuedWalOffset := max t.maxEnqueuedWalOffset offset } else t

/-- `enqueue`. -/
def enqueue (t : ProjectionTracker V) (b : PendingBatch V) : ProjectionTracker V :=
  if b.batch = [] ∧ b.offset < 0 then t else (t.noteOffset b.offset).push b

/-- `apply`, up to the point where it drains. -/
def submit (t : ProjectionTracker V) (b : PendingBatch V) : ProjectionTracker V :=
  if b.batch = [] then t.noteOffset b.offset else (t.noteOffset b.offset).push b

/-- `checkpoint`: the projection's own, where it has one. -/
def checkpoint (t : ProjectionTracker V) (stored : Option Int) : Int × ProjectionTracker V :=
  match stored with
  | none => (t.lastContiguousOffset, t)
  | some c =>
    if 0 ≤ c then (c, { t with lastContiguousOffset := max t.lastContiguousOffset c }) else (t.lastContiguousOffset, t)

/-- The batches at the front that follow one another, as many as there are until their items fill a batch. -/
def gather (batchSize : Nat) : List (PendingBatch V) → Option Int → Nat → List (PendingBatch V)
  | [], _, _ => []
  | b :: bs, expected, size =>
    if ∃ e ∈ expected, e < b.startOffset then []
    else if batchSize ≤ size + b.batch.length then [b]
    else b :: gather batchSize bs (if 0 ≤ b.endOffset then some (b.endOffset + 1) else expected) (size + b.batch.length)

/-- The batches a drain takes from the front of the queue. None are taken from an empty queue, or when the first batch begins
after the offset that is due. -/
def pick (t : ProjectionTracker V) (stored : Option Int) : List (PendingBatch V) × ProjectionTracker V :=
  match t.pendingBatches with
  | [] => ([], t)
  | b :: bs =>
    let (curCp, t) := if t.lastContiguousOffset < 0 then t.checkpoint stored else (t.lastContiguousOffset, t)
    let expectedNext := if 0 ≤ curCp then some (curCp + 1) else t.expectedStartOffset
    if ∃ e ∈ expectedNext, e < b.startOffset then ([], t)
    else (if t.canCoalesce then gather t.batchSize (b :: bs) expectedNext 0 else [b], t)

/-- What the projection is given for the batches that were taken. -/
def toApply (taken : List (PendingBatch V)) : List (BatchItem V) := taken.flatMap PendingBatch.batch

/-- The offset the projection is given. -/
def lastOff (taken : List (PendingBatch V)) : Int := (taken.getLast?.map PendingBatch.offset).getD (-1)

/-- The projection has taken the batches: as many are removed from the front of the queue. -/
def delivered (t : ProjectionTracker V) (taken : List (PendingBatch V)) : ProjectionTracker V where
  __ := t
  pendingBatches := t.pendingBatches.drop taken.length
  failedOffsets := t.failedOffsets.filter (lastOff taken < ·)
  lastContiguousOffset := if 0 ≤ lastOff taken then max t.lastContiguousOffset (lastOff taken) else t.lastContiguousOffset

/-- The projection has failed. -/
def failed (t : ProjectionTracker V) (taken : List (PendingBatch V)) : ProjectionTracker V :=
  if lastOff taken ∉ t.failedOffsets ∧ 0 ≤ lastOff taken then { t with failedOffsets := t.failedOffsets ++ [lastOff taken] } else t

/-- A drain first catches up from the log, where batches were turned away: it is given the head of the log, what the log holds
from the checkpoint on, and whether the projection takes it. It goes on unless that fails. -/
def catchUp (t : ProjectionTracker V) (stored : Option Int) (head : Int) (walBatch : List (BatchItem V)) (walOff : Int) (ok : Bool) :
    Bool × ProjectionTracker V :=
  if t.walCatchupNeeded then
    let (cp, t) := t.checkpoint stored
    if (if 0 ≤ cp then cp + 1 else 0) < head then
      if walBatch = [] then (ok, t)
      else if ok then
        let t := if 0 ≤ walOff then { t with lastContiguousOffset := max t.lastContiguousOffset walOff } else t
        if t.maxEnqueuedWalOffset ≤ walOff then
          (true, { t with
            walCatchupNeeded := false
            pendingBatches := t.pendingBatches.filter (fun b => walOff < b.offset)
            failedOffsets := t.failedOffsets.filter (walOff < ·) })
        else (true, t)
      else (false, t)
    else (true, t)
  else (true, t)

end ProjectionTracker

/-! ## Threads -/

/-- What the thread that drains is doing: it has the lock for draining, or has taken batches, or the projection has taken them. -/
inductive DrainPhase (V : Type) where
  | idle
  | draining
  | applying (taken : List (PendingBatch V))
  | applied (taken : List (PendingBatch V))

/-- The steps of the threads, each up to the next point where it gives up a lock. -/
inductive TrackerEvent (V : Type) where
  | enqueue (batch : List (BatchItem V)) (offset : Int)
  | submit (batch : List (BatchItem V)) (offset : Int)
  | drain (stored : Option Int) (head : Int) (walBatch : List (BatchItem V)) (walOff : Int) (ok : Bool)
  | pick (stored : Option Int)
  | apply (ok : Bool)
  | remove

/-- A tracker in use: the batches that were handed in, and those of each call that the projection has taken. -/
structure TrackerRun (V : Type) where
  tracker : ProjectionTracker V
  phase : DrainPhase V
  submitted : List (PendingBatch V)
  calls : List (List (PendingBatch V))

namespace TrackerRun

/-- A new tracker. -/
def new (t : ProjectionTracker V) : TrackerRun V := ⟨t, .idle, [], []⟩

/-- The batch as it comes in. -/
def ticket (r : TrackerRun V) (batch : List (BatchItem V)) (offset : Int) : PendingBatch V := ⟨r.submitted.length, offset, batch⟩

/-- One step. Only the thread that has the lock drains. -/
def step (r : TrackerRun V) : TrackerEvent V → TrackerRun V
  | .enqueue batch offset =>
    { r with
      tracker := r.tracker.enqueue (r.ticket batch offset)
      submitted := if batch = [] ∧ offset < 0 then r.submitted else r.submitted ++ [r.ticket batch offset] }
  | .submit batch offset =>
    { r with
      tracker := r.tracker.submit (r.ticket batch offset)
      submitted := if batch = [] then r.submitted else r.submitted ++ [r.ticket batch offset] }
  | .drain stored head walBatch walOff ok =>
    match r.phase with
    | .idle =>
      match r.tracker.catchUp stored head walBatch walOff ok with
      | (true, t) => { r with tracker := t, phase := .draining }
      | (false, t) => { r with tracker := t }
    | _ => r
  | .pick stored =>
    match r.phase with
    | .draining =>
      match r.tracker.pick stored with
      | ([], t) => { r with tracker := t, phase := .idle }
      | (taken, t) => { r with tracker := t, phase := .applying taken }
    | _ => r
  | .apply ok =>
    match r.phase with
    | .applying taken =>
      if ok then { r with phase := .applied taken, calls := r.calls ++ [taken] }
      else { r with tracker := r.tracker.failed taken, phase := .idle }
    | _ => r
  | .remove =>
    match r.phase with
    | .applied taken => { r with tracker := r.tracker.delivered taken, phase := .draining }
    | _ => r

/-- Every batch that was handed in is in the queue, or was among those of a call that the projection has taken. -/
def NothingLost (r : TrackerRun V) : Prop := ∀ b ∈ r.submitted, b ∈ r.tracker.pendingBatches ∨ ∃ call ∈ r.calls, b ∈ call

/-- The batches that a drain has taken and not yet removed. -/
def taken (r : TrackerRun V) : List (PendingBatch V) :=
  match r.phase with
  | .idle | .draining => []
  | .applying taken | .applied taken => taken

/-- The queue has room for a batch that comes in. -/
def HasRoom (r : TrackerRun V) : TrackerEvent V → Prop
  | .enqueue _ _ | .submit _ _ => r.tracker.pendingBatches.length < r.tracker.maxPending
  | .drain _ _ _ _ _ | .pick _ | .apply _ | .remove => True

instance (r : TrackerRun V) (e : TrackerEvent V) : Decidable (r.HasRoom e) :=
  match e with
  | .enqueue _ _ | .submit _ _ => inferInstanceAs (Decidable (_ < _))
  | .drain _ _ _ _ _ | .pick _ | .apply _ | .remove => isTrue trivial

/-- A batch that comes in while a drain is at work does not belong before a batch the drain has taken. -/
def ComesBehind (r : TrackerRun V) : TrackerEvent V → Prop
  | .enqueue _ offset | .submit _ offset => ∀ b ∈ r.taken, b.offset ≤ offset
  | .drain _ _ _ _ _ | .pick _ | .apply _ | .remove => True

instance (r : TrackerRun V) (e : TrackerEvent V) : Decidable (r.ComesBehind e) :=
  match e with
  | .enqueue _ _ | .submit _ _ => inferInstanceAs (Decidable (∀ b ∈ r.taken, _))
  | .drain _ _ _ _ _ | .pick _ | .apply _ | .remove => isTrue trivial

end TrackerRun

end Mdrap

/-!
## An engine with a projection

An engine with a log serves one SQLite projection: each call of `submit` hands its decisions to the projection's tracker, with the
offset of the last event of the call, and the tracker drains its queue before the call returns. The statements of the projection do
not fail. When a call takes a snapshot, what the snapshot lets the log delete is left open.
-/

namespace Mdrap

open Lib

variable {V : Type}

/-- An engine, the tracker of its projection, the projection, and the decisions that were returned so far. -/
structure Served (V : Type) where
  engine : Engine V
  tracker : ProjectionTracker V
  projection : SqliteProjection V
  returned : List (EngineDecision V)

/-- A call of `submit`: the events, what the outside does, the time at which a catch-up reads the log, and the offset before which
a snapshot lets the log delete segments, where it does. -/
structure ServedCall where
  events : List Incoming
  env : SubmitEnv
  readAt : UInt64
  pruneBefore : Option Int

namespace Served

/-- `_get_or_create_projection_tracker`, for a SQLite projection. -/
def trackerFor (p : SqliteProjection V) : ProjectionTracker V :=
  .new true (some p.expectedStartOffset) 1000 50000 (if 0 ≤ p.checkpoint then p.checkpoint else -1)

/-- An engine with a projection that is subscribed to it at the start, on a database with nothing in it. -/
def new (e : Engine V) (expectedStartOffset : Nat) : Served V :=
  let p := SqliteProjection.openOn Database.empty expectedStartOffset
  ⟨e, trackerFor p, p, []⟩

/-- A call of the projection's `apply` whose statements do not fail: whether it returns. -/
def applyTo (P : Py V) (p : SqliteProjection V) (batch : List (BatchItem V)) (offset : Int) : Bool × SqliteProjection V :=
  match p.apply P batch offset [fun _ => none] with
  | (some (.raised _), p) => (false, p)
  | (some .committed, p) => (true, p)
  | (none, p) => (true, p)

/-- The loop of `_drain_batches`. -/
def drainLoop (P : Py V) : Nat → ProjectionTracker V → SqliteProjection V → ProjectionTracker V × SqliteProjection V
  | 0, t, p => (t, p)
  | n + 1, t, p =>
    match t.pick (some p.checkpoint) with
    | ([], t) => (t, p)
    | (taken, t) =>
      match applyTo P p (ProjectionTracker.toApply taken) (ProjectionTracker.lastOff taken) with
      | (true, p) => drainLoop P n (t.delivered taken) p
      | (false, p) => (t.failed taken, p)

/-- A drain catches up from the log, where batches were turned away. -/
def catchUp (s : Served V) (readAt : UInt64) : Bool × Served V :=
  let (cp, tracker) := s.tracker.checkpoint (some s.projection.checkpoint)
  let neededFrom := if 0 ≤ cp then cp + 1 else 0
  let head : Int := (s.engine.log.map IngestLog.nextOffset).getD 0
  if s.tracker.walCatchupNeeded ∧ neededFrom < head then
    match s.engine.replayProjectionBatch neededFrom 1000 readAt with
    | (.error _, e) => (false, { s with engine := e, tracker := tracker })
    | (.ok (ds, walOff), e) =>
      let batch := ds.map BatchItem.decision
      let (ok, p) := if batch = [] then (true, s.projection) else applyTo e.config.py s.projection batch walOff
      let (goOn, t) := s.tracker.catchUp (some s.projection.checkpoint) head batch walOff ok
      (goOn, { s with engine := e, tracker := t, projection := p })
  else
    let (goOn, t) := s.tracker.catchUp (some s.projection.checkpoint) head [] 0 true
    (goOn, { s with tracker := t })

/-- `_drain_batches`. Every turn of the loop takes a batch from the queue. -/
def drain (s : Served V) (readAt : UInt64) : Served V :=
  match s.catchUp readAt with
  | (false, s) => s
  | (true, s) =>
    let (t, p) := drainLoop s.engine.config.py (s.tracker.pendingBatches.length + 1) s.tracker s.projection
    { s with tracker := t, projection := p }

/-- `tracker.apply`, where it is given a batch. -/
def dispatch (s : Served V) (ds : List (EngineDecision V)) (offset : Int) (readAt : UInt64) : Served V :=
  { s with tracker := s.tracker.submit ⟨0, offset, ds.map .decision⟩ }.drain readAt

/-- A snapshot lets the log delete segments. -/
def prune (s : Served V) (before : Option Int) : Served V :=
  match before with
  | some offset => { s with engine := { s.engine with log := s.engine.log.map (fun log => (log.deleteSegmentsBefore offset).2) } }
  | none => s

/-- `submit`: the decisions, where the log does not fail. -/
def submit (s : Served V) (call : ServedCall) : Served V :=
  match s.engine.submit call.events call.env with
  | (.error _, e) => { s with engine := e }
  | (.ok r, e) =>
    let s := { s with engine := e, returned := s.returned ++ r.decisions }
    let s := if r.decisions = [] then s else s.dispatch r.decisions r.dispatchOffset call.readAt
    if r.snapshotDue then s.prune call.pruneBefore else s

/-- The next offset of the log. -/
def nextOffset (s : Served V) : Nat := (s.engine.log.map IngestLog.nextOffset).getD 0

end Served

/-- The canonical or the quarantine row of a decision is in the database. -/
def Database.HasRow (P : Py V) (db : Database V) (d : EngineDecision V) : Prop :=
  (∃ r ∈ (BatchItem.decision d).canonicalRows P, r ∈ db.canonical) ∨ ∃ r ∈ (BatchItem.decision d).quarantineRows P, r ∈ db.quarantine

namespace Served

/-- The projection is up to date: its checkpoint is the last offset of the log, and the row of every decision is in its tables. -/
def UpToDate (s : Served V) : Prop :=
  s.projection.checkpoint = (s.nextOffset : Int) - 1 ∧ ∀ d ∈ s.returned, s.projection.db.HasRow s.engine.config.py d

/-- A call that appends a record leaves the projection up to date. -/
def KeepsUp (s : Served V) (call : ServedCall) : Prop :=
  s.nextOffset < (s.submit call).nextOffset → (s.submit call).UpToDate

end Served

end Mdrap
