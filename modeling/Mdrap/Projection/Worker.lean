import Mdrap.Projection.Sqlite

/-!
# The projection worker

`AsyncProjectionWorker` puts a queue between the engine and a projection. `enqueue` never waits: where the queue is full it drops
the item and says so. The worker's thread takes items from the queue one by one, and writes what it has gathered when the batch is
full or it is time, in at most `max_retries` attempts; then it starts a new batch, written or not.

The thread works on the queue and on the projection at different times, so a run is an interleaving of the calls of `enqueue`, the
turns of the loop up to the decision to write, and the single attempts. The items come with the offsets from zero on. Beside
the worker a run keeps the items the queue has taken and the batches that were committed.
-/

namespace Mdrap

open Lib

variable {V : Type}

/-- An item in the queue, with its offset. A decision has that offset itself. -/
structure Queued (V : Type) where
  item : BatchItem V
  offset : Nat
  agrees : ∀ n ∈ item.offset?, n = offset

/-- An item of the record at an offset. -/
def BatchItem.queued (n : Nat) : BatchItem V → Queued V
  | .decision d => ⟨.decision { d with offset := n }, n, by simp [BatchItem.offset?]⟩
  | .canonical e => ⟨.canonical e, n, by simp [BatchItem.offset?]⟩
  | .row r => ⟨.row r, n, by simp [BatchItem.offset?]⟩
  | .other => ⟨.other, n, by simp [BatchItem.offset?]⟩

/-- `AsyncProjectionWorker`, with the variables of its loop: the attempts still left for the batch, while it is written. -/
structure AsyncProjectionWorker (V : Type) where
  projection : SqliteProjection V
  maxQueueSize : Int
  batchSize : Int
  maxRetries : Nat
  queue : List (Queued V)
  batch : List (Queued V)
  highestOffset : Int
  attemptsLeft : Nat

namespace AsyncProjectionWorker

/-- A worker over a projection. -/
def new (projection : SqliteProjection V) (maxQueueSize batchSize : Int) (maxRetries : Nat) : AsyncProjectionWorker V :=
  ⟨projection, maxQueueSize, batchSize, maxRetries, [], [], -1, 0⟩

/-- `enqueue`: a queue whose size is not positive takes everything. -/
def enqueue (w : AsyncProjectionWorker V) (q : Queued V) : Bool × AsyncProjectionWorker V :=
  if 0 < w.maxQueueSize ∧ w.maxQueueSize ≤ w.queue.length then (false, w) else (true, { w with queue := w.queue ++ [q] })

/-- The loop takes an item, if there is one. -/
def pull (w : AsyncProjectionWorker V) : AsyncProjectionWorker V :=
  match w.queue with
  | [] => w
  | q :: queue =>
    { w with
      queue := queue
      batch := w.batch ++ [q]
      highestOffset := if w.highestOffset < q.offset then q.offset else w.highestOffset }

/-- The loop up to its decision: it takes an item and writes the batch if that is due. With no attempts to make, the batch is
dropped at once. -/
def turn (w : AsyncProjectionWorker V) (due : Bool) : AsyncProjectionWorker V :=
  let w := w.pull
  if w.batch ≠ [] ∧ (due ∨ w.batchSize ≤ w.batch.length) then
    if w.maxRetries = 0 then { w with batch := [] } else { w with attemptsLeft := w.maxRetries }
  else w

/-- What the projection is given. -/
def items (w : AsyncProjectionWorker V) : List (BatchItem V) := w.batch.map Queued.item

/-- An attempt to write the batch. The last one that fails drops it. -/
def attempt (P : Py V) (w : AsyncProjectionWorker V) (fault : Stmt → Option SqlFault) : Bool × AsyncProjectionWorker V :=
  match w.projection.apply P w.items w.highestOffset [fault] with
  | (some (.raised _), p) =>
    (false, if w.attemptsLeft = 1 then { w with projection := p, batch := [], attemptsLeft := 0 }
      else { w with projection := p, attemptsLeft := w.attemptsLeft - 1 })
  | (_, p) => (true, { w with projection := p, batch := [], attemptsLeft := 0 })

/-- `checkpoint`. -/
def checkpoint (w : AsyncProjectionWorker V) : Int := w.projection.checkpoint

end AsyncProjectionWorker

/-- The steps of the threads. -/
inductive WorkerEvent (V : Type) where
  | enqueue (item : BatchItem V)
  | turn (due : Bool)
  | attempt (fault : Stmt → Option SqlFault)

/-- A worker, the offset of the next item, the items the queue has taken and the batches that were committed. -/
structure WorkerRun (V : Type) where
  worker : AsyncProjectionWorker V
  nextOffset : Nat
  taken : List (Queued V)
  committed : List (List (Queued V))

namespace WorkerRun

/-- One step. The loop does not turn while it writes, and writes only when it has decided to. -/
def step (P : Py V) (r : WorkerRun V) : WorkerEvent V → WorkerRun V
  | .enqueue item =>
    match r.worker.enqueue (item.queued r.nextOffset) with
    | (true, w) => { r with worker := w, nextOffset := r.nextOffset + 1, taken := r.taken ++ [item.queued r.nextOffset] }
    | (false, w) => { r with worker := w, nextOffset := r.nextOffset + 1 }
  | .turn due => if r.worker.attemptsLeft = 0 then { r with worker := r.worker.turn due } else r
  | .attempt fault =>
    if r.worker.attemptsLeft = 0 then r
    else
      match r.worker.attempt P fault with
      | (true, w) => { r with worker := w, committed := r.committed ++ [r.worker.batch] }
      | (false, w) => { r with worker := w }

/-- A new worker over a projection on a new database. -/
def new (expectedStartOffset maxQueueSize batchSize : Int) (maxRetries : Nat) : WorkerRun V :=
  ⟨.new (.openOn .empty expectedStartOffset) maxQueueSize batchSize maxRetries, 0, [], []⟩

/-- Every offset up to the checkpoint is of an item that the queue has taken and that is in a committed batch. -/
def Delivered (r : WorkerRun V) : Prop :=
  ∀ n : Nat, n ≤ r.worker.checkpoint → ∃ q ∈ r.taken, q.offset = n ∧ ∃ b ∈ r.committed, q ∈ b

/-- No offset between the first and the last one of a batch is missing. -/
def NoHole (batch : List (Queued V)) : Prop :=
  batch.map Queued.offset = List.range' ((batch.map Queued.offset).headD 0) batch.length

instance (batch : List (Queued V)) : Decidable (NoHole batch) := inferInstanceAs (Decidable (_ = _))

/-- A batch that is let through has no hole, and follows the stored checkpoint. -/
def FollowsStored (r : WorkerRun V) : WorkerEvent V → Prop
  | .attempt _ => r.worker.projection.Admits r.worker.items r.worker.highestOffset →
    NoHole r.worker.batch ∧ ((r.worker.batch.map Queued.offset).headD 0 : Int) ≤ r.worker.checkpoint + 1
  | .enqueue _ | .turn _ => True

instance (r : WorkerRun V) (e : WorkerEvent V) : Decidable (r.FollowsStored e) :=
  match e with
  | .attempt _ => inferInstanceAs (Decidable (r.worker.projection.Admits r.worker.items r.worker.highestOffset →
    NoHole r.worker.batch ∧ ((r.worker.batch.map Queued.offset).headD 0 : Int) ≤ r.worker.checkpoint + 1))
  | .enqueue _ | .turn _ => isTrue trivial

end WorkerRun

end Mdrap
