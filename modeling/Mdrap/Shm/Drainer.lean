import Mdrap.Shm.Seqlock

/-!
# The drain worker

`SHMDrainWorker` copies the ticks of a shared segment to a journal and to a store. Its thread reads every slot twice, first for the
journal and then, with `read_slot`, for a list of pending events; a flush writes the pending events to the store and puts an empty
list in place of the list. A second thread calls `drain_until` and `stop`, which flush too. Every load of a commit word or of the
head is a step, and so is every use of the attribute that holds the pending list; the list itself is shared by all who have taken it,
and the store reads it entry by entry. Writes to the store do not fail.

Of a slot only the commit word is kept, and of an event only its sequence number. The clock decides whether a flush is due.
-/

namespace Mdrap

open Lib

/-- What a worker is made with; the native read of a slot is there or not. -/
structure DrainConfig where
  ring : ShmGeometry
  batchSize : Int
  native : Bool

namespace DrainConfig

/-- `max(1, batch_size)`. -/
def batchLimit (c : DrainConfig) : Nat := (max 1 c.batchSize).toNat

/-- `seq & mask`. -/
def slotIdx (c : DrainConfig) (seq : Nat) : Nat := seq &&& (c.ring.slotCount - 1)

end DrainConfig

/-- Where a thread stands in `_flush_batches`, with the list it has taken and the entries the store has read. -/
inductive FlushPc where
  | check
  | take
  | enter (batch : Nat)
  | writing (batch : Nat) (rows : List Nat)
  | replace
  deriving DecidableEq

/-- Where the thread of the worker stands, with the ticks it has drained in this cycle. -/
inductive DrainPc where
  | notStarted
  | cycle
  | loadHead (drained : Nat)
  | loadCommit (drained : Nat)
  | copySlot (drained : Nat)
  | recheck (drained : Nat) (raw : UInt64)
  | append (drained : Nat) (raw : UInt64)
  | readHead (drained : Nat)
  | readNative (drained : Nat)
  | readCommit (drained : Nat)
  | readRecheck (drained : Nat)
  | loadPending (drained : Nat)
  | appendPending (drained : Nat) (list : Nat)
  | count (drained : Nat)
  | afterCycle (drained : Nat)
  | flush (pc : FlushPc)
  | finalFlush (pc : FlushPc)
  | exited
  deriving DecidableEq

/-- Where the other thread stands. -/
inductive OtherPc where
  | idle
  | joining
  | flushing (pc : FlushPc)
  deriving DecidableEq

/-- The steps: of the writer of the segment, of the thread of the worker, and of the other thread. -/
inductive DrainEvent where
  | write (src : Nat → UInt64)
  | writer
  | start (startSeq : Option Nat)
  | drain (due : Bool)
  | drainUntil (targetSeq : Nat)
  | stop
  | other

/-- The segment and the worker. A list has a number, and `pending` is that of the pending list. An entry of the journal is kept with
the laps that were counted when it was appended, and every sequence number that was counted is kept too. -/
structure DrainRun where
  shm : ShmRun := .init
  currentSeq : Nat := 0
  stopEvent : Bool := false
  thread : DrainPc := .notStarted
  other : OtherPc := .idle
  pending : Nat := 0
  lists : Nat → List Nat := fun _ => []
  nextList : Nat := 1
  journal : List (UInt64 × Nat) := []
  store : List Nat := []
  counted : List Nat := []
  lastDrainedSeq : Nat := 0
  lapsDetected : Nat := 0

/-- A row comes to the table unless its event is there. -/
def insertRow (store : List Nat) (seq : Nat) : List Nat := if seq ∈ store then store else store ++ [seq]

namespace DrainRun

/-- `read_latest_seq`. -/
def readLatestSeq (r : DrainRun) : Nat := r.shm.segment.head.toNat - 1

/-- The commit word of the current slot. -/
def commitWord (c : DrainConfig) (r : DrainRun) : UInt64 := r.shm.segment.commit (c.slotIdx r.currentSeq)

/-- `read_slot` finds that the writer is more than a round ahead. -/
def Lapped (c : DrainConfig) (r : DrainRun) : Prop :=
  let head := r.shm.segment.head.toNat
  0 < head ∧ r.currentSeq < head ∧ c.ring.slotCount < head - r.currentSeq

instance (c : DrainConfig) (r : DrainRun) : Decidable (r.Lapped c) := inferInstanceAs (Decidable (_ ∧ _))

/-- `start`, once. -/
def start (c : DrainConfig) (startSeq : Option Nat) (r : DrainRun) : DrainRun :=
  match r.thread with
  | .notStarted =>
    let latest := r.readLatestSeq
    let current :=
      match startSeq with
      | some seq => seq
      | none => if c.ring.slotCount < latest then latest - c.ring.slotCount + 1 else 0
    { r with currentSeq := current, stopEvent := false, thread := .cycle }
  | _ => r

/-- A thread is in the store. -/
def storeLocked (r : DrainRun) : Bool :=
  match r.thread, r.other with
  | .flush (.writing _ _), _ => true
  | .finalFlush (.writing _ _), _ => true
  | _, .flushing (.writing _ _) => true
  | _, _ => false

/-- A step of `_flush_batches`, and where it leads if not to the end. -/
def flushStep (r : DrainRun) : FlushPc → DrainRun × Option FlushPc
  | .check => (r, if r.lists r.pending = [] then none else some .take)
  | .take => (r, some (.enter r.pending))
  | .enter batch => (r, some (if r.storeLocked then .enter batch else .writing batch []))
  | .writing batch rows =>
    match (r.lists batch)[rows.length]? with
    | some seq => (r, some (.writing batch (rows ++ [seq])))
    | none => ({ r with store := rows.foldl insertRow r.store }, some .replace)
  | .replace =>
    ({
      r with
      pending := r.nextList
      lists := fun i => if i = r.nextList then [] else r.lists i
      nextList := r.nextList + 1 }, none)

/-- An event comes to a list. -/
def appendTo (r : DrainRun) (list seq : Nat) : DrainRun :=
  { r with lists := fun i => if i = list then r.lists i ++ [seq] else r.lists i }

/-- The overrun check. -/
def checkLag (c : DrainConfig) (r : DrainRun) : DrainRun :=
  let head := r.readLatestSeq + 1
  if r.currentSeq < head ∧ c.ring.slotCount < head - r.currentSeq then
    { r with lapsDetected := r.lapsDetected + 1, currentSeq := head - c.ring.slotCount }
  else r

/-- A step of the native read; it has returned when its reader is idle again. -/
def nativeStep (c : DrainConfig) (drained : Nat) (r : DrainRun) : DrainRun :=
  let shm := r.shm.step c.ring (.reader 0)
  match shm.readers 0 with
  | .idle =>
    let found := (shm.reads.getLast?.map (·.code)) = some 1
    { r with shm := shm, thread := if found then .loadPending drained else .readCommit drained }
  | _ => { r with shm := shm }

/-- A step of the thread of the worker, `_drain_loop`. -/
def drainStep (c : DrainConfig) (due : Bool) (r : DrainRun) : DrainRun :=
  match r.thread with
  | .notStarted => r
  | .cycle => { r with thread := if r.stopEvent then .finalFlush .check else .loadHead 0 }
  | .loadHead drained =>
    if drained < c.batchLimit then { r.checkLag c with thread := .loadCommit drained } else { r with thread := .afterCycle drained }
  | .loadCommit drained =>
    { r with thread := if (r.commitWord c).toNat = r.currentSeq then .copySlot drained else .afterCycle drained }
  | .copySlot drained => { r with thread := .recheck drained (r.commitWord c) }
  | .recheck drained raw =>
    { r with thread := if (r.commitWord c).toNat = r.currentSeq then .append drained raw else .afterCycle drained }
  | .append drained raw => { r with journal := r.journal ++ [(raw, r.lapsDetected)], thread := .readHead drained }
  | .readHead drained =>
    if r.Lapped c then { r with thread := .count drained }
    else if c.native then
      { r with shm := r.shm.step c.ring (.read 0 (UInt64.ofNat r.currentSeq)), thread := .readNative drained }
    else { r with thread := .readCommit drained }
  | .readNative drained => r.nativeStep c drained
  | .readCommit drained =>
    { r with thread := if (r.commitWord c).toNat = r.currentSeq then .readRecheck drained else .count drained }
  | .readRecheck drained =>
    { r with thread := if (r.commitWord c).toNat = r.currentSeq then .loadPending drained else .count drained }
  | .loadPending drained => { r with thread := .appendPending drained r.pending }
  | .appendPending drained list => { r.appendTo list r.currentSeq with thread := .count drained }
  | .count drained => {
      r with
      counted := r.counted ++ [r.currentSeq]
      lastDrainedSeq := r.currentSeq
      currentSeq := r.currentSeq + 1
      thread := .loadHead (drained + 1) }
  | .afterCycle drained => { r with thread := if 0 < drained ∨ due then .flush .check else .cycle }
  | .flush pc =>
    let (r, next) := r.flushStep pc
    { r with thread := next.elim .cycle .flush }
  | .finalFlush pc =>
    let (r, next) := r.flushStep pc
    { r with thread := next.elim .exited .finalFlush }
  | .exited => r

/-- A step of the other thread: the thread is joined or not within the time, and the flush goes on. -/
def otherStep (r : DrainRun) : DrainRun :=
  match r.other with
  | .idle => r
  | .joining => { r with other := .flushing .check }
  | .flushing pc =>
    let (r, next) := r.flushStep pc
    { r with other := next.elim .idle .flushing }

/-- One step. A `drain_until` that does not find its target drained has no effect. -/
def step (c : DrainConfig) (r : DrainRun) : DrainEvent → DrainRun
  | .write src => { r with shm := r.shm.step c.ring (.write src) }
  | .writer => { r with shm := r.shm.step c.ring .writer }
  | .start startSeq => r.start c startSeq
  | .drain due => r.drainStep c due
  | .drainUntil targetSeq => if r.other = .idle ∧ targetSeq ≤ r.lastDrainedSeq then { r with other := .flushing .check } else r
  | .stop => if r.other = .idle then { r with stopEvent := true, other := .joining } else r
  | .other => r.otherStep

end DrainRun

end Mdrap
