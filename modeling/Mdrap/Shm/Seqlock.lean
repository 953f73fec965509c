import Mathlib.Algebra.Group.Nat.Defs
import Mdrap.Lib.Runs

/-!
# The slots of a shared segment

A writer puts its ticks into the slots of a ring in shared memory, and any number of readers read them without a lock. The commit
word of a slot tells the sequence number of the tick in it; a writer marks the slot as uncommitted before it writes the other words.
Every load and every store of a word of 64 bits is a step of its own, and the steps of the threads come in any order.

The words of a tick are an argument of the call that writes it: how its fields are packed into them concerns the writer alone. The
segment has been initialised, and its geometry is one that both sides accept.
-/

namespace Mdrap

open Lib

/-- `MD_UNCOMMITTED`. -/
def uncommitted : UInt64 := 0xFFFFFFFFFFFFFFFF

/-- The words of a slot behind its commit word. -/
def payloadWords : Nat := 15

/-- The attempts of a read. -/
def maxRetries : Nat := 3

/-- The number of slots, which `shm3_geometry_ok` accepts: a power of two, two at least, in 32 bits. -/
structure ShmGeometry where
  bits : Nat
  two_le : 1 ≤ bits
  lt : bits < 32

namespace ShmGeometry

def slotCount (g : ShmGeometry) : Nat := 2 ^ g.bits

/-- The slot of a tick. -/
def slotOf (g : ShmGeometry) (seq : UInt64) : Nat := seq.toNat &&& (g.slotCount - 1)

end ShmGeometry

/-- The words of the segment: the head, and the commit word and the other words of each slot. -/
structure ShmSegment where
  head : UInt64
  commit : Nat → UInt64
  words : Nat → Nat → UInt64

namespace ShmSegment

/-- `fastpath_shm_init_v3`. -/
def init : ShmSegment := ⟨0, fun _ => uncommitted, fun _ _ => 0⟩

/-- A store to the head. -/
def setHead (m : ShmSegment) (v : UInt64) : ShmSegment := { m with head := v }

/-- A store to the commit word of a slot. -/
def setCommit (m : ShmSegment) (slot : Nat) (v : UInt64) : ShmSegment :=
  { m with commit := fun i => if i = slot then v else m.commit i }

/-- A store to another word of a slot. -/
def setWord (m : ShmSegment) (slot w : Nat) (v : UInt64) : ShmSegment :=
  { m with words := fun i j => if i = slot ∧ j = w then v else m.words i j }

end ShmSegment

/-- Where the writer stands in `fastpath_shm_write_tick_v3`. -/
inductive WriterPc where
  | idle
  | invalidate (seq : UInt64) (src : Nat → UInt64)
  | payload (seq : UInt64) (src : Nat → UInt64) (w : Nat)
  | commit (seq : UInt64)
  | publish (seq : UInt64)

/-- Where a reader stands in `fastpath_shm_read_slot_v3`, with the words it has read. -/
inductive ReaderPc where
  | idle
  | loadHead (target : UInt64)
  | loadCommit (target : UInt64) (retry : Nat)
  | loadWord (target : UInt64) (retry : Nat) (got : List UInt64)
  | recheck (target : UInt64) (retry : Nat) (got : List UInt64)

/-- What a read has returned, with the words it has stored. -/
structure ShmRead where
  target : UInt64
  code : Int
  words : List UInt64
  deriving DecidableEq

/-- The steps of the threads: the writer begins to write its next tick or goes on, a reader begins a read or goes on. -/
inductive ShmEvent where
  | write (src : Nat → UInt64)
  | writer
  | read (reader : Nat) (target : UInt64)
  | reader (reader : Nat)

/-- The segment, the threads, the ticks the writer has begun to write, and the reads that have returned. -/
structure ShmRun where
  segment : ShmSegment
  writer : WriterPc
  readers : Nat → ReaderPc
  ticks : List (Nat → UInt64)
  reads : List ShmRead

namespace ShmRun

def init : ShmRun := ⟨.init, .idle, fun _ => .idle, [], []⟩

/-- The writer calls for its ticks 0, 1, 2 and so on. A call whose number is not the head returns. -/
def write (r : ShmRun) (src : Nat → UInt64) : ShmRun :=
  match r.writer with
  | .idle =>
    let seq := UInt64.ofNat r.ticks.length
    if seq ≠ r.segment.head then r else { r with writer := .invalidate seq src }
  | _ => r

/-- A store of the writer. -/
def writerStep (g : ShmGeometry) (r : ShmRun) : ShmRun :=
  match r.writer with
  | .idle => r
  | .invalidate seq src =>
    { r with
      segment := r.segment.setCommit (g.slotOf seq) uncommitted
      ticks := r.ticks ++ [src]
      writer := .payload seq src 0 }
  | .payload seq src w =>
    { r with
      segment := r.segment.setWord (g.slotOf seq) w (src w)
      writer := if w + 1 < payloadWords then .payload seq src (w + 1) else .commit seq }
  | .commit seq => { r with segment := r.segment.setCommit (g.slotOf seq) seq, writer := .publish seq }
  | .publish seq => { r with segment := r.segment.setHead (seq + 1), writer := .idle }

/-- A reader goes on. -/
def setReader (r : ShmRun) (i : Nat) (pc : ReaderPc) : ShmRun :=
  { r with readers := fun j => if j = i then pc else r.readers j }

/-- A read returns. -/
def returnRead (r : ShmRun) (i : Nat) (target : UInt64) (code : Int) (words : List UInt64) : ShmRun :=
  { r.setReader i .idle with reads := r.reads ++ [⟨target, code, words⟩] }

/-- A load of a reader, with what it does before the next one. -/
def readerStep (g : ShmGeometry) (r : ShmRun) (i : Nat) : ShmRun :=
  match r.readers i with
  | .idle => r
  | .loadHead target =>
    let head := r.segment.head
    if target < head ∧ UInt64.ofNat g.slotCount < head - target then r.returnRead i target (-1) []
    else r.setReader i (.loadCommit target 0)
  | .loadCommit target retry =>
    let c1 := r.segment.commit (g.slotOf target)
    if c1 ≠ target then
      if c1 = uncommitted ∨ c1 < target then r.returnRead i target 0 [] else r.returnRead i target (-1) []
    else r.setReader i (.loadWord target retry [])
  | .loadWord target retry got =>
    let got' := got ++ [r.segment.words (g.slotOf target) got.length]
    r.setReader i (if got'.length < payloadWords then .loadWord target retry got' else .recheck target retry got')
  | .recheck target retry got =>
    let c2 := r.segment.commit (g.slotOf target)
    if c2 = target then r.returnRead i target 1 got
    else if retry + 1 < maxRetries then r.setReader i (.loadCommit target (retry + 1))
    else r.returnRead i target (-1) []

/-- One step. -/
def step (g : ShmGeometry) (r : ShmRun) : ShmEvent → ShmRun
  | .write src => r.write src
  | .writer => r.writerStep g
  | .read i target =>
    match r.readers i with
    | .idle => r.setReader i (.loadHead target)
    | _ => r
  | .reader i => r.readerStep g i

/-- The writer has begun to write a later tick into the slot of a tick. -/
def Overwritten (g : ShmGeometry) (r : ShmRun) (target : UInt64) : Prop :=
  ∃ seq, target.toNat < seq ∧ seq < r.ticks.length ∧ g.slotOf (UInt64.ofNat seq) = g.slotOf target

/-- A read that returns 1 has stored the words of its tick, and one that returns -1 was overtaken. -/
def Truthful (g : ShmGeometry) (r : ShmRun) (x : ShmRead) : Prop :=
  (x.code = 1 → ∃ src ∈ r.ticks[x.target.toNat]?, x.words = (List.range payloadWords).map src) ∧
    (x.code = -1 → r.Overwritten g x.target)

/-- The writer does not come to the number that marks an uncommitted slot, and no reader asks for it. -/
def Numbers (r : ShmRun) : ShmEvent → Prop
  | .write _ => r.ticks.length < uncommitted.toNat
  | .read _ target => target ≠ uncommitted
  | .writer | .reader _ => True

instance (r : ShmRun) (e : ShmEvent) : Decidable (r.Numbers e) :=
  match e with
  | .write _ => inferInstanceAs (Decidable (_ < _))
  | .read _ _ => inferInstanceAs (Decidable (_ ≠ _))
  | .writer | .reader _ => isTrue trivial

end ShmRun

end Mdrap
