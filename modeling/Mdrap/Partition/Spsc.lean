import Mdrap.Lib.Runs

/-!
# The queue between two threads

`PySpscRingQueue` is a ring that one thread offers items to and another one polls, without a lock. A run interleaves the two at their
single reads and writes of the queue's attributes; an event lets one of the threads take its next one. What was offered and what was
polled is listed beside the queue, and so is, for the offer that is being made, whether the queue was full at some moment of it.
-/

namespace Mdrap

open Lib

variable {α : Type*}

/-- `PySpscRingQueue`. -/
structure PySpscRingQueue (α : Type*) where
  capacity : Nat
  mask : Nat
  buffer : List (Option α)
  head : Nat
  tail : Nat

namespace PySpscRingQueue

/-- `while cap < capacity: cap <<= 1`, from a positive number. -/
def roundUp (capacity cap : Nat) : Nat := if 0 < cap ∧ cap < capacity then roundUp capacity (cap <<< 1) else cap
termination_by capacity - cap
decreasing_by
  rename_i h
  rw [Nat.shiftLeft_eq]
  omega

/-- `__init__`. -/
def new (capacity : Nat) : PySpscRingQueue α :=
  let cap := roundUp capacity 1
  ⟨cap, cap - 1, List.replicate cap none, 0, 0⟩

/-- `qsize`, from what was read of the two numbers. -/
def qsize (head tail : Int) : Int := max 0 (head - tail)

/-- `empty`. -/
def empty (q : PySpscRingQueue α) : Bool := q.tail = q.head

/-- `full`. -/
def full (q : PySpscRingQueue α) : Bool := q.capacity ≤ (q.head : Int) - q.tail

end PySpscRingQueue

/-- Where `offer` stands, with its locals. -/
inductive OfferPc (α : Type*) where
  | idle
  | readTail (item : α) (head : Nat)
  | writeSlot (item : α) (head : Nat)
  | writeHead (head : Nat) (item : α)

/-- Where `poll` stands, with its locals. -/
inductive PollPc (α : Type*) where
  | idle
  | readHead (tail : Nat)
  | readSlot (tail : Nat)
  | clearSlot (tail : Nat) (item : Option α)
  | writeTail (tail : Nat) (item : Option α)

/-- The queue, the two threads, and what they have done: the items that were offered with success, what polls that found the queue not
empty have returned, whether the queue was full at some moment of the offer that is being made, and the same of the offers that
failed. -/
structure SpscRun (α : Type*) where
  queue : PySpscRingQueue α
  producer : OfferPc α
  consumer : PollPc α
  offered : List α
  polled : List (Option α)
  wasFull : Bool
  failed : List Bool

/-- An offer or a poll is begun, or goes on. -/
inductive SpscEvent (α : Type*) where
  | offer (item : α)
  | produce
  | poll
  | consume

namespace SpscRun

def start (capacity : Nat) : SpscRun α := ⟨.new capacity, .idle, .idle, [], [], false, []⟩

/-- As many items are offered and not yet polled as the queue has room for. -/
def isFull (r : SpscRun α) : Bool := r.queue.capacity ≤ r.offered.length - r.polled.length

/-- The next access of `offer`. -/
def produce (r : SpscRun α) : SpscRun α :=
  match r.producer with
  | .idle => r
  | .readTail item head =>
    let tail := r.queue.tail
    if r.queue.capacity ≤ (head : Int) - tail then { r with producer := .idle, failed := r.failed ++ [r.wasFull] }
    else { r with producer := .writeSlot item head }
  | .writeSlot item head =>
    { r with producer := .writeHead head item, queue.buffer := r.queue.buffer.set (head &&& r.queue.mask) (some item) }
  | .writeHead head item => { r with producer := .idle, queue.head := head + 1, offered := r.offered ++ [item] }

/-- The next access of `poll`. -/
def consume (r : SpscRun α) : SpscRun α :=
  match r.consumer with
  | .idle => r
  | .readHead tail =>
    let head := r.queue.head
    if tail = head then { r with consumer := .idle } else { r with consumer := .readSlot tail }
  | .readSlot tail => { r with consumer := .clearSlot tail (r.queue.buffer[tail &&& r.queue.mask]?).join }
  | .clearSlot tail item =>
    { r with consumer := .writeTail tail item, queue.buffer := r.queue.buffer.set (tail &&& r.queue.mask) none }
  | .writeTail tail item => { r with consumer := .idle, queue.tail := tail + 1, polled := r.polled ++ [item] }

/-- An offer begins with its read of the head, a poll with its read of the tail. -/
def access (r : SpscRun α) : SpscEvent α → SpscRun α
  | .offer item =>
    match r.producer with
    | .idle => { r with producer := .readTail item r.queue.head, wasFull := r.isFull }
    | _ => r
  | .produce => r.produce
  | .poll =>
    match r.consumer with
    | .idle => { r with consumer := .readHead r.queue.tail }
    | _ => r
  | .consume => r.consume

/-- An access; the offer that is being made sees whether the queue is full after it. -/
def step (r : SpscRun α) (e : SpscEvent α) : SpscRun α :=
  let r := r.access e
  { r with wasFull := r.wasFull || r.isFull }

end SpscRun

end Mdrap
