import Mathlib.Tactic.Common

/-!
# The replay ring

`fastpath.c` keeps the ticks it has seen last in a ring, each in the slot that its sequence number has modulo the size of the ring,
and answers queries for a range of numbers. A call that finds no engine or no room for the answer does nothing and is left out.
-/

namespace Mdrap

variable {V : Type}

def REPLAY_RING_SIZE : Nat := 65536

/-- A text of C, up to its end; a missing one is replaced. It is cut to the field it is copied into. -/
def copyText (size : Nat) (text : Option (List UInt8)) (missing : List UInt8) : List UInt8 := (text.getD missing).take (size - 1)

/-- The letters of a text. -/
def asciiBytes (s : String) : List UInt8 := s.toList.map (fun c => .ofNat c.toNat)

/-- `FastReplayRecord`, of a slot that is valid. -/
structure FastReplayRecord (V : Type) where
  seq : UInt64
  symbol : List UInt8
  source : List UInt8
  eventType : List UInt8
  price : V
  size : V
  bid : V
  ask : V
  bidSize : V
  askSize : V
  status : UInt8
  isCrossed : UInt8
  exchangeTs : V
  ingestTs : V
  broadcastTs : V
  engineUs : V

/-- The arguments of `fastpath_engine_replay_record`. -/
structure ReplayTick (V : Type) where
  seq : UInt64
  symbol : Option (List UInt8)
  source : Option (List UInt8)
  eventType : Option (List UInt8)
  price : V
  size : V
  bid : V
  ask : V
  bidSize : V
  askSize : V
  status : UInt8
  isCrossed : UInt8
  exchangeTs : V
  ingestTs : V
  broadcastTs : V
  engineUs : V

/-- The record of a call. -/
def ReplayTick.toRecord (t : ReplayTick V) : FastReplayRecord V where
  seq := t.seq
  symbol := copyText 16 t.symbol []
  source := copyText 16 t.source []
  eventType := copyText 8 t.eventType (asciiBytes "TICK")
  price := t.price
  size := t.size
  bid := t.bid
  ask := t.ask
  bidSize := t.bidSize
  askSize := t.askSize
  status := t.status
  isCrossed := t.isCrossed
  exchangeTs := t.exchangeTs
  ingestTs := t.ingestTs
  broadcastTs := t.broadcastTs
  engineUs := t.engineUs

/-- The slot of a number. -/
def replaySlot (seq : UInt64) : Nat := seq.toNat % REPLAY_RING_SIZE

/-- The part of a `FastEngine` for the replay. A slot without a record is one that is not valid. -/
structure ReplayRing (V : Type) where
  ring : Nat → Option (FastReplayRecord V)
  minSeq : UInt64
  maxSeq : UInt64
  totalRecorded : Nat

namespace ReplayRing

/-- `fastpath_engine_replay_clear`. -/
def clear : ReplayRing V := ⟨fun _ => none, 0, 0, 0⟩

/-- `fastpath_engine_replay_record`. -/
def record (r : ReplayRing V) (t : ReplayTick V) : ReplayRing V :=
  let maxSeq := if r.totalRecorded = 0 ∨ t.seq > r.maxSeq then t.seq else r.maxSeq
  { ring := fun i => if i = replaySlot t.seq then some t.toRecord else r.ring i
    maxSeq := maxSeq
    minSeq :=
      if maxSeq.toNat ≥ REPLAY_RING_SIZE then maxSeq - .ofNat REPLAY_RING_SIZE + 1
      else if r.totalRecorded = 0 ∨ t.seq < r.minSeq then t.seq
      else r.minSeq
    totalRecorded := r.totalRecorded + 1 }

/-- `replay_clamp`. -/
def clamp (r : ReplayRing V) (fromSeq toSeq : UInt64) : Option (UInt64 × UInt64) :=
  if r.totalRecorded = 0 then none
  else
    let fromSeq := if fromSeq < r.minSeq then r.minSeq else fromSeq
    let toSeq := if toSeq > r.maxSeq then r.maxSeq else toSeq
    if toSeq < fromSeq then none
    else some (fromSeq, if (toSeq - fromSeq).toNat ≥ REPLAY_RING_SIZE then fromSeq + .ofNat REPLAY_RING_SIZE - 1 else toSeq)

/-- What the ring has under a number, if its symbol is the one that is asked for. -/
def hit (r : ReplayRing V) (symbol : Option (List UInt8)) (s : UInt64) : Option (FastReplayRecord V) :=
  match r.ring (replaySlot s) with
  | some rec => if rec.seq = s ∧ (symbol = none ∨ symbol = some rec.symbol) then some rec else none
  | none => none

theorem distance_lt {s toSeq : UInt64} (h : s ≠ toSeq) : (toSeq - (s + 1)).toNat < (toSeq - s).toNat := by
  have hne := UInt64.toNat_inj.not.mpr h
  have hs := s.toNat_lt
  have hto := toSeq.toNat_lt
  rw [UInt64.toNat_sub, UInt64.toNat_sub, UInt64.toNat_add]
  simp only [UInt64.reduceToNat]
  omega

/-- The loop of a query, with room for so many records. It ends at `toSeq`, whatever that is. -/
def sliceFrom (r : ReplayRing V) (symbol : Option (List UInt8)) (toSeq : UInt64) (room : Nat) (s : UInt64) :
    List (FastReplayRecord V) :=
  if room = 0 then []
  else
    let found := (r.hit symbol s).toList
    if _h : s = toSeq then found else found ++ r.sliceFrom symbol toSeq (room - found.length) (s + 1)
termination_by (toSeq - s).toNat
decreasing_by exact distance_lt _h

/-- `fastpath_engine_replay_slice`. A symbol that is missing, empty or `ALL` asks for all of them. -/
def slice (r : ReplayRing V) (fromSeq toSeq : UInt64) (symbol : Option (List UInt8)) (maxOut : Nat) : List (FastReplayRecord V) :=
  if toSeq < fromSeq then []
  else
    match r.clamp fromSeq toSeq with
    | none => []
    | some (fromSeq, toSeq) =>
      r.sliceFrom (if symbol = some [] ∨ symbol = some (asciiBytes "ALL") then none else symbol) toSeq maxOut fromSeq

end ReplayRing

end Mdrap
