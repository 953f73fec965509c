import Mdrap.Engine.Stages

/-!
# The quality engine's sequence check

`QualityEngine` keeps a slot for each source and instrument. Its second stage places an event with a sequence number: it may hold
the event back until the numbers before it have come, or mark it and go on, or mark it and be done with it.
-/

namespace Mdrap

open Lib

variable {V : Type}

def DEFAULT_STALE_SEEN_CAPACITY : Nat := 32

/-- The part of `QualityConfig` the stage reads. -/
structure QualityConfig where
  seqJumpLimit : Int
  reorders : Bool
  reorderMaxSlots : Nat
  sessionPolicy : SessionPolicy

/-- An event as the stage reads it, with the marks it has so far. -/
structure QualityEvent (V : Type) where
  sequenceNumber : Int
  sessionId : Option String
  exchangeTimestamp : V
  status : QualityStatus
  reasons : List Reason

/-- `_mark`: a status only gets worse, and a reason is given once. -/
def QualityEvent.mark (ev : QualityEvent V) (status : QualityStatus) (reason : Reason) : QualityEvent V where
  __ := ev
  status := if ev.status.severityLevel < status.severityLevel then status else ev.status
  reasons := if reason ∈ ev.reasons then ev.reasons else ev.reasons ++ [reason]

/-- `_SlotState`, as far as the sequence goes. -/
structure SlotState (V : Type) where
  lastSeq : Int
  hasSeq : Bool
  seen : Nat
  candPlus1 : Int
  regressCount : Nat
  staleSeen : List Int
  pending : Dict Int (QualityEvent V)
  sessionId : Option String
  lastTs : Option V

/-- A new slot. -/
def SlotState.new : SlotState V := ⟨-1, false, 0, 0, 0, [], .empty, none, none⟩

/-- What becomes of an event: it is held back, goes on to the next stages, or is done with. -/
inductive Placed (V : Type) where
  | held
  | goesOn (ev : QualityEvent V)
  | done (ev : QualityEvent V)

namespace SlotState

/-- A new epoch begins: the event says so, or its session is another one, or it is far back in the sequence and late. -/
def epochReset (P : Py V) (cfg : QualityConfig) (sl : SlotState V) (ev : QualityEvent V) : Except PyError Bool :=
  if Reason.epochReset ∈ ev.reasons then .ok true
  else
    match cfg.sessionPolicy with
    | .strict => .ok false
    | .sessionMarker => .ok (ev.sessionId.isSome ∧ sl.sessionId.isSome ∧ ev.sessionId ≠ sl.sessionId)
    | .autoDetect =>
      match sl.hasSeq, sl.lastTs with
      | true, some lastTs =>
        if sl.lastSeq - ev.sequenceNumber ≥ 50 ∨ (sl.lastSeq > 10 ∧ ev.sequenceNumber ≤ 10) then do
          return P.le (P.dec 60 0) (← P.sub ev.exchangeTimestamp lastTs)
        else .ok false
      | _, _ => .ok false

/-- The slot of a new epoch. -/
def clear (sl : SlotState V) : SlotState V :=
  { sl with lastSeq := -1, hasSeq := false, seen := 0, candPlus1 := 0, pending := .empty, regressCount := 0 }

/-- A number ahead of the last one. -/
def ahead (cfg : QualityConfig) (sl : SlotState V) (ev : QualityEvent V) : Placed V × SlotState V :=
  let seq := ev.sequenceNumber
  let jump := seq - sl.lastSeq
  if cfg.reorders ∧ 1 < jump ∧ jump ≤ cfg.reorderMaxSlots ∧ sl.pending.size < cfg.reorderMaxSlots then
    (.held, { sl with pending := sl.pending.set seq ev })
  else if jump > cfg.seqJumpLimit then
    let ev := ev.mark .suspicious .sequenceGap
    let cand := sl.candPlus1 - 1
    if sl.candPlus1 ≠ 0 ∧ seq > cand ∧ seq - cand ≤ cfg.seqJumpLimit then
      (.goesOn ev, { sl with lastSeq := seq, seen := 1, candPlus1 := 0 })
    else (.goesOn ev, { sl with candPlus1 := seq + 1 })
  else
    (.goesOn (if jump > 1 then ev.mark .suspicious .sequenceGap else ev),
      { sl with seen := shiftSeen sl.seen jump, lastSeq := seq, candPlus1 := 0 })

/-- The list of numbers from before the window, with one more. -/
def pushStale (sl : SlotState V) (seq : Int) : SlotState V :=
  let stale := sl.staleSeen ++ [seq]
  { sl with staleSeen := if DEFAULT_STALE_SEEN_CAPACITY < stale.length then stale.tail else stale }

/-- The last number again, or one before it. -/
def behind (cfg : QualityConfig) (sl : SlotState V) (ev : QualityEvent V) : Placed V × SlotState V :=
  let seq := ev.sequenceNumber
  let d := sl.lastSeq - seq
  if d < SEQUENCE_BITMAP_BITS then
    if sl.seen.testBit d.toNat then
      let ev := ev.mark .invalid .duplicate
      (.goesOn (if d > 0 then ev.mark .invalid .outOfOrder else ev), sl)
    else (.goesOn (ev.mark .suspicious .outOfOrder), { sl with seen := sl.seen ||| 1 <<< d.toNat })
  else if seq ∈ sl.staleSeen then (.done ((ev.mark .invalid .duplicate).mark .invalid .outOfOrder), sl)
  else if d > cfg.seqJumpLimit then
    if 2 ≤ sl.regressCount + 1 then
      (.done (ev.mark .suspicious .outOfOrder),
        { sl with lastSeq := seq, seen := 1, regressCount := 0, candPlus1 := 0, staleSeen := [] })
    else (.goesOn (ev.mark .suspicious .outOfOrder), { sl with regressCount := sl.regressCount + 1 }.pushStale seq)
  else (.goesOn (ev.mark .suspicious .outOfOrder), { sl with regressCount := 0 }.pushStale seq)

/-- The second stage of `evaluate`, for an event with a sequence number that is not negative. -/
def place (P : Py V) (cfg : QualityConfig) (sl : SlotState V) (ev : QualityEvent V) : Except PyError (Placed V × SlotState V) := do
  let reset ← sl.epochReset P cfg ev
  let (ev, sl) := if reset then (ev.mark .valid .epochReset, sl.clear) else (ev, sl)
  let sl := if ev.sessionId.isSome then { sl with sessionId := ev.sessionId } else sl
  if !sl.hasSeq then return (.goesOn ev, { sl with lastSeq := ev.sequenceNumber, seen := 1, hasSeq := true })
  else if ev.sequenceNumber > sl.lastSeq then return sl.ahead cfg ev
  else return sl.behind cfg ev

end SlotState

end Mdrap
