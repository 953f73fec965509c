import Mdrap.Lib.Dict
import Mdrap.Lib.Machine
import Mdrap.Lib.Runs

/-!
# Feed recovery

`FeedRecoveryEngine` puts the packets of a feed in order. Where numbers are missing it holds the packets after the gap back and asks
for a replay; once the missing packets have come it hands them out with what it held back. What a replay handler gives is part of the
call that asks it, so that a handler may give anything at any time. Only packets are told apart here, not who else holds them.
-/

namespace Mdrap

open Lib

variable {V : Type}

/-- `FeedState`. -/
inductive FeedState where
  | disconnected
  | connecting
  | snapshot
  | live
  | gapDetected
  | recovering
  | staleSnapshot
  | failedRecovery
  deriving DecidableEq

/-- `FeedPacket`. -/
structure FeedPacket (V : Type) where
  channelId : String
  sequenceNum : Int
  payload : List UInt8
  timestamp : V
  isReplayed : Bool

/-- `RecoveryMetrics`. -/
structure RecoveryMetrics where
  stateTransitions : Nat
  gapsDetected : Nat
  replaysRequested : Nat
  replaysCompleted : Nat
  recoveryFailures : Nat
  staleSnapshotsRejected : Nat
  dedupDropped : Nat
  inOrderDispatched : Nat

/-- `FeedRecoveryEngine`. -/
structure FeedRecoveryEngine (V : Type) where
  channelId : String
  expectedSeq : Int
  maxBufferSize : Int
  state : FeedState
  lastProcessedTs : V
  gapBuffer : Dict Int (FeedPacket V)
  metrics : RecoveryMetrics

/-- A replay handler, for a channel and the first and the last number that is missing. It gives some packets or raises. -/
abbrev ReplayHandler (V : Type) := String → Int → Int → Option (List (FeedPacket V))

namespace FeedRecoveryEngine

def new (F : Floats V) (channelId : String) (initialSeq maxBufferSize : Int) : FeedRecoveryEngine V :=
  ⟨channelId, initialSeq, maxBufferSize, .disconnected, F.int 0, .empty, ⟨0, 0, 0, 0, 0, 0, 0, 0⟩⟩

/-- `_set_state`. -/
def setState (state : FeedState) (e : FeedRecoveryEngine V) : FeedRecoveryEngine V :=
  if e.state ≠ state then { e with state := state, metrics.stateTransitions := e.metrics.stateTransitions + 1 } else e

def connect (requireSnapshot : Bool) (e : FeedRecoveryEngine V) : FeedRecoveryEngine V :=
  let e := e.setState .connecting
  if requireSnapshot then e.setState .snapshot else e.setState .live

def disconnect (e : FeedRecoveryEngine V) : FeedRecoveryEngine V := { e.setState .disconnected with gapBuffer := .empty }

/-- A snapshot that is older than what was processed. -/
def isStale (F : Floats V) (ts : V) (e : FeedRecoveryEngine V) : Bool :=
  F.lt ts e.lastProcessedTs && F.lt (F.int 0) e.lastProcessedTs

/-- `on_snapshot`, and whether it is accepted. -/
def onSnapshot (F : Floats V) (seq : Int) (ts : V) (e : FeedRecoveryEngine V) : Bool × FeedRecoveryEngine V :=
  if e.isStale F ts then
    (false, { e with metrics.staleSnapshotsRejected := e.metrics.staleSnapshotsRejected + 1 }.setState .staleSnapshot)
  else (true, { e with expectedSeq := seq + 1, lastProcessedTs := ts, gapBuffer := .empty }.setState .live)

/-- The loop of `_drain_contiguous`. -/
def drainLoop (F : Floats V) : Nat → FeedRecoveryEngine V → List (FeedPacket V) × FeedRecoveryEngine V
  | 0, e => ([], e)
  | n + 1, e =>
    match e.gapBuffer.get? e.expectedSeq with
    | none => ([], e)
    | some pkt =>
      let (pkts, e) := drainLoop F n { e with
        gapBuffer := e.gapBuffer.erase e.expectedSeq
        lastProcessedTs := F.max e.lastProcessedTs pkt.timestamp
        expectedSeq := e.expectedSeq + 1 }
      (pkt :: pkts, e)

/-- `_drain_contiguous`. There are no more rounds than packets. -/
def drainContiguous (F : Floats V) (e : FeedRecoveryEngine V) : List (FeedPacket V) × FeedRecoveryEngine V :=
  e.drainLoop F e.gapBuffer.size

/-- One packet of a replay: held back, or a duplicate. -/
def takeReplayed (e : FeedRecoveryEngine V) (p : FeedPacket V) : FeedRecoveryEngine V :=
  if p.sequenceNum ≥ e.expectedSeq then { e with gapBuffer := e.gapBuffer.set p.sequenceNum { p with isReplayed := true } }
  else { e with metrics.dedupDropped := e.metrics.dedupDropped + 1 }

/-- `on_recovery_packets`. -/
def onRecoveryPackets (F : Floats V) (packets : List (FeedPacket V)) (e : FeedRecoveryEngine V) :
    List (FeedPacket V) × FeedRecoveryEngine V :=
  if e.state ≠ .recovering then ([], { e with metrics.dedupDropped := e.metrics.dedupDropped + packets.length })
  else
    let e := packets.foldl takeReplayed e
    if e.gapBuffer.contains e.expectedSeq then
      let (dispatched, e) := e.drainContiguous F
      let e := { e with
        metrics.replaysCompleted := e.metrics.replaysCompleted + 1
        metrics.inOrderDispatched := e.metrics.inOrderDispatched + dispatched.length }
      (dispatched, e.setState .live)
    else ([], e)

/-- `on_recovery_failed`. -/
def onRecoveryFailed (e : FeedRecoveryEngine V) : FeedRecoveryEngine V :=
  { e with metrics.recoveryFailures := e.metrics.recoveryFailures + 1 }.setState .failedRecovery

/-- `_trigger_recovery`. What the replay hands out goes nowhere. -/
def triggerRecovery (F : Floats V) (handler : Option (ReplayHandler V)) (startSeq endSeq : Int) (e : FeedRecoveryEngine V) :
    FeedRecoveryEngine V :=
  let e := e.setState .recovering
  let e := { e with metrics.replaysRequested := e.metrics.replaysRequested + 1 }
  match handler with
  | none => e
  | some handler =>
    match handler e.channelId startSeq endSeq with
    | none => e.onRecoveryFailed
    | some [] => e
    | some (p :: ps) => (e.onRecoveryPackets F (p :: ps)).2

/-- A number after the one that is expected. -/
def onGap (F : Floats V) (handler : Option (ReplayHandler V)) (packet : FeedPacket V) (e : FeedRecoveryEngine V) :
    FeedRecoveryEngine V :=
  let e := { e with metrics.gapsDetected := e.metrics.gapsDetected + 1 }
  if (e.gapBuffer.size : Int) ≥ e.maxBufferSize then e.onRecoveryFailed
  else
    let e := { e with gapBuffer := e.gapBuffer.set packet.sequenceNum packet }
    if e.state = .live then (e.setState .gapDetected).triggerRecovery F handler e.expectedSeq (packet.sequenceNum - 1) else e

/-- The number that is expected, while nothing is being recovered. -/
def onExpected (F : Floats V) (packet : FeedPacket V) (e : FeedRecoveryEngine V) : List (FeedPacket V) × FeedRecoveryEngine V :=
  let e := { e with expectedSeq := e.expectedSeq + 1, lastProcessedTs := packet.timestamp }
  let (drained, e) := if e.gapBuffer.contains e.expectedSeq then e.drainContiguous F else ([], e)
  (packet :: drained, { e with metrics.inOrderDispatched := e.metrics.inOrderDispatched + (packet :: drained).length })

/-- `on_packet`. -/
def onPacket (F : Floats V) (handler : Option (ReplayHandler V)) (packet : FeedPacket V) (e : FeedRecoveryEngine V) :
    List (FeedPacket V) × FeedRecoveryEngine V :=
  if e.state ≠ .live ∧ e.state ≠ .recovering ∧ e.state ≠ .gapDetected then ([], e)
  else if packet.sequenceNum < e.expectedSeq then ([], { e with metrics.dedupDropped := e.metrics.dedupDropped + 1 })
  else if packet.sequenceNum > e.expectedSeq then ([], e.onGap F handler packet)
  else if e.state = .recovering then ([], { e with gapBuffer := e.gapBuffer.set packet.sequenceNum packet })
  else e.onExpected F packet

end FeedRecoveryEngine

/-- A call. -/
inductive FeedCall (V : Type) where
  | connect (requireSnapshot : Bool)
  | disconnect
  | onSnapshot (seq : Int) (ts : V)
  | onPacket (handler : Option (ReplayHandler V)) (packet : FeedPacket V)
  | onRecoveryPackets (packets : List (FeedPacket V))
  | onRecoveryFailed

/-- What a call hands out. -/
def FeedRecoveryEngine.call (F : Floats V) (e : FeedRecoveryEngine V) : FeedCall V → List (FeedPacket V) × FeedRecoveryEngine V
  | .connect requireSnapshot => ([], e.connect requireSnapshot)
  | .disconnect => ([], e.disconnect)
  | .onSnapshot seq ts => ([], (e.onSnapshot F seq ts).2)
  | .onPacket handler packet => e.onPacket F handler packet
  | .onRecoveryPackets packets => e.onRecoveryPackets F packets
  | .onRecoveryFailed => ([], e.onRecoveryFailed)

end Mdrap
