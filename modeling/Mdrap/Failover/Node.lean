import Mdrap.Lib.Machine
import Mdrap.Lib.Runs

/-!
# Failover

A `FailoverNode` is primary or standby, and has an epoch and a fencing token. Nodes send one another heartbeats, which may be lost,
delayed, reordered or duplicated: a cluster keeps every heartbeat that was sent, and any of them can be received at any time, by any
node, any number of times. A standby that has not heard from its primary for too long becomes primary itself.

Telemetry, the callback on a change of state and the health score, which nothing reads, are left out.
-/

namespace Mdrap

open Lib

/-- `NodeState`. -/
inductive NodeState where
  | primary
  | standby
  | syncing
  | failed
  | maintenance
  deriving DecidableEq

/-- `HeartbeatMessage`. -/
structure HeartbeatMessage (V : Type) where
  nodeId : String
  clusterId : String
  epoch : Int
  state : NodeState
  lastCommittedSeq : Int
  timestamp : V
  fencingToken : Int

/-- `FailoverNode`. -/
structure FailoverNode (V : Type) where
  nodeId : String
  clusterId : String
  state : NodeState
  heartbeatTimeout : V
  epoch : Int
  fencingToken : Int
  lastPrimaryHbTime : V
  primaryNodeId : Option String
  primaryLastSeq : Int
  primaryEpoch : Int

/-- Why `assert_fencing_token` raises. -/
inductive StaleEpochError where
  | notPrimary
  | staleToken
  deriving DecidableEq

namespace FailoverNode

variable {V : Type}

/-- A new node. -/
def new (F : Floats V) (nodeId clusterId : String) (state : NodeState) (heartbeatTimeout : V) (epoch : Int) : FailoverNode V :=
  ⟨nodeId, clusterId, state, heartbeatTimeout, epoch, epoch, F.int 0, none, 0, 0⟩

/-- `send_heartbeat`, at some time. -/
def sendHeartbeat (n : FailoverNode V) (lastCommittedSeq : Int) (now : V) : HeartbeatMessage V :=
  ⟨n.nodeId, n.clusterId, n.epoch, n.state, lastCommittedSeq, now, n.fencingToken⟩

/-- Keep track of the primary that a heartbeat is from. -/
def trackPrimary (hb : HeartbeatMessage V) (n : FailoverNode V) : FailoverNode V :=
  { n with
    lastPrimaryHbTime := hb.timestamp
    primaryNodeId := some hb.nodeId
    primaryLastSeq := hb.lastCommittedSeq
    primaryEpoch := hb.epoch }

/-- The epoch of a peer is adopted where it is higher. -/
def adopt (hb : HeartbeatMessage V) (n : FailoverNode V) : FailoverNode V :=
  if n.epoch < hb.epoch then { n with epoch := hb.epoch, fencingToken := hb.fencingToken } else n

/-- `receive_heartbeat`. -/
def receiveHeartbeat (hb : HeartbeatMessage V) (n : FailoverNode V) : Bool × FailoverNode V :=
  if hb.clusterId ≠ n.clusterId then (false, n)
  else if hb.nodeId = n.nodeId then (true, n)
  else if n.epoch < hb.epoch ∧ n.state = .primary ∧ hb.state = .primary then (true, { n.adopt hb with state := .standby })
  else
    let n := n.adopt hb
    -- an assertion from an old epoch
    if hb.epoch < n.epoch ∧ hb.state = .primary then (false, n)
    -- two primaries in one epoch: the lower id stays
    else if n.state = .primary ∧ hb.state = .primary ∧ hb.epoch = n.epoch then
      if hb.nodeId < n.nodeId then (true, { n with state := .standby }.trackPrimary hb) else (false, n)
    else if hb.state = .primary then (true, n.trackPrimary hb)
    else (true, n)

/-- `promote`. -/
def promote (n : FailoverNode V) : FailoverNode V :=
  { n with epoch := n.epoch + 1, fencingToken := n.epoch + 1, state := .primary }

/-- `demote`. -/
def demote (n : FailoverNode V) : FailoverNode V := { n with state := .standby }

/-- The primary that a standby follows has timed out. -/
def timedOut (F : Floats V) (now : V) (n : FailoverNode V) : Bool :=
  n.state = .standby ∧ !F.eq n.lastPrimaryHbTime (F.int 0) ∧ !F.le (F.sub now n.lastPrimaryHbTime) n.heartbeatTimeout

/-- `check_failover_condition`. -/
def checkFailoverCondition (F : Floats V) (now : V) (localSeq : Int) (n : FailoverNode V) : Bool × FailoverNode V :=
  if !n.timedOut F now then (false, n)
  else if localSeq < n.primaryLastSeq then (false, { n with state := .syncing })
  else (true, n.promote)

/-- `replicate_commit`. -/
def replicateCommit (seq : Int) (n : FailoverNode V) : FailoverNode V :=
  if n.primaryLastSeq ≤ seq ∧ n.state = .syncing then { n with state := .standby } else n

/-- `assert_fencing_token`. -/
def assertFencingToken (token : Int) (n : FailoverNode V) : Except StaleEpochError Unit :=
  if n.state ≠ .primary then .error .notPrimary
  else if token < n.fencingToken then .error .staleToken
  else .ok ()

end FailoverNode

/-- What can happen to a node that follows a primary. -/
inductive FollowerEvent (V : Type) where
  | receiveHeartbeat (hb : HeartbeatMessage V)
  | replicateCommit (seq : Int)
  | checkFailoverCondition (now : V) (localSeq : Int)

/-- One event of a node that follows a primary. -/
def FailoverNode.follow {V : Type} (F : Floats V) (n : FailoverNode V) : FollowerEvent V → FailoverNode V
  | .receiveHeartbeat hb => (n.receiveHeartbeat hb).2
  | .replicateCommit seq => n.replicateCommit seq
  | .checkFailoverCondition now localSeq => (n.checkFailoverCondition F now localSeq).2

/-! ## A cluster -/

/-- Some nodes, and the heartbeats they have sent. -/
structure FailoverCluster (n : Nat) (V : Type) where
  nodes : Fin n → FailoverNode V
  sent : List (HeartbeatMessage V)

/-- What can happen to a node. -/
inductive FailoverEvent (n : Nat) (V : Type) where
  | sendHeartbeat (i : Fin n) (lastCommittedSeq : Int) (now : V)
  | receiveHeartbeat (i : Fin n) (k : Nat)
  | checkFailoverCondition (i : Fin n) (now : V) (localSeq : Int)
  | promote (i : Fin n)
  | demote (i : Fin n)

namespace FailoverCluster

variable {n : Nat} {V : Type}

/-- Change a node. -/
def atNode (c : FailoverCluster n V) (i : Fin n) (f : FailoverNode V → FailoverNode V) : FailoverCluster n V :=
  { c with nodes := Function.update c.nodes i (f (c.nodes i)) }

/-- One event; what was never sent is not received. -/
def step (F : Floats V) (c : FailoverCluster n V) : FailoverEvent n V → FailoverCluster n V
  | .sendHeartbeat i lastCommittedSeq now => { c with sent := c.sent ++ [(c.nodes i).sendHeartbeat lastCommittedSeq now] }
  | .receiveHeartbeat i k =>
    match c.sent[k]? with
    | none => c
    | some hb => c.atNode i (fun node => (node.receiveHeartbeat hb).2)
  | .checkFailoverCondition i now localSeq => c.atNode i (fun node => (node.checkFailoverCondition F now localSeq).2)
  | .promote i => c.atNode i .promote
  | .demote i => c.atNode i .demote

/-- A node is primary. -/
def IsPrimary (c : FailoverCluster n V) (i : Fin n) : Prop := (c.nodes i).state = .primary

instance (c : FailoverCluster n V) (i : Fin n) : Decidable (c.IsPrimary i) := inferInstanceAs (Decidable (_ = _))

/-- A cluster when it starts: one node is primary and the others are standbys, all in one epoch. -/
def start (F : Floats V) (ids : Fin n → String) (clusterId : String) (timeouts : Fin n → V) (epoch : Int) (p : Fin n) :
    FailoverCluster n V where
  nodes i := .new F (ids i) clusterId (if i = p then .primary else .standby) (timeouts i) epoch
  sent := []

end FailoverCluster

end Mdrap
