import Mdrap.Lib.Digest
import Mdrap.Lib.Runs

/-!
# Journal replication

The primary streams the frames of its log to a standby, which stores each one and acknowledges it. A frame on the wire is a header of
32 bytes, with a checksum over the rest of it and the payload, and the payload.

`JournalReplicationServer` reads frames from a connection until it ends. Whether a write to the socket succeeds, whether an append
to the log does and which epoch the failover node has at the time is not in its hands: each turn of its loop is given these. The turns
run out where the server is stopped.
-/

namespace Mdrap

open Lib

/-! ## Frames -/

/-- `REPL_MAGIC`. -/
def REPL_MAGIC : Nat := 0x5245504C

def REPL_VERSION : Nat := 1

def MSG_FRAME_DATA : Nat := 1
def MSG_ACK : Nat := 3
def MSG_ERROR : Nat := 4

def REPL_HEADER_SIZE : Nat := 32

/-- `ReplicationFrame`. -/
structure ReplicationFrame where
  msgType : Nat
  sequence : Nat
  epoch : Int
  payload : Bytes
  deriving DecidableEq

/-- A header as it is unpacked. -/
structure ReplicationHeader where
  version : Nat
  msgType : Nat
  sequence : Nat
  epoch : Nat
  length : Nat
  crc : Nat
  deriving DecidableEq

/-- The first 28 bytes of a frame. -/
def replicationPrefix (msgType sequence epoch length : Nat) : Bytes :=
  be 4 REPL_MAGIC ++ be 2 REPL_VERSION ++ be 2 msgType ++ be 8 sequence ++ be 8 epoch ++ be 4 length

/-- `pack_replication_frame`, of numbers that fit their fields. -/
def packReplicationFrame (msgType sequence epoch : Nat) (payload : Bytes) : Bytes :=
  let hdr := replicationPrefix msgType sequence epoch payload.length
  hdr ++ be 4 (crc32 (hdr ++ payload)).toNat ++ payload

/-- The number at a place of a header. -/
def fieldAt (b : Bytes) (start width : Nat) : Nat := beNat ((b.drop start).take width)

/-- `unpack_replication_header`; none where it raises. -/
def unpackReplicationHeader (b : Bytes) : Option ReplicationHeader :=
  if b.length < REPL_HEADER_SIZE then none
  else if fieldAt b 0 4 ≠ REPL_MAGIC then none
  else some ⟨fieldAt b 4 2, fieldAt b 6 2, fieldAt b 8 8, fieldAt b 16 8, fieldAt b 24 4, fieldAt b 28 4⟩

/-! ## The server -/

/-- What a turn of the loop meets with. -/
structure ReplicationTurn where
  nodeEpoch : Option Int
  sendOk : Bool
  appendOk : Bool

/-- What the server does: a payload is appended to the log, or a frame is sent back. -/
inductive ReplicationAction where
  | appended (payload : Bytes)
  | sent (frame : ReplicationFrame)
  deriving DecidableEq

/-- The epoch of the failover node, where it is above the one of a frame. -/
def staleEpoch (turn : ReplicationTurn) (hdr : ReplicationHeader) : Option Int :=
  match turn.nodeEpoch with
  | some nodeEpoch => if (hdr.epoch : Int) < nodeEpoch then some nodeEpoch else none
  | none => none

/-- The checksum of a frame is right. -/
def crcValid (stream : Bytes) (hdr : ReplicationHeader) (payload : Bytes) : Bool :=
  (crc32 (stream.take 28 ++ payload)).toNat = hdr.crc

/-- `_handle_client`; a log may have an `append_raw` or not. -/
def handleClient (hasAppendRaw : Bool) : List ReplicationTurn → Bytes → List ReplicationAction
  | [], _ => []
  | turn :: turns, stream =>
    match unpackReplicationHeader (stream.take REPL_HEADER_SIZE) with
    | none => []
    | some hdr =>
      match staleEpoch turn hdr with
      | some nodeEpoch => if turn.sendOk then [.sent ⟨MSG_ERROR, hdr.sequence, nodeEpoch, "STALE_EPOCH".toUTF8.toList⟩] else []
      | none =>
        let payload := (stream.drop REPL_HEADER_SIZE).take hdr.length
        let rest := stream.drop (REPL_HEADER_SIZE + hdr.length)
        if payload.length ≠ hdr.length then []
        else if crcValid stream hdr payload = false then
          if turn.sendOk then
            .sent ⟨MSG_ERROR, hdr.sequence, hdr.epoch, "CRC_FAILURE".toUTF8.toList⟩ :: handleClient hasAppendRaw turns rest
          else []
        else if hdr.msgType = MSG_FRAME_DATA then
          if hasAppendRaw ∧ !turn.appendOk then []
          else
            (if hasAppendRaw then [.appended payload] else []) ++
              if turn.sendOk then .sent ⟨MSG_ACK, hdr.sequence, hdr.epoch, []⟩ :: handleClient hasAppendRaw turns rest else []
        else handleClient hasAppendRaw turns rest

/-! ## The client, and the server at the other end

`JournalReplicationClient` sends a frame and may wait for the acknowledgement. A frame that could not be sent is spooled, and the spool
goes first when the next frame is sent. A connection is two queues. When the client gives one up, the frames on their way to the server
may still arrive there, or be lost. The log of the server has an `append_raw`. -/

/-- A frame as it is handed to the client: its sequence number and its payload. -/
abbrev SpooledFrame : Type := Nat × Bytes

/-- What the server answers. -/
inductive ReplicationReply where
  | ack (sequence : Nat)
  | error
  deriving DecidableEq

/-- A connection: the frames that the server has not read, and the answers that the client has not read. -/
structure ReplicationLink where
  toServer : List SpooledFrame
  toClient : List ReplicationReply
  deriving DecidableEq

/-- A call of `send_frame`. -/
structure SendCall where
  frame : SpooledFrame
  waitAck : Bool
  deriving DecidableEq

/-- Where the client is in `send_frame`: draining the spool, waiting for the answer to the first frame of the spool, behind the
spool, or waiting for the answer to the frame itself. -/
inductive ClientPc where
  | idle
  | flushing (call : SendCall)
  | awaitingHead (call : SendCall)
  | direct (call : SendCall)
  | awaiting (call : SendCall)
  deriving DecidableEq

/-- The client and the server. Of the past is kept which frames were handed to the client, which ones the server has appended and
acknowledged, and what the calls have returned. -/
structure Replication where
  maxSpoolSize : Nat
  spool : List SpooledFrame
  sock : Option ReplicationLink
  closed : List (List SpooledFrame)
  pc : ClientPc
  appended : List SpooledFrame
  acknowledged : List SpooledFrame
  sent : List SpooledFrame
  returned : List (SendCall × Bool)
  deriving DecidableEq

/-- What can happen. A step of the client that is not its turn does nothing. -/
inductive ReplicationEvent where
  | sendFrame (call : SendCall)
  | connect (ok : Bool)
  | close
  | sendall (ok : Bool)
  | recv
  | recvFails
  | advance
  | serve
  | serveClosed (k : Nat)
  | refuse
  | drop

namespace Replication

/-- A client that is not connected, and a server with an empty log. -/
def new (maxSpoolSize : Nat) : Replication := ⟨maxSpoolSize, [], none, [], .idle, [], [], [], []⟩

/-- The frames on their way to the server. -/
def onWire (r : Replication) : List SpooledFrame :=
  match r.sock with
  | some link => link.toServer
  | none => []

/-- `close`. -/
def giveUp (r : Replication) : Replication := { r with sock := none, closed := r.closed ++ [r.onWire] }

/-- The end of `send_frame` where the frame could not be sent: the oldest frame goes where the spool is full. -/
def spoolFrame (r : Replication) (call : SendCall) : Replication :=
  { r with
    spool := (if r.maxSpoolSize ≤ r.spool.length then r.spool.tail else r.spool) ++ [call.frame]
    pc := .idle
    returned := r.returned ++ [(call, false)] }

/-- The end of `send_frame` where the frame was sent. -/
def finish (r : Replication) (call : SendCall) : Replication := { r with pc := .idle, returned := r.returned ++ [(call, true)] }

/-- Put a frame on the wire. -/
def transmit (r : Replication) (link : ReplicationLink) (frame : SpooledFrame) : Replication :=
  { r with sock := some { link with toServer := link.toServer ++ [frame] } }

/-- `connect`, while the spool is drained or between two calls. -/
def connectStep (r : Replication) (ok : Bool) : Replication :=
  match r.pc with
  | .flushing call =>
    match r.sock with
    | some _ => r
    | none => if ok then { r with sock := some ⟨[], []⟩ } else { r with pc := .direct call }
  | .idle => if ok then { r.giveUp with sock := some ⟨[], []⟩ } else r.giveUp
  | _ => r

/-- `sendall` of a frame. -/
def sendallStep (r : Replication) (ok : Bool) : Replication :=
  match r.pc, r.sock, r.spool with
  | .flushing call, some link, head :: _ =>
    if ok then { r.transmit link head with pc := .awaitingHead call } else { r.giveUp with pc := .direct call }
  | .direct call, some link, [] =>
    if ok then
      if call.waitAck then { r.transmit link call.frame with pc := .awaiting call } else (r.transmit link call.frame).finish call
    else r.giveUp.spoolFrame call
  | _, _, _ => r

/-- An answer that the client waits for is read. It is not asked which frame is acknowledged. -/
def recvStep (r : Replication) : Replication :=
  match r.sock with
  | some ⟨toServer, reply :: replies⟩ =>
    let rest := { r with sock := some ⟨toServer, replies⟩ }
    match r.pc, reply with
    | .awaitingHead call, .ack _ => { rest with spool := r.spool.tail, pc := .flushing call }
    | .awaitingHead call, .error => { rest.giveUp with pc := .direct call }
    | .awaiting call, .ack _ => rest.finish call
    | .awaiting call, .error => rest.giveUp.spoolFrame call
    | _, _ => r
  | _ => r

/-- No whole answer comes. -/
def recvFailsStep (r : Replication) : Replication :=
  match r.pc with
  | .awaitingHead call => { r.giveUp with pc := .direct call }
  | .awaiting call => r.giveUp.spoolFrame call
  | _ => r

/-- The spool is empty, or there is nothing to send the frame on. -/
def advanceStep (r : Replication) : Replication :=
  match r.pc with
  | .flushing call => if r.spool = [] then { r with pc := .direct call } else r
  | .direct call => if r.sock = none ∨ r.spool ≠ [] then r.spoolFrame call else r
  | _ => r

/-- The server reads the next frame, appends it and acknowledges it. -/
def serveStep (r : Replication) : Replication :=
  match r.sock with
  | some ⟨frame :: toServer, toClient⟩ =>
    { r with
      sock := some ⟨toServer, toClient ++ [.ack frame.1]⟩
      appended := r.appended ++ [frame]
      acknowledged := r.acknowledged ++ [frame] }
  | _ => r

/-- The server reads the next frame from a connection that the client has given up, and appends it. -/
def serveClosedStep (r : Replication) (k : Nat) : Replication :=
  match r.closed[k]? with
  | some (frame :: toServer) => { r with closed := r.closed.set k toServer, appended := r.appended ++ [frame] }
  | _ => r

/-- The server refuses the next frame, says so and is done with the connection. -/
def refuseStep (r : Replication) : Replication :=
  match r.sock with
  | some ⟨_ :: _, toClient⟩ => { r with sock := some ⟨[], toClient ++ [.error]⟩ }
  | _ => r

/-- What is on the way to the server is lost. -/
def dropStep (r : Replication) : Replication :=
  match r.sock with
  | some ⟨_, toClient⟩ => { r with sock := some ⟨[], toClient⟩ }
  | none => r

/-- One event. -/
def step (r : Replication) : ReplicationEvent → Replication
  | .sendFrame call =>
    if r.pc = .idle then { r with pc := if r.spool = [] then .direct call else .flushing call, sent := r.sent ++ [call.frame] } else r
  | .connect ok => r.connectStep ok
  | .close => if r.pc = .idle then r.giveUp else r
  | .sendall ok => r.sendallStep ok
  | .recv => r.recvStep
  | .recvFails => r.recvFailsStep
  | .advance => r.advanceStep
  | .serve => r.serveStep
  | .serveClosed k => r.serveClosedStep k
  | .refuse => r.refuseStep
  | .drop => r.dropStep

end Replication

end Mdrap
