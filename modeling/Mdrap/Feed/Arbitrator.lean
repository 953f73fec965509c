import Mdrap.Lib.Bytes
import Mdrap.Lib.Dict
import Mdrap.Lib.Runs

/-!
# The A/B feed arbitrator

`ABFeedArbitrator` takes the packets of two feeds that carry the same channels, and gives each channel's packets on in the order of
their numbers. A packet that comes too early waits in the gap buffer of its channel, and what is missing before it is asked for from
a replay client: at once, or by a thread of a pool, which puts the answer into the gap buffer when it comes. Every step of a
thread holds the arbitrator's lock; a replay holds it twice, to take the answer in and to note that it is done.

Closing the arbitrator and setting a channel's number from outside are left out, and so are the times of packets.
-/

namespace Mdrap

open Lib

/-- `UDPPacket`. -/
structure UdpPacket where
  channelId : String
  sequenceNum : Int
  feedId : String
  payload : Bytes
  deriving DecidableEq

/-- `ArbitratorMetrics`. -/
structure ArbitratorMetrics where
  feedAPackets : Nat
  feedBPackets : Nat
  tcpPackets : Nat
  dedupDropped : Nat
  inOrderDispatched : Nat
  gapsDetected : Nat
  tcpReplaysRequested : Nat
  tcpPacketsRecovered : Nat
  gapBufferOverflows : Nat
  deriving DecidableEq

/-- `ABFeedArbitrator`. -/
structure AbFeedArbitrator where
  hasReplayClient : Bool
  maxGapBufferSize : Int
  initialSeq : Int
  asyncTcpReplay : Bool
  pendingReplays : List (String × Int)
  expectedSeq : Dict String Int
  gapBuffers : Dict String (Dict Int UdpPacket)
  metrics : ArbitratorMetrics

/-- The loop of `_drain_gap_buffer`: the packets from a number on, as long as there is a next one. -/
def drainLoop : Nat → Int → Dict Int UdpPacket → List UdpPacket × Int × Dict Int UdpPacket
  | 0, curr, buf => ([], curr, buf)
  | n + 1, curr, buf =>
    match buf.get? curr with
    | none => ([], curr, buf)
    | some pkt =>
      let (pkts, curr, buf) := drainLoop n (curr + 1) (buf.erase curr)
      (pkt :: pkts, curr, buf)

/-- The packets of an answer that are not in the gap buffer and not given on yet are put into it; gives their number. -/
def takeReplayed (expected : Int) : List UdpPacket → Dict Int UdpPacket → Nat × Dict Int UdpPacket
  | [], buf => (0, buf)
  | pkt :: pkts, buf =>
    if ¬buf.contains pkt.sequenceNum ∧ expected ≤ pkt.sequenceNum then
      let (n, buf) := takeReplayed expected pkts (buf.set pkt.sequenceNum pkt)
      (n + 1, buf)
    else takeReplayed expected pkts buf

/-- The numbers from one to another. -/
def seqRange (first last : Int) : List Int := (List.range (last + 1 - first).toNat).map (fun (i : Nat) => first + i)

namespace AbFeedArbitrator

/-- An arbitrator that has seen nothing. -/
def new (hasReplayClient : Bool) (maxGapBufferSize initialSeq : Int) (asyncTcpReplay : Bool) : AbFeedArbitrator where
  hasReplayClient := hasReplayClient
  maxGapBufferSize := maxGapBufferSize
  initialSeq := initialSeq
  asyncTcpReplay := asyncTcpReplay
  pendingReplays := []
  expectedSeq := .empty
  gapBuffers := .empty
  metrics := ⟨0, 0, 0, 0, 0, 0, 0, 0, 0⟩

/-- `get_expected_seq`. -/
def getExpectedSeq (a : AbFeedArbitrator) (ch : String) : Int := (a.expectedSeq.get? ch).getD a.initialSeq

/-- The gap buffer of a channel. -/
def gapBuffer (a : AbFeedArbitrator) (ch : String) : Dict Int UdpPacket := (a.gapBuffers.get? ch).getD .empty

/-- A channel has a gap buffer. -/
def setGapBuffer (a : AbFeedArbitrator) (ch : String) (buf : Dict Int UdpPacket) : AbFeedArbitrator :=
  { a with gapBuffers := a.gapBuffers.set ch buf }

/-- A channel is at a number. -/
def setExpectedSeq (a : AbFeedArbitrator) (ch : String) (seq : Int) : AbFeedArbitrator :=
  { a with expectedSeq := a.expectedSeq.set ch seq }

/-- The metrics are updated. -/
def count (a : AbFeedArbitrator) (f : ArbitratorMetrics → ArbitratorMetrics) : AbFeedArbitrator := { a with metrics := f a.metrics }

/-- `_drain_gap_buffer`. Every turn of the loop takes a packet out of the buffer. -/
def drainGapBuffer (a : AbFeedArbitrator) (ch : String) : List UdpPacket × AbFeedArbitrator :=
  let (pkts, curr, buf) := drainLoop (a.gapBuffer ch).size (a.getExpectedSeq ch) (a.gapBuffer ch)
  (pkts, (a.setGapBuffer ch buf).setExpectedSeq ch curr)

/-- The drain of a channel and the count of what it gives on. -/
def drainCounted (a : AbFeedArbitrator) (ch : String) : List UdpPacket × AbFeedArbitrator :=
  let (pkts, a) := a.drainGapBuffer ch
  (pkts, a.count (fun m => { m with inOrderDispatched := m.inOrderDispatched + pkts.length }))

/-- A packet is counted for its feed. -/
def countFeed (a : AbFeedArbitrator) (feedId : String) : AbFeedArbitrator :=
  a.count (fun m =>
    if feedId = "A" then { m with feedAPackets := m.feedAPackets + 1 }
    else if feedId = "B" then { m with feedBPackets := m.feedBPackets + 1 }
    else { m with tcpPackets := m.tcpPackets + 1 })

/-- The numbers that are missing before a packet and were not asked for yet. -/
def neededFor (a : AbFeedArbitrator) (ch : String) (expected seq : Int) : List Int :=
  (seqRange expected (seq - 1)).filter (fun s => !(a.gapBuffer ch).contains s && !a.pendingReplays.contains (ch, s))

/-- What an answer of the replay client brings. -/
def takeAnswer (a : AbFeedArbitrator) (ch : String) (expected : Int) (reply : Option (List UdpPacket)) : AbFeedArbitrator :=
  match reply with
  | none => a
  | some pkts =>
    let (n, buf) := takeReplayed expected pkts (a.gapBuffer ch)
    (a.setGapBuffer ch buf).count (fun m => { m with tcpPacketsRecovered := m.tcpPacketsRecovered + n })

/-- What is missing before a packet is asked for: the range that a thread of the pool is to fetch, or the arbitrator with the
answer, which is an argument. -/
def askFor (a : AbFeedArbitrator) (ch : String) (expected seq : Int) (reply : Option (List UdpPacket)) :
    Option (Int × Int) × AbFeedArbitrator :=
  if a.hasReplayClient then
    match (a.neededFor ch expected seq).min?, (a.neededFor ch expected seq).max? with
    | some first, some last =>
      let a := a.count (fun m => { m with tcpReplaysRequested := m.tcpReplaysRequested + 1 })
      if a.asyncTcpReplay then
        (some (first, last), { a with pendingReplays := a.pendingReplays ++ (seqRange first last).map (fun s => (ch, s)) })
      else (none, a.takeAnswer ch expected reply)
    | _, _ => (none, a)
  else (none, a)

/-- The packet that comes too early is put into the gap buffer, unless the buffer has it; a full buffer takes none. -/
def buffer (a : AbFeedArbitrator) (packet : UdpPacket) : Option AbFeedArbitrator :=
  let buf := a.gapBuffer packet.channelId
  if buf.contains packet.sequenceNum then some (a.count (fun m => { m with dedupDropped := m.dedupDropped + 1 }))
  else if a.maxGapBufferSize ≤ buf.size then none
  else some (a.setGapBuffer packet.channelId (buf.set packet.sequenceNum packet))

/-- `on_packet`: the packets that are given on, the range a thread of the pool is to fetch, if any, and the arbitrator. -/
def onPacket (a : AbFeedArbitrator) (packet : UdpPacket) (reply : Option (List UdpPacket)) :
    List UdpPacket × Option (Int × Int) × AbFeedArbitrator :=
  let ch := packet.channelId
  let seq := packet.sequenceNum
  let expected := a.getExpectedSeq ch
  let a := (a.countFeed packet.feedId).setExpectedSeq ch expected
  if seq < expected then ([], none, a.count (fun m => { m with dedupDropped := m.dedupDropped + 1 }))
  else if expected < seq then
    match a.buffer packet with
    | none => ([], none, a.count (fun m => { m with gapBufferOverflows := m.gapBufferOverflows + 1 }))
    | some a =>
      let a := a.count (fun m => { m with gapsDetected := m.gapsDetected + 1 })
      match a.askFor ch expected seq reply with
      | (some range, a) => ([], some range, a)
      | (none, a) =>
        if (a.gapBuffer ch).contains expected then
          let (pkts, a) := a.drainCounted ch
          (pkts, none, a)
        else ([], none, a)
  else
    let a := a.setExpectedSeq ch (expected + 1)
    let (pkts, a) := if (a.gapBuffer ch).contains (expected + 1) then a.drainGapBuffer ch else ([], a)
    (packet :: pkts, none, a.count (fun m => { m with inOrderDispatched := m.inOrderDispatched + (pkts.length + 1) }))

/-- The loop of `drain` over the channels: the packets, each with the channel it is of. -/
def drainAll : List String → AbFeedArbitrator → List (String × UdpPacket) × AbFeedArbitrator
  | [], a => ([], a)
  | ch :: chs, a =>
    let (pkts, a) := if (a.gapBuffer ch).contains (a.getExpectedSeq ch) then a.drainCounted ch else ([], a)
    let (rest, a) := drainAll chs a
    (pkts.map (ch, ·) ++ rest, a)

/-- `drain`, of one channel or of all. -/
def drain (a : AbFeedArbitrator) (channelId : Option String) : List (String × UdpPacket) × AbFeedArbitrator :=
  match channelId with
  | some ch => drainAll (if a.expectedSeq.contains ch then [ch] else []) a
  | none => drainAll (a.expectedSeq.items.map (·.1)) a

/-- `_run_replay`, when the answer comes: none where the client raises. -/
def runReplay (a : AbFeedArbitrator) (ch : String) (reply : Option (List UdpPacket)) : AbFeedArbitrator :=
  a.takeAnswer ch (a.getExpectedSeq ch) reply

/-- `_run_replay`, at its end. -/
def replayDone (a : AbFeedArbitrator) (ch : String) (first last : Int) : AbFeedArbitrator :=
  { a with pendingReplays := a.pendingReplays.filter (fun p => !(seqRange first last).any (fun s => p == (ch, s))) }

end AbFeedArbitrator

/-! ## Threads -/

/-- A replay of the pool: the range it fetches, and whether the answer has come. -/
structure ReplayJob where
  channelId : String
  first : Int
  last : Int
  answered : Bool
  deriving DecidableEq

/-- The steps of the threads: a packet comes in, with what the client answers should it be asked at once; a drain; the answer to a
replay of the pool, and its end. -/
inductive ArbitratorEvent where
  | packet (packet : UdpPacket) (reply : Option (List UdpPacket))
  | drain (channelId : Option String)
  | answer (job : Nat) (reply : Option (List UdpPacket))
  | done (job : Nat)

/-- An arbitrator in use: the replays of the pool, and the packets that were given on, each with the channel it is of. -/
structure ArbitratorRun where
  arbitrator : AbFeedArbitrator
  jobs : List ReplayJob
  dispatched : List (String × UdpPacket)

namespace ArbitratorRun

def new (a : AbFeedArbitrator) : ArbitratorRun := ⟨a, [], []⟩

/-- The packets of a channel that were given on. -/
def ofChannel (r : ArbitratorRun) (ch : String) : List UdpPacket := (r.dispatched.filter (fun p => p.1 = ch)).map (·.2)

/-- One step. -/
def step (r : ArbitratorRun) : ArbitratorEvent → ArbitratorRun
  | .packet packet reply =>
    let (pkts, range, a) := r.arbitrator.onPacket packet reply
    ⟨a, r.jobs ++ range.toList.map (fun range => ⟨packet.channelId, range.1, range.2, false⟩),
      r.dispatched ++ pkts.map (packet.channelId, ·)⟩
  | .drain channelId =>
    let (pkts, a) := r.arbitrator.drain channelId
    ⟨a, r.jobs, r.dispatched ++ pkts⟩
  | .answer i reply =>
    match r.jobs[i]? with
    | some job =>
      if job.answered then r
      else { r with
        arbitrator := r.arbitrator.runReplay job.channelId reply
        jobs := r.jobs.set i { job with answered := true } }
    | none => r
  | .done i =>
    match r.jobs[i]? with
    | some job =>
      if job.answered then { r with
        arbitrator := r.arbitrator.replayDone job.channelId job.first job.last
        jobs := r.jobs.eraseIdx i }
      else r
    | none => r

end ArbitratorRun

end Mdrap
