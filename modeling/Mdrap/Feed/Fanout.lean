import Mdrap.Lib.Bytes
import Mdrap.Lib.Dict

/-!
# The fan-out to consumers

`AsyncFanoutManager` takes frames from its publishers, and one dispatcher thread puts them into the queues of the sessions. A step is
what a thread does under one lock, or what it reads outside the locks; a counter that a single lock guards is never seen between its
read and its write, but `total_dropped` is counted under two kinds of locks, and its read and its write are two steps. What
`str.upper` does is left open, and who a session belongs to and when it was last active are left out. What was published, handed out
and discarded so far is recorded beside the state.
-/

namespace Mdrap

open Lib

/-- An item of a queue. -/
structure FanoutFrame where
  sym : String
  frame : Bytes
  seq : Int
  deriving DecidableEq

/-- `AsyncConsumerSession`, and what it handed out. -/
structure AsyncConsumerSession where
  consumerId : String
  maxQueueSize : Int
  subscribedSymbols : Option (List String)
  queue : List FanoutFrame := []
  isActive : Bool := true
  framesDispatched : Nat := 0
  framesDropped : Nat := 0
  framesConsumed : Nat := 0
  handed : List FanoutFrame := []

/-- The session takes the frames of a symbol. -/
def AsyncConsumerSession.wants (s : AsyncConsumerSession) (frame : FanoutFrame) : Bool :=
  match s.subscribedSymbols with
  | none => true
  | some symbols => frame.sym ∈ symbols

/-- Where the dispatcher is. -/
inductive DispatchPhase where
  /-- at the incoming queue -/
  | waiting
  /-- with a batch, before it has the sessions -/
  | collecting (batch : List FanoutFrame)
  /-- with the sessions, the ids to evict and the frames still to offer to each -/
  | offering (sessions : List Nat) (toEvict : List String) (work : List (FanoutFrame × Nat))
  /-- before the queue of a session that takes the frame -/
  | pushing (sessions : List Nat) (toEvict : List String) (frame : FanoutFrame) (session : Nat) (work : List (FanoutFrame × Nat))
  /-- in the queue of a session, with the `total_dropped` it read -/
  | counting (sessions : List Nat) (toEvict : List String) (frame : FanoutFrame) (session : Nat) (work : List (FanoutFrame × Nat))
      (read : Nat)
  /-- the thread is gone -/
  | stopped

/-- `AsyncFanoutManager`, with the publisher in the incoming queue and the `total_dropped` it read, the sessions that `consume_event`
calls wait on, and all sessions that there were. -/
structure AsyncFanoutManager where
  maxBufferPerClient : Int
  maxIncomingBuffer : Int
  evictionDropThreshold : Int
  incomingQueue : List FanoutFrame := []
  publisher : Option (FanoutFrame × Nat) := none
  consumers : Dict String Nat := .empty
  sessions : Dict Nat AsyncConsumerSession := .empty
  nextSession : Nat := 0
  dispatcher : DispatchPhase := .waiting
  consuming : List Nat := []
  totalPublished : Nat := 0
  totalDispatched : Nat := 0
  totalDropped : Nat := 0
  totalEvictions : Nat := 0
  published : List FanoutFrame := []
  discarded : Nat := 0

namespace AsyncFanoutManager

/-! ## Consumers -/

/-- `register_consumer`, which raises for a negative size. -/
def registerConsumer (upper : String → String) (consumerId : String) (subscribedSymbols : Option (List String))
    (maxQueueSize : Option Int) (m : AsyncFanoutManager) : AsyncFanoutManager :=
  let limit := if maxQueueSize.getD 0 = 0 then m.maxBufferPerClient else maxQueueSize.getD 0
  if limit < 0 then m
  else
    let symbols := subscribedSymbols.getD []
    let session := {
      consumerId := consumerId
      maxQueueSize := limit
      subscribedSymbols := if symbols = [] then none else some (symbols.map upper) }
    {
      m with
      consumers := m.consumers.set consumerId m.nextSession
      sessions := m.sessions.set m.nextSession session
      nextSession := m.nextSession + 1 }

/-- A session is no longer active. -/
def deactivate (session : Nat) (m : AsyncFanoutManager) : AsyncFanoutManager :=
  match m.sessions.get? session with
  | none => m
  | some s => { m with sessions := m.sessions.set session { s with isActive := false } }

/-- `unregister_consumer`. -/
def unregisterConsumer (consumerId : String) (m : AsyncFanoutManager) : AsyncFanoutManager :=
  match m.consumers.get? consumerId with
  | none => m
  | some session => deactivate session { m with consumers := m.consumers.erase consumerId }

/-- `consume_event` looks its session up. -/
def findSession (consumerId : String) (m : AsyncFanoutManager) : AsyncFanoutManager :=
  match m.consumers.get? consumerId with
  | none => m
  | some session =>
    match m.sessions.get? session with
    | none => m
    | some s => if s.isActive then { m with consuming := session :: m.consuming } else m

/-- The queue of a session is locked by the dispatcher. -/
def queueLocked (session : Nat) (m : AsyncFanoutManager) : Bool :=
  match m.dispatcher with
  | .counting _ _ _ session' _ _ => session' = session
  | _ => false

/-- `consume_event` takes a frame out of the queue of its session. -/
def takeFrame (session : Nat) (m : AsyncFanoutManager) : AsyncFanoutManager :=
  if session ∈ m.consuming ∧ m.queueLocked session = false then
    match m.sessions.get? session with
    | none => m
    | some s =>
      match s.queue with
      | [] => m
      | item :: queue => {
          m with
          sessions := m.sessions.set session {
            s with queue := queue, framesConsumed := s.framesConsumed + 1, handed := s.handed ++ [item] }
          consuming := m.consuming.erase session }
  else m

/-- `consume_event` gives up. -/
def giveUp (session : Nat) (m : AsyncFanoutManager) : AsyncFanoutManager := { m with consuming := m.consuming.erase session }

/-! ## Publishers -/

/-- A frame comes to the incoming queue. -/
def enqueue (frame : FanoutFrame) (m : AsyncFanoutManager) : AsyncFanoutManager := {
  m with
  incomingQueue := m.incomingQueue ++ [frame]
  totalPublished := m.totalPublished + 1
  published := m.published ++ [frame] }

/-- `publish_event`, up to the read of `total_dropped` where the queue is full; a queue without room for one frame raises. -/
def publishEvent (upper : String → String) (symbol : String) (frame : Bytes) (seq : Int) (m : AsyncFanoutManager) : AsyncFanoutManager :=
  match m.publisher with
  | some _ => m
  | none =>
    let item := ⟨upper symbol, frame, seq⟩
    if m.maxIncomingBuffer ≤ (m.incomingQueue.length : Int) then
      match m.incomingQueue with
      | [] => m
      | _ :: queue => { m with incomingQueue := queue, publisher := some (item, m.totalDropped), discarded := m.discarded + 1 }
    else m.enqueue item

/-- `publish_event` writes `total_dropped` and goes on. -/
def publishDropped (m : AsyncFanoutManager) : AsyncFanoutManager :=
  match m.publisher with
  | none => m
  | some (item, read) => enqueue item { m with publisher := none, totalDropped := read + 1 }

/-! ## The dispatcher -/

/-- A frame comes to the queue of a session. -/
def push (frame : FanoutFrame) (session : Nat) (s : AsyncConsumerSession) (m : AsyncFanoutManager) : AsyncFanoutManager := {
  m with
  sessions := m.sessions.set session { s with queue := s.queue ++ [frame], framesDispatched := s.framesDispatched + 1 }
  totalDispatched := m.totalDispatched + 1 }

/-- The session of an id to evict. -/
def evictOne (m : AsyncFanoutManager) (consumerId : String) : AsyncFanoutManager :=
  match m.consumers.get? consumerId with
  | none => m
  | some session =>
    deactivate session { m with consumers := m.consumers.erase consumerId, totalEvictions := m.totalEvictions + 1 }

/-- The dispatcher's next step. -/
def dispatch (m : AsyncFanoutManager) : AsyncFanoutManager :=
  match m.dispatcher with
  | .waiting =>
    -- the incoming queue is locked while a publisher is in it
    if m.publisher.isSome ∨ m.incomingQueue = [] then m
    else { m with dispatcher := .collecting (m.incomingQueue.take 256), incomingQueue := m.incomingQueue.drop 256 }
  | .collecting batch =>
    let sessions := m.consumers.values
    if sessions = [] then { m with dispatcher := .waiting }
    else { m with dispatcher := .offering sessions [] (batch.flatMap (fun frame => sessions.map (fun session => (frame, session)))) }
  | .offering sessions toEvict ((frame, session) :: work) =>
    match m.sessions.get? session with
    | none => m
    | some s =>
      if s.isActive ∧ s.wants frame then { m with dispatcher := .pushing sessions toEvict frame session work }
      else { m with dispatcher := .offering sessions toEvict work }
  | .pushing sessions toEvict frame session work =>
    match m.sessions.get? session with
    | none => m
    | some s =>
      if s.maxQueueSize ≤ (s.queue.length : Int) then
        match s.queue with
        | [] => { m with dispatcher := .stopped }
        | _ :: queue => {
            m with
            sessions := m.sessions.set session { s with queue := queue, framesDropped := s.framesDropped + 1 }
            dispatcher := .counting sessions toEvict frame session work m.totalDropped }
      else { m.push frame session s with dispatcher := .offering sessions toEvict work }
  | .counting sessions toEvict frame session work read =>
    match m.sessions.get? session with
    | none => m
    | some s =>
      let toEvict := if m.evictionDropThreshold ≤ (s.framesDropped : Int) then toEvict ++ [s.consumerId] else toEvict
      { m.push frame session s with totalDropped := read + 1, dispatcher := .offering sessions toEvict work }
  | .offering _ toEvict [] => { toEvict.dedup.foldl evictOne m with dispatcher := .waiting }
  | .stopped => m

end AsyncFanoutManager

/-- A step of a thread. -/
inductive FanoutAction where
  | publish (symbol : String) (frame : Bytes) (seq : Int)
  | publishDropped
  | register (consumerId : String) (subscribedSymbols : Option (List String)) (maxQueueSize : Option Int)
  | unregister (consumerId : String)
  | find (consumerId : String)
  | take (session : Nat)
  | giveUp (session : Nat)
  | dispatch

/-- The manager after a step. -/
def AsyncFanoutManager.step (upper : String → String) (m : AsyncFanoutManager) : FanoutAction → AsyncFanoutManager
  | .publish symbol frame seq => m.publishEvent upper symbol frame seq
  | .publishDropped => m.publishDropped
  | .register consumerId subscribedSymbols maxQueueSize => m.registerConsumer upper consumerId subscribedSymbols maxQueueSize
  | .unregister consumerId => m.unregisterConsumer consumerId
  | .find consumerId => m.findSession consumerId
  | .take session => m.takeFrame session
  | .giveUp session => m.giveUp session
  | .dispatch => m.dispatch

end Mdrap
