import Mdrap.Failover.Replication

/-!
# What an acknowledgement says

An acknowledgement says that a frame is stored if the log that the server writes to has an `append_raw`; the log of this repository has
none, and the server acknowledges without storing anything.
-/

namespace Mdrap

open Lib

/-! ## Frames of a stream -/

/-- A stream begins with a frame. -/
structure FrameAt (stream : Bytes) (hdr : ReplicationHeader) (payload : Bytes) : Prop where
  header : unpackReplicationHeader (stream.take REPL_HEADER_SIZE) = some hdr
  body : (stream.drop REPL_HEADER_SIZE).take hdr.length = payload
  whole : payload.length = hdr.length

/-- An intact frame that is not from an old epoch stands somewhere in a stream. -/
def IntactFrame (turns : List ReplicationTurn) (stream : Bytes) (sequence : Nat) (payload : Bytes) : Prop :=
  ∃ part hdr, part <:+ stream ∧ FrameAt part hdr payload ∧ crcValid part hdr payload = true ∧ hdr.sequence = sequence ∧
    ∃ turn ∈ turns, staleEpoch turn hdr = none

/-- Before each acknowledgement the payload of such a frame was appended. -/
def AcksStored (turns : List ReplicationTurn) (stream : Bytes) (actions : List ReplicationAction) : Prop :=
  ∀ before after sequence epoch, actions = before ++ .sent ⟨MSG_ACK, sequence, epoch, []⟩ :: after →
    ∃ payload, .appended payload ∈ before ∧ IntactFrame turns stream sequence payload

/-- The server gets to an intact data frame: all the frames before it are whole and not from an old epoch, and what is sent back
arrives. -/
def ReachesData : List ReplicationTurn → Bytes → Prop
  | [], _ => False
  | turn :: turns, stream =>
    ∃ hdr payload, FrameAt stream hdr payload ∧ staleEpoch turn hdr = none ∧
      ((crcValid stream hdr payload = true ∧ hdr.msgType = MSG_FRAME_DATA ∧ turn.sendOk = true) ∨
        ((crcValid stream hdr payload = true ∧ hdr.msgType ≠ MSG_FRAME_DATA ∨ crcValid stream hdr payload = false ∧ turn.sendOk = true) ∧
          ReachesData turns (stream.drop (REPL_HEADER_SIZE + hdr.length))))

/-! ## One turn -/

section turn

variable {has : Bool} {turn : ReplicationTurn} {turns : List ReplicationTurn} {stream : Bytes} {hdr : ReplicationHeader}
  {payload : Bytes}

/-- What the server does in a turn. -/
inductive TurnDoes (has : Bool) (turn : ReplicationTurn) (turns : List ReplicationTurn) (stream : Bytes) :
    List ReplicationAction → Prop
  | stop : TurnDoes has turn turns stream []
  | stale (frame : ReplicationFrame) (h : frame.msgType ≠ MSG_ACK) : TurnDoes has turn turns stream [.sent frame]
  | corrupt {hdr : ReplicationHeader} {payload : Bytes} (frame : ReplicationFrame) (h : frame.msgType ≠ MSG_ACK)
    (hframe : FrameAt stream hdr payload) (hfresh : staleEpoch turn hdr = none) (hcrc : crcValid stream hdr payload = false)
    (hsend : turn.sendOk = true) :
    TurnDoes has turn turns stream (.sent frame :: handleClient has turns (stream.drop (REPL_HEADER_SIZE + hdr.length)))
  | other {hdr : ReplicationHeader} {payload : Bytes} (hframe : FrameAt stream hdr payload) (hfresh : staleEpoch turn hdr = none)
    (hcrc : crcValid stream hdr payload = true) (htype : hdr.msgType ≠ MSG_FRAME_DATA) :
    TurnDoes has turn turns stream (handleClient has turns (stream.drop (REPL_HEADER_SIZE + hdr.length)))
  | unsent {payload : Bytes} (hsend : turn.sendOk = false) :
    TurnDoes has turn turns stream (if has then [.appended payload] else [])
  | acked {hdr : ReplicationHeader} {payload : Bytes} (hframe : FrameAt stream hdr payload) (hfresh : staleEpoch turn hdr = none)
    (hcrc : crcValid stream hdr payload = true) (htype : hdr.msgType = MSG_FRAME_DATA) (hsend : turn.sendOk = true) :
    TurnDoes has turn turns stream ((if has then [.appended payload] else []) ++
      .sent ⟨MSG_ACK, hdr.sequence, hdr.epoch, []⟩ :: handleClient has turns (stream.drop (REPL_HEADER_SIZE + hdr.length)))

theorem handleClient_turn (has : Bool) (turn : ReplicationTurn) (turns : List ReplicationTurn) (stream : Bytes) :
    TurnDoes has turn turns stream (handleClient has (turn :: turns) stream) := by
  unfold handleClient
  split
  · exact .stop
  · rename_i hdr hheader
    split
    · split
      · exact .stale _ (show MSG_ERROR ≠ MSG_ACK by decide)
      · exact .stop
    · rename_i hfresh
      dsimp only
      split
      · exact .stop
      · rename_i hlength
        have hframe : FrameAt stream hdr ((stream.drop REPL_HEADER_SIZE).take hdr.length) := ⟨hheader, rfl, not_not.mp hlength⟩
        split
        · rename_i hcrc
          split
          · rename_i hsend
            exact .corrupt _ (show MSG_ERROR ≠ MSG_ACK by decide) hframe hfresh hcrc hsend
          · exact .stop
        · rename_i hcrc
          rw [Bool.not_eq_false] at hcrc
          split
          · rename_i htype
            split
            · exact .stop
            · by_cases hsend : turn.sendOk = true
              · rw [if_pos hsend]
                exact .acked hframe hfresh hcrc htype hsend
              · rw [if_neg hsend, List.append_nil]
                exact .unsent (Bool.eq_false_of_not_eq_true hsend)
          · rename_i htype
            exact .other hframe hfresh hcrc htype

theorem handleClient_data (hframe : FrameAt stream hdr payload) (hfresh : staleEpoch turn hdr = none)
    (hcrc : crcValid stream hdr payload = true) (htype : hdr.msgType = MSG_FRAME_DATA) (hsend : turn.sendOk = true) :
    handleClient false (turn :: turns) stream =
      .sent ⟨MSG_ACK, hdr.sequence, hdr.epoch, []⟩ :: handleClient false turns (stream.drop (REPL_HEADER_SIZE + hdr.length)) := by
  simp only [handleClient, hframe.header, hfresh, hframe.body, hframe.whole, hcrc, htype, hsend]
  simp

theorem handleClient_other (hframe : FrameAt stream hdr payload) (hfresh : staleEpoch turn hdr = none)
    (hcrc : crcValid stream hdr payload = true) (htype : hdr.msgType ≠ MSG_FRAME_DATA) :
    handleClient has (turn :: turns) stream = handleClient has turns (stream.drop (REPL_HEADER_SIZE + hdr.length)) := by
  simp only [handleClient, hframe.header, hfresh, hframe.body, hframe.whole, hcrc, htype]
  simp

theorem handleClient_corrupt (hframe : FrameAt stream hdr payload) (hfresh : staleEpoch turn hdr = none)
    (hcrc : crcValid stream hdr payload = false) (hsend : turn.sendOk = true) :
    handleClient has (turn :: turns) stream =
      .sent ⟨MSG_ERROR, hdr.sequence, hdr.epoch, "CRC_FAILURE".toUTF8.toList⟩ ::
        handleClient has turns (stream.drop (REPL_HEADER_SIZE + hdr.length)) := by
  simp only [handleClient, hframe.header, hfresh, hframe.body, hframe.whole, hcrc, hsend]
  simp

end turn

/-! ## Whole connections -/

theorem IntactFrame.later {turns : List ReplicationTurn} {turn : ReplicationTurn} {stream : Bytes} {k sequence : Nat}
    {payload : Bytes} (h : IntactFrame turns (stream.drop k) sequence payload) :
    IntactFrame (turn :: turns) stream sequence payload := by
  obtain ⟨part, hdr, hpart, hframe, hcrc, hsequence, t, ht, hfresh⟩ := h
  exact ⟨part, hdr, hpart.trans (List.drop_suffix k stream), hframe, hcrc, hsequence, t, List.mem_cons_of_mem _ ht, hfresh⟩

/-- What stands before the acknowledgements of the rest stands before them. -/
theorem AcksStored.cons {turns : List ReplicationTurn} {turn : ReplicationTurn} {stream : Bytes} {k : Nat}
    {actions : List ReplicationAction} (h : AcksStored turns (stream.drop k) actions) {action : ReplicationAction}
    (haction : ∀ sequence epoch, action ≠ .sent ⟨MSG_ACK, sequence, epoch, []⟩) :
    AcksStored (turn :: turns) stream (action :: actions) := by
  intro before after sequence epoch heq
  cases before with
  | nil => exact absurd (List.cons.inj heq).1 (haction sequence epoch)
  | cons a before =>
    obtain ⟨payload, hmem, hframe⟩ := h before after sequence epoch (List.cons.inj heq).2
    exact ⟨payload, List.mem_cons_of_mem _ hmem, hframe.later⟩

theorem AcksStored.later {turns : List ReplicationTurn} {turn : ReplicationTurn} {stream : Bytes} {k : Nat}
    {actions : List ReplicationAction} (h : AcksStored turns (stream.drop k) actions) : AcksStored (turn :: turns) stream actions := by
  intro before after sequence epoch heq
  obtain ⟨payload, hmem, hframe⟩ := h before after sequence epoch heq
  exact ⟨payload, hmem, hframe.later⟩

theorem acksStored_nil (turns : List ReplicationTurn) (stream : Bytes) : AcksStored turns stream [] := by
  intro before after sequence epoch heq
  simp at heq

theorem acksStored_one {turns : List ReplicationTurn} {stream : Bytes} {action : ReplicationAction}
    (haction : ∀ sequence epoch, action ≠ .sent ⟨MSG_ACK, sequence, epoch, []⟩) : AcksStored turns stream [action] := by
  intro before after sequence epoch heq
  have hmem : ReplicationAction.sent ⟨MSG_ACK, sequence, epoch, []⟩ ∈ [action] := by
    rw [heq]
    simp
  rw [List.mem_singleton] at hmem
  exact absurd hmem.symm (haction sequence epoch)

theorem not_ack_of_msgType {frame : ReplicationFrame} (h : frame.msgType ≠ MSG_ACK) (sequence : Nat) (epoch : Int) :
    ReplicationAction.sent frame ≠ .sent ⟨MSG_ACK, sequence, epoch, []⟩ := by
  intro heq
  cases heq
  exact h rfl

/-- A server whose log has an `append_raw` acknowledges what it has stored. -/
theorem acksStored_of_appendRaw (turns : List ReplicationTurn) (stream : Bytes) :
    AcksStored turns stream (handleClient true turns stream) := by
  induction turns generalizing stream with
  | nil => exact acksStored_nil _ _
  | cons turn turns ih =>
    have hdoes := handleClient_turn true turn turns stream
    generalize handleClient true (turn :: turns) stream = actions at hdoes
    cases hdoes with
    | stop => exact acksStored_nil _ _
    | stale frame h => exact acksStored_one (not_ack_of_msgType h)
    | corrupt frame h hframe hfresh hcrc hsend => exact (ih _).cons (not_ack_of_msgType h)
    | other hframe hfresh hcrc htype => exact (ih _).later
    | unsent hsend => exact acksStored_one (fun _ _ => ReplicationAction.noConfusion)
    | @acked hdr payload hframe hfresh hcrc htype hsend =>
      intro before after sequence epoch heq
      simp only [if_true, List.singleton_append] at heq
      cases before with
      | nil => cases heq
      | cons a before =>
        obtain ⟨hhead, htail⟩ := List.cons.inj heq
        clear heq
        cases before with
        | nil =>
          cases htail
          exact ⟨payload, hhead ▸ List.mem_cons_self .., stream, hdr, List.suffix_rfl, hframe, hcrc, rfl, turn, List.mem_cons_self ..,
            hfresh⟩
        | cons b before =>
          obtain ⟨p, hmem, hp⟩ := ih _ before after sequence epoch (List.cons.inj htail).2
          exact ⟨p, List.mem_cons_of_mem _ (List.mem_cons_of_mem _ hmem), hp.later⟩

/-- A server whose log has none appends nothing. -/
theorem not_appended (turns : List ReplicationTurn) (stream : Bytes) (payload : Bytes) :
    .appended payload ∉ handleClient false turns stream := by
  induction turns generalizing stream with
  | nil => simp [handleClient]
  | cons turn turns ih =>
    have hdoes := handleClient_turn false turn turns stream
    generalize handleClient false (turn :: turns) stream = actions at hdoes
    cases hdoes with
    | stop => simp
    | stale frame h => simp
    | corrupt frame h hframe hfresh hcrc hsend => simpa using ih _
    | other hframe hfresh hcrc htype => exact ih _
    | unsent hsend => simp
    | acked hframe hfresh hcrc htype hsend => simpa using ih _

/-- It acknowledges the intact data frames that it gets to. -/
theorem acked_iff (turns : List ReplicationTurn) (stream : Bytes) :
    (∃ sequence epoch, .sent ⟨MSG_ACK, sequence, epoch, []⟩ ∈ handleClient false turns stream) ↔ ReachesData turns stream := by
  induction turns generalizing stream with
  | nil => simp [handleClient, ReachesData]
  | cons turn turns ih =>
    constructor
    · rintro ⟨sequence, epoch, hmem⟩
      have hdoes := handleClient_turn false turn turns stream
      generalize handleClient false (turn :: turns) stream = actions at hdoes hmem
      cases hdoes with
      | stop => cases hmem
      | stale frame h =>
        rw [List.mem_singleton] at hmem
        exact absurd hmem.symm (not_ack_of_msgType h sequence epoch)
      | @corrupt hdr payload frame h hframe hfresh hcrc hsend =>
        rcases List.mem_cons.mp hmem with hhead | hrest
        · exact absurd hhead.symm (not_ack_of_msgType h sequence epoch)
        · exact ⟨hdr, payload, hframe, hfresh, .inr ⟨.inr ⟨hcrc, hsend⟩, (ih _).mp ⟨sequence, epoch, hrest⟩⟩⟩
      | @other hdr payload hframe hfresh hcrc htype =>
        exact ⟨hdr, payload, hframe, hfresh, .inr ⟨.inl ⟨hcrc, htype⟩, (ih _).mp ⟨sequence, epoch, hmem⟩⟩⟩
      | unsent hsend => simp at hmem
      | @acked hdr payload hframe hfresh hcrc htype hsend => exact ⟨hdr, payload, hframe, hfresh, .inl ⟨hcrc, htype, hsend⟩⟩
    · rintro ⟨hdr, payload, hframe, hfresh, ⟨hcrc, htype, hsend⟩ | ⟨⟨hcrc, htype⟩ | ⟨hcrc, hsend⟩, hrest⟩⟩
      · rw [handleClient_data hframe hfresh hcrc htype hsend]
        exact ⟨hdr.sequence, hdr.epoch, List.mem_cons_self ..⟩
      · rw [handleClient_other hframe hfresh hcrc htype]
        exact (ih _).mpr hrest
      · rw [handleClient_corrupt hframe hfresh hcrc hsend]
        obtain ⟨sequence, epoch, hmem⟩ := (ih _).mpr hrest
        exact ⟨sequence, epoch, List.mem_cons_of_mem _ hmem⟩

/-- What is acknowledged is stored, for every stream that is received, if and only if the log has an `append_raw` or the server gets
to no intact data frame. -/
theorem acks_stored_iff (hasAppendRaw : Bool) (turns : List ReplicationTurn) (stream : Bytes) :
    AcksStored turns stream (handleClient hasAppendRaw turns stream) ↔ hasAppendRaw = true ∨ ¬ReachesData turns stream := by
  cases hasAppendRaw with
  | true => exact ⟨fun _ => .inl rfl, fun _ => acksStored_of_appendRaw turns stream⟩
  | false =>
    constructor
    · intro h
      refine .inr ?_
      intro hreaches
      obtain ⟨sequence, epoch, hmem⟩ := (acked_iff turns stream).mpr hreaches
      obtain ⟨before, after, heq⟩ := List.append_of_mem hmem
      obtain ⟨payload, happended, -⟩ := h before after sequence epoch heq
      refine not_appended turns stream payload ?_
      rw [heq]
      exact List.mem_append_left _ happended
    · rintro (h | h)
      · cases h
      · intro before after sequence epoch heq
        refine absurd ((acked_iff turns stream).mp ⟨sequence, epoch, ?_⟩) h
        rw [heq]
        simp

/-- One data frame. -/
def oneDataFrame : Bytes := packReplicationFrame MSG_FRAME_DATA 1 1 [0x61]

/-- A server that writes to the log of this repository acknowledges a frame that is stored nowhere. -/
theorem acks_stored_false :
    handleClient false [⟨some 1, true, true⟩] oneDataFrame = [.sent ⟨MSG_ACK, 1, 1, []⟩] ∧
      ¬AcksStored [⟨some 1, true, true⟩] oneDataFrame (handleClient false [⟨some 1, true, true⟩] oneDataFrame) := by
  have hrun : handleClient false [⟨some 1, true, true⟩] oneDataFrame = [.sent ⟨MSG_ACK, 1, 1, []⟩] := by decide +kernel
  refine ⟨hrun, ?_⟩
  rw [hrun]
  intro h
  obtain ⟨payload, happended, -⟩ := h [] [] 1 1 rfl
  cases happended

/-! ## Exactly once -/

namespace Replication

/-- What the server has appended is a beginning of what was sent, no frame twice, and a call that has waited and returned true was
about a frame that the server has acknowledged. -/
structure ExactlyOnce (r : Replication) : Prop where
  inOrder : r.appended.map (·.2) <+: r.sent.map (·.2)
  once : (r.appended.map (·.1)).Nodup
  acked : ∀ call, (call, true) ∈ r.returned → call.waitAck = true → call.frame ∈ r.acknowledged

/-- A call may end with its frame in the spool. -/
def MaySpool : ClientPc → Bool
  | .direct _ => true
  | .awaiting _ => true
  | _ => false

/-- The sequence numbers increase, and the spool is not full when a frame is put there. -/
def Assumed (r : Replication) : ReplicationEvent → Prop
  | .sendFrame call => ∀ f ∈ r.sent, f.1 < call.frame.1
  | _ => MaySpool r.pc → r.spool.length < r.maxSpoolSize

/-- The client waits for an answer. -/
def Awaits : ClientPc → Bool
  | .awaitingHead _ => true
  | .awaiting _ => true
  | _ => false

/-- The client sends a frame and waits, now. -/
def SendsAndWaits : ClientPc → Bool
  | .flushing _ => true
  | .direct call => call.waitAck
  | _ => false

/-- A frame whose answer is waited for goes out on a connection on which nothing is open. A connection is given up or lost only
while nothing is on its way to the server but a frame that is waited for, and not when that one was appended already; and the server
appends nothing from a connection that was given up. -/
def Regular (r : Replication) : ReplicationEvent → Prop
  | .sendFrame _ => True
  | .connect _ => r.pc = .idle → r.onWire = []
  | .close => r.pc = .idle → r.onWire = []
  | .sendall true => SendsAndWaits r.pc → r.sock = none ∨ r.sock = some ⟨[], []⟩
  | .sendall false => r.onWire = []
  | .recv => True
  | .recvFails => Awaits r.pc → ∀ link ∈ r.sock, link.toClient = []
  | .advance => True
  | .serve => True
  | .serveClosed _ => False
  | .refuse => Awaits r.pc ∨ r.onWire = []
  | .drop => Awaits r.pc ∨ r.onWire = []

/-- A connection on which one frame is open: it is on its way, answered, lost or refused. -/
inductive Open (f : SpooledFrame) : ReplicationLink → Bool → Prop
  | onItsWay : Open f ⟨[f], []⟩ false
  | answered : Open f ⟨[], [.ack f.1]⟩ true
  | lost : Open f ⟨[], []⟩ false
  | refused : Open f ⟨[], [.error]⟩ false

/-- Every frame that was sent is appended, on the wire, in the spool or with the call, in this order. -/
def Accounted (r : Replication) : Prop :=
  match r.pc with
  | .idle => r.sent = r.appended ++ r.onWire ++ r.spool
  | .flushing call => r.sent = r.appended ++ r.onWire ++ r.spool ++ [call.frame]
  | .direct call => r.sent = r.appended ++ r.onWire ++ r.spool ++ [call.frame]
  | .awaitingHead call => ∃ head rest link served, r.spool = head :: rest ∧ r.sock = some link ∧ Open head link served ∧
      r.sent = r.appended ++ (if served then rest else head :: rest) ++ [call.frame]
  | .awaiting call => r.spool = [] ∧ ∃ link served, r.sock = some link ∧ Open call.frame link served ∧
      r.sent = r.appended ++ (if served then [] else [call.frame]) ∧ (served = true → call.frame ∈ r.acknowledged)

structure Inv (r : Replication) : Prop where
  accounted : r.Accounted
  increasing : (r.sent.map (·.1)).Pairwise (· < ·)
  acked : ∀ call, (call, true) ∈ r.returned → call.waitAck = true → call.frame ∈ r.acknowledged

theorem Inv.exactlyOnce {r : Replication} (h : r.Inv) : r.ExactlyOnce := by
  have hlead : r.appended <+: r.sent := by
    have hacc := h.accounted
    unfold Accounted at hacc
    split at hacc
    · rw [hacc, List.append_assoc]
      exact List.prefix_append ..
    · rw [hacc, List.append_assoc, List.append_assoc]
      exact List.prefix_append ..
    · rw [hacc, List.append_assoc, List.append_assoc]
      exact List.prefix_append ..
    · obtain ⟨head, rest, link, served, -, -, -, hsent⟩ := hacc
      rw [hsent, List.append_assoc]
      exact List.prefix_append ..
    · obtain ⟨-, link, served, -, -, hsent, -⟩ := hacc
      rw [hsent]
      exact List.prefix_append ..
  refine ⟨hlead.map _, ?_, h.acked⟩
  have hsub := (hlead.map (·.1)).sublist
  exact (h.increasing.sublist hsub).imp (fun hlt => Nat.ne_of_lt hlt)

theorem onWire_some {r : Replication} {link : ReplicationLink} (h : r.sock = some link) : r.onWire = link.toServer := by
  unfold onWire
  rw [h]

theorem onWire_none {r : Replication} (h : r.sock = none) : r.onWire = [] := by
  unfold onWire
  rw [h]

/-- Spooling the frame of the call, with nothing on the wire. -/
theorem accounted_spoolFrame {r : Replication} {call : SendCall} (hroom : r.spool.length < r.maxSpoolSize)
    (h : r.sent = r.appended ++ r.onWire ++ r.spool ++ [call.frame]) : (r.spoolFrame call).Accounted := by
  unfold Accounted spoolFrame
  rw [if_neg (Nat.not_le.mpr hroom)]
  exact h.trans (List.append_assoc ..)

theorem Inv.spoolFrame {r : Replication} (h : r.Inv) {s : Replication} {call : SendCall} (hsent : s.sent = r.sent)
    (hreturned : s.returned = r.returned) (hacked : s.acknowledged = r.acknowledged) (hroom : s.spool.length < s.maxSpoolSize)
    (hacc : s.sent = s.appended ++ s.onWire ++ s.spool ++ [call.frame]) : (s.spoolFrame call).Inv := by
  refine ⟨accounted_spoolFrame hroom hacc, ?_, ?_⟩
  · have hincreasing := h.increasing
    rwa [← hsent] at hincreasing
  · intro call' hcall hwait
    rcases List.mem_append.mp hcall with hold | hnew
    · rw [hreturned] at hold
      have hmem := h.acked call' hold hwait
      rwa [← hacked] at hmem
    · simp at hnew

theorem Inv.sendFrame {r : Replication} (h : r.Inv) {call : SendCall} (ha : ∀ f ∈ r.sent, f.1 < call.frame.1) (hpc : r.pc = .idle) :
    ({ r with pc := if r.spool = [] then .direct call else .flushing call, sent := r.sent ++ [call.frame] } : Replication).Inv := by
  have hacc := h.accounted
  unfold Accounted at hacc
  rw [hpc] at hacc
  dsimp only at hacc
  refine ⟨?_, ?_, h.acked⟩
  · unfold Accounted
    by_cases hspool : r.spool = []
    · rw [if_pos hspool]
      exact congrArg (· ++ [call.frame]) hacc
    · rw [if_neg hspool]
      exact congrArg (· ++ [call.frame]) hacc
  · rw [List.map_append, List.pairwise_append]
    refine ⟨h.increasing, List.pairwise_singleton .., ?_⟩
    intro a ha' b hb
    obtain ⟨f, hf, rfl⟩ := List.mem_map.mp ha'
    rw [List.map_singleton, List.mem_singleton] at hb
    rw [hb]
    exact ha f hf

theorem Inv.connectStep {r : Replication} (h : r.Inv) (ok : Bool) (hr : r.pc = .idle → r.onWire = []) : (r.connectStep ok).Inv := by
  have hacc := h.accounted
  unfold Accounted at hacc
  unfold Replication.connectStep
  split
  · rename_i call hpc
    rw [hpc] at hacc
    split
    · exact h
    · rename_i hsock
      split
      · refine ⟨?_, h.increasing, h.acked⟩
        rw [onWire_none hsock] at hacc
        unfold Accounted
        dsimp only
        rw [hpc]
        exact hacc
      · exact ⟨hacc, h.increasing, h.acked⟩
  · rename_i hpc
    rw [hpc] at hacc
    dsimp only at hacc
    rw [hr hpc] at hacc
    split
    · refine ⟨?_, h.increasing, h.acked⟩
      unfold Accounted giveUp
      rw [hpc]
      exact hacc
    · refine ⟨?_, h.increasing, h.acked⟩
      unfold Accounted giveUp
      rw [hpc]
      exact hacc
  · exact h

theorem Inv.closeStep {r : Replication} (h : r.Inv) (hpc : r.pc = .idle) (hr : r.onWire = []) : r.giveUp.Inv := by
  have hacc := h.accounted
  unfold Accounted at hacc
  rw [hpc] at hacc
  dsimp only at hacc
  rw [hr] at hacc
  refine ⟨?_, h.increasing, h.acked⟩
  unfold Accounted giveUp
  rw [hpc]
  exact hacc

theorem Inv.sendallOk {r : Replication} (h : r.Inv) (hr : SendsAndWaits r.pc → r.sock = none ∨ r.sock = some ⟨[], []⟩) :
    (r.sendallStep true).Inv := by
  have hacc := h.accounted
  unfold Accounted at hacc
  unfold sendallStep
  split
  · rename_i call link head rest hpc hsock hspool
    rw [hpc] at hacc hr
    rcases hr rfl with hnone | hempty
    · rw [hnone] at hsock
      cases hsock
    · rw [hempty] at hsock
      cases hsock
      rw [if_pos rfl]
      refine ⟨?_, h.increasing, h.acked⟩
      unfold Accounted transmit
      refine ⟨head, rest, _, false, hspool, rfl, .onItsWay, ?_⟩
      dsimp only at hacc ⊢
      rw [hacc, onWire_some hempty, hspool]
      simp
  · rename_i call link hpc hsock hspool
    rw [hpc] at hacc hr
    rw [if_pos rfl]
    dsimp only at hacc
    rw [onWire_some hsock, hspool, List.append_nil] at hacc
    split
    · rename_i hwait
      rcases hr hwait with hnone | hempty
      · rw [hnone] at hsock
        cases hsock
      · rw [hempty] at hsock
        cases hsock
        refine ⟨?_, h.increasing, h.acked⟩
        unfold Accounted transmit
        refine ⟨hspool, _, false, rfl, .onItsWay, ?_, nofun⟩
        dsimp only at hacc ⊢
        rw [hacc]
        simp
    · rename_i hwait
      refine ⟨?_, h.increasing, ?_⟩
      · unfold Accounted finish transmit onWire
        dsimp only
        rw [hacc, hspool]
        simp
      · intro call' hcall hwait'
        rcases List.mem_append.mp hcall with hold | hnew
        · exact h.acked call' hold hwait'
        · rw [List.mem_singleton, Prod.mk.injEq] at hnew
          rw [hnew.1] at hwait'
          exact absurd hwait' hwait
  · exact h

theorem Inv.sendallFails {r : Replication} (h : r.Inv) (ha : MaySpool r.pc → r.spool.length < r.maxSpoolSize) (hr : r.onWire = []) :
    (r.sendallStep false).Inv := by
  have hacc := h.accounted
  unfold Accounted at hacc
  unfold sendallStep
  split
  · rename_i call link head rest hpc hsock hspool
    rw [hpc] at hacc
    dsimp only at hacc
    rw [hr] at hacc
    refine ⟨?_, h.increasing, h.acked⟩
    exact hacc
  · rename_i call link hpc hsock hspool
    rw [hpc] at hacc ha
    dsimp only at hacc
    rw [hr] at hacc
    exact h.spoolFrame rfl rfl rfl (ha rfl) hacc
  · exact h

theorem Inv.recvStep {r : Replication} (h : r.Inv) (ha : MaySpool r.pc → r.spool.length < r.maxSpoolSize) : r.recvStep.Inv := by
  have hacc := h.accounted
  unfold Accounted at hacc
  unfold Replication.recvStep
  split
  · rename_i toServer reply replies hsock
    dsimp only
    split
    · rename_i call s hpc
      rw [hpc] at hacc
      obtain ⟨head, rest, link, served, hspool, hlink, hopen, hsent⟩ := hacc
      rw [hlink] at hsock
      cases hsock
      cases hopen
      refine ⟨?_, h.increasing, h.acked⟩
      unfold Accounted onWire
      dsimp only
      rw [hsent, hspool]
      simp
    · rename_i call hpc
      rw [hpc] at hacc
      obtain ⟨head, rest, link, served, hspool, hlink, hopen, hsent⟩ := hacc
      rw [hlink] at hsock
      cases hsock
      cases hopen
      refine ⟨?_, h.increasing, h.acked⟩
      unfold Accounted giveUp onWire
      dsimp only
      rw [hsent, hspool]
      simp
    · rename_i call s hpc
      rw [hpc] at hacc
      obtain ⟨hspool, link, served, hlink, hopen, hsent, hserved⟩ := hacc
      rw [hlink] at hsock
      cases hsock
      cases hopen
      refine ⟨?_, h.increasing, ?_⟩
      · unfold Accounted finish onWire
        dsimp only
        rw [hsent, hspool]
        simp
      · intro call' hcall hwait
        rcases List.mem_append.mp hcall with hold | hnew
        · exact h.acked call' hold hwait
        · rw [List.mem_singleton, Prod.mk.injEq] at hnew
          rw [hnew.1]
          exact hserved rfl
    · rename_i call hpc
      rw [hpc] at hacc ha
      obtain ⟨hspool, link, served, hlink, hopen, hsent, hserved⟩ := hacc
      rw [hlink] at hsock
      cases hsock
      cases hopen
      refine h.spoolFrame rfl rfl rfl (ha rfl) ?_
      unfold giveUp onWire
      dsimp only
      rw [hsent, hspool]
      simp
    · exact h
  · exact h

theorem Inv.recvFailsStep {r : Replication} (h : r.Inv) (ha : MaySpool r.pc → r.spool.length < r.maxSpoolSize)
    (hr : Awaits r.pc → ∀ link ∈ r.sock, link.toClient = []) : r.recvFailsStep.Inv := by
  have hacc := h.accounted
  unfold Accounted at hacc
  unfold Replication.recvFailsStep
  split
  · rename_i call hpc
    rw [hpc] at hacc hr
    obtain ⟨head, rest, link, served, hspool, hlink, hopen, hsent⟩ := hacc
    have hempty := hr rfl link hlink
    refine ⟨?_, h.increasing, h.acked⟩
    have hnot : served = false := by
      cases hopen
      · rfl
      · cases hempty
      · rfl
      · rfl
    subst hnot
    unfold Accounted giveUp onWire
    dsimp only
    rw [hsent, hspool]
    simp
  · rename_i call hpc
    rw [hpc] at hacc ha hr
    obtain ⟨hspool, link, served, hlink, hopen, hsent, hserved⟩ := hacc
    have hempty := hr rfl link hlink
    have hnot : served = false := by
      cases hopen
      · rfl
      · cases hempty
      · rfl
      · rfl
    subst hnot
    refine h.spoolFrame rfl rfl rfl (ha rfl) ?_
    unfold giveUp onWire
    dsimp only
    rw [hsent, hspool]
    simp
  · exact h

theorem Inv.advanceStep {r : Replication} (h : r.Inv) (ha : MaySpool r.pc → r.spool.length < r.maxSpoolSize) : r.advanceStep.Inv := by
  have hacc := h.accounted
  unfold Accounted at hacc
  unfold Replication.advanceStep
  split
  · rename_i call hpc
    rw [hpc] at hacc
    split
    · exact ⟨hacc, h.increasing, h.acked⟩
    · exact h
  · rename_i call hpc
    rw [hpc] at hacc ha
    split
    · exact h.spoolFrame rfl rfl rfl (ha rfl) hacc
    · exact h
  · exact h

theorem Inv.serveStep {r : Replication} (h : r.Inv) : r.serveStep.Inv := by
  have hacc := h.accounted
  unfold Accounted at hacc
  unfold Replication.serveStep
  split
  · rename_i frame toServer toClient hsock
    have hacked : ∀ call, (call, true) ∈ r.returned → call.waitAck = true → call.frame ∈ r.acknowledged ++ [frame] :=
      fun call hcall hwait => List.mem_append_left _ (h.acked call hcall hwait)
    refine ⟨?_, h.increasing, hacked⟩
    unfold Accounted
    dsimp only
    split at hacc
    · rw [onWire_some hsock] at hacc
      simp only [onWire, hacc, List.append_assoc, List.cons_append, List.nil_append]
    · rw [onWire_some hsock] at hacc
      simp only [onWire, hacc, List.append_assoc, List.cons_append, List.nil_append]
    · rw [onWire_some hsock] at hacc
      simp only [onWire, hacc, List.append_assoc, List.cons_append, List.nil_append]
    · rename_i call hpc
      obtain ⟨head, rest, link, served, hspool, hlink, hopen, hsent⟩ := hacc
      rw [hlink] at hsock
      cases hsock
      cases hopen
      exact ⟨frame, rest, _, true, hspool, rfl, .answered, by rw [hsent]; simp⟩
    · rename_i call hpc
      obtain ⟨hspool, link, served, hlink, hopen, hsent, hserved⟩ := hacc
      rw [hlink] at hsock
      cases hsock
      cases hopen
      exact ⟨hspool, _, true, rfl, .answered, by rw [hsent]; simp, fun _ => List.mem_append_right _ (List.mem_singleton_self _)⟩
  · exact h

/-- What is on the wire is lost; a frame that is waited for may be refused. -/
theorem Inv.lose {r : Replication} (h : r.Inv) {link : ReplicationLink} (hsock : r.sock = some link) {replies : List ReplicationReply}
    (hreplies : replies = [] ∨ (replies = [.error] ∧ link.toServer ≠ [])) (hr : Awaits r.pc ∨ r.onWire = []) :
    ({ r with sock := some ⟨[], link.toClient ++ replies⟩ } : Replication).Inv := by
  have hacc := h.accounted
  refine ⟨?_, h.increasing, h.acked⟩
  unfold Accounted at hacc ⊢
  dsimp only
  split at hacc
  · rename_i hpc
    rw [hpc] at hr
    rw [hr.resolve_left (by simp [Awaits])] at hacc
    exact hacc
  · rename_i call hpc
    rw [hpc] at hr
    rw [hr.resolve_left (by simp [Awaits])] at hacc
    exact hacc
  · rename_i call hpc
    rw [hpc] at hr
    rw [hr.resolve_left (by simp [Awaits])] at hacc
    exact hacc
  · obtain ⟨head, rest, link', served, hspool, hlink, hopen, hsent⟩ := hacc
    rw [hlink] at hsock
    cases hsock
    rcases hreplies with rfl | ⟨rfl, hne⟩
    · cases hopen
      · exact ⟨head, rest, _, false, hspool, rfl, .lost, hsent⟩
      · exact ⟨head, rest, _, true, hspool, rfl, .answered, hsent⟩
      · exact ⟨head, rest, _, false, hspool, rfl, .lost, hsent⟩
      · exact ⟨head, rest, _, false, hspool, rfl, .refused, hsent⟩
    · cases hopen
      · exact ⟨head, rest, _, false, hspool, rfl, .refused, hsent⟩
      · exact absurd rfl hne
      · exact absurd rfl hne
      · exact absurd rfl hne
  · obtain ⟨hspool, link', served, hlink, hopen, hsent, hserved⟩ := hacc
    rw [hlink] at hsock
    cases hsock
    rcases hreplies with rfl | ⟨rfl, hne⟩
    · cases hopen
      · exact ⟨hspool, _, false, rfl, .lost, hsent, hserved⟩
      · exact ⟨hspool, _, true, rfl, .answered, hsent, hserved⟩
      · exact ⟨hspool, _, false, rfl, .lost, hsent, hserved⟩
      · exact ⟨hspool, _, false, rfl, .refused, hsent, hserved⟩
    · cases hopen
      · exact ⟨hspool, _, false, rfl, .refused, hsent, hserved⟩
      · exact absurd rfl hne
      · exact absurd rfl hne
      · exact absurd rfl hne

/-- Every step of a regular run keeps the account. -/
theorem Inv.step {r : Replication} (h : r.Inv) {e : ReplicationEvent} (ha : r.Assumed e) (hr : r.Regular e) : (r.step e).Inv := by
  cases e with
  | sendFrame call =>
    simp only [Replication.step]
    split
    · rename_i hpc
      exact h.sendFrame ha hpc
    · exact h
  | connect ok => exact h.connectStep ok hr
  | close =>
    simp only [Replication.step]
    split
    · rename_i hpc
      exact h.closeStep hpc (hr hpc)
    · exact h
  | sendall ok =>
    cases ok with
    | true => exact h.sendallOk hr
    | false => exact h.sendallFails ha hr
  | recv => exact h.recvStep ha
  | recvFails => exact h.recvFailsStep ha hr
  | advance => exact h.advanceStep ha
  | serve => exact h.serveStep
  | serveClosed k => exact hr.elim
  | refuse =>
    simp only [Replication.step, refuseStep]
    split
    · rename_i frame toServer toClient hsock
      exact h.lose hsock (.inr ⟨rfl, List.cons_ne_nil _ _⟩) hr
    · exact h
  | drop =>
    simp only [Replication.step, dropStep]
    split
    · rename_i toServer toClient hsock
      have hlost := h.lose hsock (.inl rfl) hr
      rwa [List.append_nil] at hlost
    · exact h

theorem inv_new (maxSpoolSize : Nat) : (new maxSpoolSize).Inv := by
  refine ⟨rfl, List.Pairwise.nil, ?_⟩
  intro call hcall
  cases hcall

/-- In every run whose steps are regular, frames are appended exactly once and in order, and a call that waits returns true only for
a frame that was acknowledged. -/
theorem replication_exactly_once (maxSpoolSize : Nat) (es : List ReplicationEvent)
    (h : Along step (fun r e => r.Assumed e ∧ r.Regular e) (new maxSpoolSize) es) :
    ∀ fs, fs <+: es → (runFrom step (new maxSpoolSize) fs).ExactlyOnce := by
  intro fs hfs
  have hinv := h.inv_prefix (I := Inv) (fun _ _ hr hok => hr.step hok.1 hok.2) (inv_new maxSpoolSize) hfs
  exact hinv.exactlyOnce

/-- A frame is spooled, sent on a connection that is refused the first time, and acknowledged the second time. -/
def spooledRun : List ReplicationEvent :=
  [.sendFrame ⟨(1, [0x61]), true⟩, .advance, .sendFrame ⟨(2, [0x62]), true⟩, .connect true, .sendall true, .drop, .recvFails, .advance,
    .connect true, .sendFrame ⟨(3, [0x63]), true⟩, .sendall true, .serve, .recv, .sendall true, .serve, .recv, .advance, .sendall true,
    .serve, .recv]

instance (r : Replication) : (e : ReplicationEvent) → Decidable (r.Assumed e)
  | .sendFrame call => inferInstanceAs (Decidable (∀ f ∈ r.sent, f.1 < call.frame.1))
  | .connect _ | .close | .sendall _ | .recv | .recvFails | .advance | .serve | .serveClosed _ | .refuse | .drop =>
    inferInstanceAs (Decidable (MaySpool r.pc → r.spool.length < r.maxSpoolSize))

instance (r : Replication) : (e : ReplicationEvent) → Decidable (r.Regular e)
  | .sendFrame _ | .recv | .advance | .serve => inferInstanceAs (Decidable True)
  | .connect _ | .close => inferInstanceAs (Decidable (r.pc = .idle → r.onWire = []))
  | .sendall true => inferInstanceAs (Decidable (SendsAndWaits r.pc → r.sock = none ∨ r.sock = some ⟨[], []⟩))
  | .sendall false => inferInstanceAs (Decidable (r.onWire = []))
  | .recvFails => inferInstanceAs (Decidable (Awaits r.pc → ∀ link ∈ r.sock, link.toClient = []))
  | .serveClosed _ => inferInstanceAs (Decidable False)
  | .refuse | .drop => inferInstanceAs (Decidable (Awaits r.pc ∨ r.onWire = []))

theorem spooledRun_exactly_once :
    (runFrom step (new 10) spooledRun).appended = [(1, [0x61]), (2, [0x62]), (3, [0x63])] ∧
      (runFrom step (new 10) spooledRun).ExactlyOnce :=
  ⟨by decide, replication_exactly_once 10 spooledRun (by decide) spooledRun List.prefix_rfl⟩

/-- The server appends a frame and the connection breaks before the acknowledgement is read; the frame is sent again. -/
def lostAckRun : List ReplicationEvent :=
  [.connect true, .sendFrame ⟨(1, [0x61]), true⟩, .sendall true, .serve, .recvFails, .sendFrame ⟨(2, [0x62]), true⟩, .connect true,
    .sendall true, .serve]

/-- A frame whose acknowledgement was lost is appended twice. -/
theorem replication_false :
    (runFrom step (new 10) lostAckRun).appended = [(1, [0x61]), (1, [0x61])] ∧
      ¬(runFrom step (new 10) lostAckRun).ExactlyOnce := by
  have hrun : (runFrom step (new 10) lostAckRun).appended = [(1, [0x61]), (1, [0x61])] := by decide
  refine ⟨hrun, ?_⟩
  intro h
  have honce := h.once
  rw [hrun] at honce
  exact absurd honce (by decide)

end Replication

end Mdrap
