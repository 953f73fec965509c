import Mathlib.Data.List.Dedup
import Mdrap.Lib.Runs
import Mdrap.Feed.Fanout

/-!
# Fan-out accounts

What a session handed out, what is in its queue and what the dispatcher and the incoming queue still have for it come one after the
other in what was published. The counters of a session agree with its queue in every state; `total_dropped` agrees with the
sessions unless two threads count at once, and a session is put out for the drops of another one only if its id was taken again.
-/

namespace Mdrap

open Lib

/-! ## What lies ahead of a session -/

/-- The frames of a work list for a session. -/
def offered (session : Nat) (work : List (FanoutFrame × Nat)) : List FanoutFrame := (work.filter (fun x => x.2 = session)).map (·.1)

theorem offered_cons (session : Nat) (x : FanoutFrame × Nat) (work : List (FanoutFrame × Nat)) :
    offered session (x :: work) = (if x.2 = session then [x.1] else []) ++ offered session work := by
  unfold offered
  split
  · simp [*]
  · simp [*]

theorem offered_append (session : Nat) (work work' : List (FanoutFrame × Nat)) :
    offered session (work ++ work') = offered session work ++ offered session work' := by simp [offered]

/-- Each session is offered a batch once. -/
theorem offered_batch {sessions : List Nat} (hnodup : sessions.Nodup) (batch : List FanoutFrame) (session : Nat) :
    (offered session (batch.flatMap (fun frame => sessions.map (fun s => (frame, s))))).Sublist batch := by
  have hone : ∀ frame : FanoutFrame, (offered session (sessions.map (fun s => (frame, s)))).Sublist [frame] := by
    intro frame
    have hcount : (sessions.filter (fun s => decide (s = session))).length ≤ 1 := by
      rw [← List.countP_eq_length_filter]
      exact List.nodup_iff_count.mp hnodup session
    have hoffered : offered session (sessions.map (fun s => (frame, s))) =
        List.replicate (sessions.filter (fun s => decide (s = session))).length frame := by
      unfold offered
      rw [List.filter_map, List.map_map]
      exact List.map_const'
    rw [hoffered]
    exact (List.replicate_sublist_replicate frame).mpr hcount
  induction batch with
  | nil => exact List.Sublist.refl _
  | cons frame batch ih =>
    rw [List.flatMap_cons, offered_append]
    exact (hone frame).append ih

namespace DispatchPhase

/-- The frames that the dispatcher has for a session. -/
def items (session : Nat) : DispatchPhase → List FanoutFrame
  | .waiting => []
  | .collecting batch => batch
  | .offering _ _ work => offered session work
  | .pushing _ _ frame session' work => (if session' = session then [frame] else []) ++ offered session work
  | .counting _ _ frame session' work _ => (if session' = session then [frame] else []) ++ offered session work
  | .stopped => []

/-- The sessions that the dispatcher collected. -/
def collected : DispatchPhase → List Nat
  | .offering sessions .. => sessions
  | .pushing sessions .. => sessions
  | .counting sessions .. => sessions
  | _ => []

/-- The ids that the dispatcher is going to evict. -/
def listed : DispatchPhase → List String
  | .offering _ toEvict _ => toEvict
  | .pushing _ toEvict .. => toEvict
  | .counting _ toEvict .. => toEvict
  | _ => []

/-- The sessions that the dispatcher has frames for are among those it collected. -/
def Closed : DispatchPhase → Prop
  | .offering sessions _ work => ∀ x ∈ work, x.2 ∈ sessions
  | .pushing sessions _ _ session work => session ∈ sessions ∧ ∀ x ∈ work, x.2 ∈ sessions
  | .counting sessions _ _ session work _ => session ∈ sessions ∧ ∀ x ∈ work, x.2 ∈ sessions
  | _ => True

/-- The frame that the dispatcher has in hand, and the session it is for. -/
def hand : DispatchPhase → Option (FanoutFrame × Nat)
  | .pushing _ _ frame session _ => some (frame, session)
  | .counting _ _ frame session _ _ => some (frame, session)
  | _ => none

/-- The `total_dropped` that the dispatcher read. -/
def reading : DispatchPhase → Option Nat
  | .counting _ _ _ _ _ read => some read
  | _ => none

end DispatchPhase

namespace AsyncFanoutManager

/-- What is still to come to a session. -/
def ahead (session : Nat) (m : AsyncFanoutManager) : List FanoutFrame := m.dispatcher.items session ++ m.incomingQueue

/-- The frames that all sessions dropped. -/
def droppedBySessions (m : AsyncFanoutManager) : Nat := m.sessions.weight (·.framesDropped)

end AsyncFanoutManager

/-- The counters of a session agree with its queue, and its frames come in the order in which they were published. -/
structure AsyncConsumerSession.Ok (published ahead : List FanoutFrame) (s : AsyncConsumerSession) : Prop where
  balanced : s.framesDispatched = s.framesConsumed + s.framesDropped + s.queue.length
  ordered : (s.handed ++ s.queue ++ ahead.filter s.wants).Sublist (published.filter s.wants)

namespace AsyncFanoutManager

/-- Sessions under their ids, and ids to evict of sessions with enough drops. -/
structure Named (m : AsyncFanoutManager) : Prop where
  distinct : m.sessions.Distinct
  ids : m.consumers.Distinct
  fresh : ∀ session s, m.sessions.get? session = some s → session < m.nextSession
  named : ∀ id session, m.consumers.get? id = some session → ∃ s, m.sessions.get? session = some s ∧ s.consumerId = id
  present : ∀ session ∈ m.dispatcher.collected, ∃ s, m.sessions.get? session = some s
  unique : ∀ session ∈ m.dispatcher.collected, ∀ session' ∈ m.dispatcher.collected, ∀ s s',
    m.sessions.get? session = some s → m.sessions.get? session' = some s' → s.consumerId = s'.consumerId → session = session'
  justified : ∀ id ∈ m.dispatcher.listed, ∃ session ∈ m.dispatcher.collected, ∃ s, m.sessions.get? session = some s ∧
    s.consumerId = id ∧ m.evictionDropThreshold ≤ s.framesDropped
  wanted : ∀ frame session, m.dispatcher.hand = some (frame, session) → ∃ s, m.sessions.get? session = some s ∧ s.wants frame = true

/-- The frames of every session. -/
structure Frames (m : AsyncFanoutManager) : Prop where
  ahead : ∀ session, (m.ahead session).Sublist m.published
  sessions : ∀ session s, m.sessions.get? session = some s → s.Ok m.published (m.ahead session)

/-- One thread counts a drop at a time, and has read what is there. -/
def Counted (m : AsyncFanoutManager) : Prop :=
  match m.publisher, m.dispatcher.reading with
  | none, none => m.totalDropped = m.discarded + m.droppedBySessions
  | some (_, read), none => read = m.totalDropped ∧ m.totalDropped + 1 = m.discarded + m.droppedBySessions
  | none, some read => read = m.totalDropped ∧ m.totalDropped + 1 = m.discarded + m.droppedBySessions
  | some _, some _ => False

/-! ## Sessions that stay what they are -/

/-- A session keeps its id and its symbols, and its drops do not become fewer. -/
structure Follows (s s' : AsyncConsumerSession) : Prop where
  consumerId : s'.consumerId = s.consumerId
  subscribedSymbols : s'.subscribedSymbols = s.subscribedSymbols
  framesDropped : s.framesDropped ≤ s'.framesDropped

/-- All sessions stay, and go on. -/
def Grows (d d' : Dict Nat AsyncConsumerSession) : Prop := ∀ session s, d.get? session = some s →
  ∃ s', d'.get? session = some s' ∧ Follows s s'

theorem Grows.refl (d : Dict Nat AsyncConsumerSession) : Grows d d := fun _ s hs => ⟨s, hs, rfl, rfl, Nat.le_refl _⟩

theorem Grows.set {d : Dict Nat AsyncConsumerSession} {session : Nat} {s' : AsyncConsumerSession}
    (h : ∀ s, d.get? session = some s → Follows s s') : Grows d (d.set session s') := by
  intro session' s hs
  rw [Dict.get?_set]
  split
  · rename_i heq
    subst heq
    exact ⟨s', rfl, h s hs⟩
  · exact ⟨s, hs, rfl, rfl, Nat.le_refl _⟩

variable {m m' : AsyncFanoutManager}

/-- Ids and sessions that grow are named as before, and so are those that the dispatcher has. -/
theorem Named.grow (h : m.Named) (hgrows : Grows m.sessions m'.sessions) (hdistinct : m'.sessions.Distinct)
    (hids : m'.consumers.Distinct)
    (hfresh : ∀ session s, m'.sessions.get? session = some s → session < m'.nextSession)
    (hnamed : ∀ id session, m'.consumers.get? id = some session →
      m.consumers.get? id = some session ∨ ∃ s, m'.sessions.get? session = some s ∧ s.consumerId = id)
    (hthreshold : m'.evictionDropThreshold = m.evictionDropThreshold)
    (hcollected : m'.dispatcher.collected = m.dispatcher.collected ∨ m'.dispatcher.collected = [])
    (hlisted : ∀ id ∈ m'.dispatcher.listed, id ∈ m.dispatcher.listed ∧ m'.dispatcher.collected = m.dispatcher.collected ∨
      ∃ session ∈ m'.dispatcher.collected, ∃ s, m'.sessions.get? session = some s ∧ s.consumerId = id ∧
        m.evictionDropThreshold ≤ s.framesDropped)
    (hhand : ∀ frame session, m'.dispatcher.hand = some (frame, session) → m.dispatcher.hand = some (frame, session) ∨
      ∃ s, m.sessions.get? session = some s ∧ s.wants frame = true) : m'.Named := by
  have hsub : ∀ session ∈ m'.dispatcher.collected, session ∈ m.dispatcher.collected := by
    intro session hsession
    rcases hcollected with heq | heq
    · rwa [heq] at hsession
    · rw [heq] at hsession
      cases hsession
  refine ⟨hdistinct, hids, hfresh, ?_, ?_, ?_, ?_, ?_⟩
  · intro id session hid
    rcases hnamed id session hid with hold | hnew
    · obtain ⟨s, hs, hname⟩ := h.named id session hold
      obtain ⟨s', hs', hfollows⟩ := hgrows session s hs
      exact ⟨s', hs', hfollows.consumerId.trans hname⟩
    · exact hnew
  · intro session hsession
    obtain ⟨s, hs⟩ := h.present session (hsub session hsession)
    obtain ⟨s', hs', -⟩ := hgrows session s hs
    exact ⟨s', hs'⟩
  · intro session hsession session' hsession' s s' hs hs' heq
    obtain ⟨o, ho⟩ := h.present session (hsub session hsession)
    obtain ⟨o', ho'⟩ := h.present session' (hsub session' hsession')
    obtain ⟨t, ht, hfollows⟩ := hgrows session o ho
    obtain ⟨t', ht', hfollows'⟩ := hgrows session' o' ho'
    rw [hs] at ht
    rw [hs'] at ht'
    cases ht
    cases ht'
    refine h.unique session (hsub session hsession) session' (hsub session' hsession') o o' ho ho' ?_
    rw [← hfollows.consumerId, ← hfollows'.consumerId, heq]
  · intro id hid
    rw [hthreshold]
    rcases hlisted id hid with ⟨hold, heq⟩ | hnew
    · obtain ⟨session, hsession, s, hs, hname, hle⟩ := h.justified id hold
      obtain ⟨s', hs', hfollows⟩ := hgrows session s hs
      refine ⟨session, heq ▸ hsession, s', hs', hfollows.consumerId.trans hname, ?_⟩
      have hmore := hfollows.framesDropped
      omega
    · exact hnew
  · intro frame session hhas
    have hold : ∃ s, m.sessions.get? session = some s ∧ s.wants frame = true := by
      rcases hhand frame session hhas with hold | hnew
      · exact h.wanted frame session hold
      · exact hnew
    obtain ⟨s, hs, hwants⟩ := hold
    obtain ⟨s', hs', hfollows⟩ := hgrows session s hs
    refine ⟨s', hs', ?_⟩
    rw [AsyncConsumerSession.wants, hfollows.subscribedSymbols]
    exact hwants

/-- Nothing of the names changes. -/
theorem Named.congr (h : m.Named) (hsessions : m'.sessions = m.sessions) (hconsumers : m'.consumers = m.consumers)
    (hnext : m'.nextSession = m.nextSession) (hthreshold : m'.evictionDropThreshold = m.evictionDropThreshold)
    (hdispatcher : m'.dispatcher = m.dispatcher) : m'.Named := by
  refine ⟨?_, ?_, ?_, ?_, ?_, ?_, ?_, ?_⟩
  · exact hsessions ▸ h.distinct
  · exact hconsumers ▸ h.ids
  · rw [hsessions, hnext]
    exact h.fresh
  · rw [hsessions, hconsumers]
    exact h.named
  · rw [hsessions, hdispatcher]
    exact h.present
  · rw [hsessions, hdispatcher]
    exact h.unique
  · rw [hsessions, hdispatcher, hthreshold]
    exact h.justified
  · rw [hsessions, hdispatcher]
    exact h.wanted

/-- A session changes. -/
theorem Named.setSession (h : m.Named) {session : Nat} {s : AsyncConsumerSession} (hs : m.sessions.get? session = some s)
    (s' : AsyncConsumerSession) (hfollows : Follows s s') (hsessions : m'.sessions = m.sessions.set session s') (hconsumers : m'.consumers = m.consumers)
    (hnext : m'.nextSession = m.nextSession) (hthreshold : m'.evictionDropThreshold = m.evictionDropThreshold)
    (hcollected : m'.dispatcher.collected = m.dispatcher.collected)
    (hlisted : ∀ id ∈ m'.dispatcher.listed, id ∈ m.dispatcher.listed ∨ id = s.consumerId ∧ session ∈ m.dispatcher.collected ∧
      m.evictionDropThreshold ≤ s'.framesDropped)
    (hhand : ∀ x, m'.dispatcher.hand = some x → m.dispatcher.hand = some x) : m'.Named := by
  refine h.grow ?_ ?_ ?_ ?_ ?_ hthreshold (.inl hcollected) ?_ (fun frame session hhas => .inl (hhand _ hhas))
  · rw [hsessions]
    refine .set ?_
    intro o ho
    rw [hs] at ho
    cases ho
    exact hfollows
  · rw [hsessions]
    exact h.distinct.set _ _
  · rw [hconsumers]
    exact h.ids
  · intro session' o ho
    rw [hnext]
    rw [hsessions, Dict.get?_set] at ho
    split at ho
    · rename_i heq
      exact heq ▸ h.fresh session s hs
    · exact h.fresh session' o ho
  · intro id session' hid'
    exact .inl (hconsumers ▸ hid')
  · intro id hid'
    rcases hlisted id hid' with hold | ⟨rfl, hmem, hle⟩
    · exact .inl ⟨hold, hcollected⟩
    · refine .inr ⟨session, hcollected ▸ hmem, s', ?_, hfollows.consumerId, hle⟩
      rw [hsessions, Dict.get?_set_self]

end AsyncFanoutManager

/-! ## Frames that stay in order -/

namespace AsyncConsumerSession.Ok

variable {published ahead : List FanoutFrame} {s : AsyncConsumerSession}

theorem mono (h : s.Ok published ahead) {ahead' : List FanoutFrame} (hahead : ahead'.Sublist ahead) : s.Ok published ahead' :=
  ⟨h.balanced, ((hahead.filter _).append_left _).trans h.ordered⟩

theorem publish (h : s.Ok published ahead) (frame : FanoutFrame) : s.Ok (published ++ [frame]) (ahead ++ [frame]) := by
  refine ⟨h.balanced, ?_⟩
  rw [List.filter_append, List.filter_append, ← List.append_assoc]
  exact h.ordered.append_right _

/-- A frame comes to the queue from what lies ahead. -/
theorem push {frame : FanoutFrame} (h : s.Ok published (frame :: ahead)) (hwants : s.wants frame = true) :
    AsyncConsumerSession.Ok published ahead { s with queue := s.queue ++ [frame], framesDispatched := s.framesDispatched + 1 } := by
  refine ⟨?_, ?_⟩
  · have hbalanced := h.balanced
    show s.framesDispatched + 1 = s.framesConsumed + s.framesDropped + (s.queue ++ [frame]).length
    rw [List.length_append, List.length_singleton]
    omega
  · have hordered := h.ordered
    rw [List.filter_cons_of_pos hwants] at hordered
    show (s.handed ++ (s.queue ++ [frame]) ++ ahead.filter s.wants).Sublist (published.filter s.wants)
    simpa using hordered

/-- The oldest frame of the queue is dropped. -/
theorem drop (h : s.Ok published ahead) {item : FanoutFrame} {queue : List FanoutFrame} (hqueue : s.queue = item :: queue) :
    AsyncConsumerSession.Ok published ahead { s with queue := queue, framesDropped := s.framesDropped + 1 } := by
  refine ⟨?_, ?_⟩
  · have hbalanced := h.balanced
    rw [hqueue, List.length_cons] at hbalanced
    show s.framesDispatched = s.framesConsumed + (s.framesDropped + 1) + queue.length
    omega
  · have hordered := h.ordered
    rw [hqueue] at hordered
    refine List.Sublist.trans ?_ hordered
    exact (List.Sublist.append_left (List.sublist_cons_self item queue) s.handed).append_right _

/-- The oldest frame of the queue is handed out. -/
theorem take (h : s.Ok published ahead) {item : FanoutFrame} {queue : List FanoutFrame} (hqueue : s.queue = item :: queue) :
    AsyncConsumerSession.Ok published ahead {
      s with queue := queue, framesConsumed := s.framesConsumed + 1, handed := s.handed ++ [item] } := by
  refine ⟨?_, ?_⟩
  · have hbalanced := h.balanced
    rw [hqueue, List.length_cons] at hbalanced
    show s.framesDispatched = s.framesConsumed + 1 + s.framesDropped + queue.length
    omega
  · have hordered := h.ordered
    rw [hqueue] at hordered
    show (s.handed ++ [item] ++ queue ++ ahead.filter s.wants).Sublist (published.filter s.wants)
    simpa using hordered

end AsyncConsumerSession.Ok

namespace AsyncFanoutManager

variable {m m' : AsyncFanoutManager}

/-- A session changes, and others have no more ahead than before. -/
theorem Frames.setSession (h : m.Frames) (session : Nat) (s' : AsyncConsumerSession) (hsessions : m'.sessions = m.sessions.set session s')
    (hpublished : m'.published = m.published) (hahead : ∀ x, (m'.ahead x).Sublist (m.ahead x))
    (hok : s'.Ok m.published (m'.ahead session)) : m'.Frames := by
  refine ⟨?_, ?_⟩
  · intro x
    rw [hpublished]
    exact (hahead x).trans (h.ahead x)
  · intro x s hs
    rw [hpublished]
    rw [hsessions, Dict.get?_set] at hs
    split at hs
    · rename_i heq
      cases hs
      exact heq ▸ hok
    · exact (h.sessions x s hs).mono (hahead x)

/-- Sessions stay, and have no more ahead than before. -/
theorem Frames.mono (h : m.Frames) (hsessions : m'.sessions = m.sessions) (hpublished : m'.published = m.published)
    (hahead : ∀ x, (m'.ahead x).Sublist (m.ahead x)) : m'.Frames := by
  refine ⟨?_, ?_⟩
  · intro x
    rw [hpublished]
    exact (hahead x).trans (h.ahead x)
  · intro x s hs
    rw [hpublished]
    rw [hsessions] at hs
    exact (h.sessions x s hs).mono (hahead x)

theorem Frames.publish (h : m.Frames) {frame : FanoutFrame} (hsessions : m'.sessions = m.sessions)
    (hpublished : m'.published = m.published ++ [frame]) (hahead : ∀ x, m'.ahead x = m.ahead x ++ [frame]) : m'.Frames := by
  refine ⟨?_, ?_⟩
  · intro x
    rw [hpublished, hahead]
    exact (h.ahead x).append_right _
  · intro x s hs
    rw [hpublished, hahead]
    rw [hsessions] at hs
    exact (h.sessions x s hs).publish frame

/-! ## The steps of publishers and consumers -/

/-- What every step keeps. -/
structure Inv (m : AsyncFanoutManager) : Prop where
  named : m.Named
  closed : m.dispatcher.Closed
  frames : m.Frames
  counted : m.Counted

theorem Counted.congr (h : m.Counted) (hpublisher : m'.publisher = m.publisher) (hreading : m'.dispatcher.reading = m.dispatcher.reading)
    (htotal : m'.totalDropped = m.totalDropped) (hdiscarded : m'.discarded = m.discarded)
    (hsessions : m'.droppedBySessions = m.droppedBySessions) : m'.Counted := by
  unfold Counted
  rw [hpublisher, hreading, htotal, hdiscarded, hsessions]
  exact h

/-- A session changes, and the drops with it. -/
theorem droppedBySessions_set (h : m.Named) {session : Nat} {s : AsyncConsumerSession} (hs : m.sessions.get? session = some s)
    (s' : AsyncConsumerSession) :
    (m.sessions.set session s').weight (·.framesDropped) + s.framesDropped = m.droppedBySessions + s'.framesDropped :=
  h.distinct.weight_set hs s'

theorem Inv.enqueue (h : m.Inv) (frame : FanoutFrame) : (m.enqueue frame).Inv := by
  refine ⟨h.named.congr rfl rfl rfl rfl rfl, h.closed, h.frames.publish rfl rfl ?_, h.counted⟩
  intro x
  exact (List.append_assoc ..).symm

theorem Inv.publishEvent (h : m.Inv) (upper : String → String) (symbol : String) (frame : Bytes) (seq : Int)
    (hfree : m.dispatcher.reading = none ∨ (m.incomingQueue.length : Int) < m.maxIncomingBuffer) :
    (m.publishEvent upper symbol frame seq).Inv := by
  unfold AsyncFanoutManager.publishEvent
  split
  · exact h
  · rename_i hnone
    dsimp only
    split
    · rename_i hfull
      split
      · exact h
      · rename_i item queue hqueue
        have hreading : m.dispatcher.reading = none := by
          rcases hfree with hreading | hroom
          · exact hreading
          · omega
        refine ⟨h.named.congr rfl rfl rfl rfl rfl, h.closed, h.frames.mono rfl rfl ?_, ?_⟩
        · intro x
          show (m.dispatcher.items x ++ queue).Sublist (m.dispatcher.items x ++ m.incomingQueue)
          rw [hqueue]
          exact (List.sublist_cons_self ..).append_left _
        · have hcounted := h.counted
          unfold Counted at hcounted ⊢
          rw [hnone, hreading] at hcounted
          dsimp only
          rw [hreading]
          dsimp only at hcounted ⊢
          refine ⟨rfl, ?_⟩
          show m.totalDropped + 1 = m.discarded + 1 + m.droppedBySessions
          omega
    · exact h.enqueue _

theorem Inv.publishDropped (h : m.Inv) : m.publishDropped.Inv := by
  unfold AsyncFanoutManager.publishDropped
  split
  · exact h
  · rename_i item read hsome
    refine Inv.enqueue ?_ item
    refine ⟨h.named.congr rfl rfl rfl rfl rfl, h.closed, h.frames.mono rfl rfl (fun _ => .refl _), ?_⟩
    have hcounted := h.counted
    unfold Counted at hcounted ⊢
    rw [hsome] at hcounted
    dsimp only
    rcases hreading : m.dispatcher.reading with _ | read'
    · rw [hreading] at hcounted
      obtain ⟨hread, hsum⟩ := hcounted
      show read + 1 = m.discarded + m.droppedBySessions
      omega
    · rw [hreading] at hcounted
      exact hcounted.elim

theorem Named.absent (h : m.Named) : m.sessions.get? m.nextSession = none := by
  rcases hs : m.sessions.get? m.nextSession with _ | s
  · rfl
  · exact absurd (h.fresh _ s hs) (Nat.lt_irrefl _)

theorem Inv.registerConsumer (h : m.Inv) (upper : String → String) (consumerId : String) (subscribedSymbols : Option (List String))
    (maxQueueSize : Option Int) : (m.registerConsumer upper consumerId subscribedSymbols maxQueueSize).Inv := by
  unfold AsyncFanoutManager.registerConsumer
  dsimp only
  generalize (if maxQueueSize.getD 0 = 0 then m.maxBufferPerClient else maxQueueSize.getD 0) = limit
  split
  · exact h
  · have habsent := h.named.absent
    refine ⟨?_, h.closed, ?_, ?_⟩
    · refine h.named.grow (.set ?_) (h.named.distinct.set _ _) (h.named.ids.set _ _) ?_ ?_ rfl (.inl rfl) (fun id hid => .inl ⟨hid, rfl⟩)
        (fun _ _ hhas => .inl hhas)
      · intro s hs
        rw [habsent] at hs
        cases hs
      · intro session s hs
        show session < m.nextSession + 1
        rw [Dict.get?_set] at hs
        split at hs
        · omega
        · exact (h.named.fresh session s hs).trans (Nat.lt_succ_self _)
      · intro id session hid
        rw [Dict.get?_set] at hid
        split at hid
        · rename_i heq
          cases hid
          exact .inr ⟨_, Dict.get?_set_self .., heq.symm⟩
        · exact .inl hid
    · refine h.frames.setSession _ _ rfl rfl (fun _ => .refl _) ⟨rfl, ?_⟩
      exact (h.frames.ahead m.nextSession).filter _
    · refine h.counted.congr rfl rfl rfl rfl ?_
      exact Dict.weight_set_of_none habsent _

/-- A session changes, but not in its drops. -/
theorem Inv.setSession (h : m.Inv) {session : Nat} {s : AsyncConsumerSession} (hs : m.sessions.get? session = some s)
    (s' : AsyncConsumerSession) (hfollows : Follows s s') (hdropped : s'.framesDropped = s.framesDropped) (hok : s'.Ok m.published (m.ahead session)) (consuming : List Nat) :
    Inv { m with sessions := m.sessions.set session s', consuming := consuming } := by
  refine ⟨?_, h.closed, ?_, ?_⟩
  · exact h.named.setSession hs s' hfollows rfl rfl rfl rfl rfl (fun id hid => .inl hid) (fun _ hhas => hhas)
  · exact h.frames.setSession session s' rfl rfl (fun _ => .refl _) hok
  · refine h.counted.congr rfl rfl rfl rfl ?_
    have hsum := droppedBySessions_set h.named hs s'
    rw [hdropped] at hsum
    exact Nat.add_right_cancel hsum

/-- A session is put out: nothing else about it changes. -/
theorem Inv.deactivate (h : m.Inv) (session : Nat) : (m.deactivate session).Inv := by
  unfold AsyncFanoutManager.deactivate
  split
  · exact h
  · rename_i s hs
    obtain ⟨hbalanced, hordered⟩ := h.frames.sessions session s hs
    exact h.setSession hs { s with isActive := false } ⟨rfl, rfl, Nat.le_refl _⟩ rfl ⟨hbalanced, hordered⟩ m.consuming

/-- An id is given up. -/
theorem Inv.eraseId (h : m.Inv) (id : String) (evictions : Nat) :
    Inv { m with consumers := m.consumers.erase id, totalEvictions := evictions } := by
  refine ⟨?_, h.closed, h.frames.mono rfl rfl (fun _ => .refl _), h.counted⟩
  refine h.named.grow (.refl _) h.named.distinct (h.named.ids.erase _) h.named.fresh ?_ rfl (.inl rfl) (fun id hid => .inl ⟨hid, rfl⟩)
    (fun _ _ hhas => .inl hhas)
  intro id' session hid
  rw [Dict.get?_erase] at hid
  split at hid
  · cases hid
  · exact .inl hid

theorem Inv.unregisterConsumer (h : m.Inv) (consumerId : String) : (m.unregisterConsumer consumerId).Inv := by
  unfold AsyncFanoutManager.unregisterConsumer
  split
  · exact h
  · exact (h.eraseId consumerId m.totalEvictions).deactivate _

theorem Inv.consuming (h : m.Inv) (consuming : List Nat) : Inv { m with consuming := consuming } :=
  ⟨h.named.congr rfl rfl rfl rfl rfl, h.closed, h.frames.mono rfl rfl (fun _ => .refl _), h.counted⟩

theorem Inv.findSession (h : m.Inv) (consumerId : String) : (m.findSession consumerId).Inv := by
  unfold AsyncFanoutManager.findSession
  split
  · exact h
  · split
    · exact h
    · split
      · exact h.consuming _
      · exact h

theorem Inv.takeFrame (h : m.Inv) (session : Nat) : (m.takeFrame session).Inv := by
  unfold AsyncFanoutManager.takeFrame
  split
  · split
    · exact h
    · rename_i s hs
      split
      · exact h
      · rename_i item queue hqueue
        exact h.setSession hs { s with queue := queue, framesConsumed := s.framesConsumed + 1, handed := s.handed ++ [item] }
          ⟨rfl, rfl, Nat.le_refl _⟩ rfl ((h.frames.sessions session s hs).take hqueue) _
  · exact h

/-! ## The steps of the dispatcher -/

theorem Inv.evictOne (h : m.Inv) (consumerId : String) : (m.evictOne consumerId).Inv := by
  unfold AsyncFanoutManager.evictOne
  split
  · exact h
  · exact (h.eraseId consumerId (m.totalEvictions + 1)).deactivate _

theorem Inv.evictAll (h : m.Inv) (ids : List String) : (ids.foldl AsyncFanoutManager.evictOne m).Inv := by
  induction ids generalizing m with
  | nil => exact h
  | cons id ids ih => exact ih (h.evictOne id)

theorem deactivate_dispatcher (session : Nat) (m : AsyncFanoutManager) : (m.deactivate session).dispatcher = m.dispatcher := by
  unfold AsyncFanoutManager.deactivate
  split <;> rfl

theorem evictAll_dispatcher (ids : List String) (m : AsyncFanoutManager) :
    (ids.foldl AsyncFanoutManager.evictOne m).dispatcher = m.dispatcher := by
  induction ids generalizing m with
  | nil => rfl
  | cons id ids ih =>
    rw [List.foldl_cons, ih]
    unfold AsyncFanoutManager.evictOne
    split
    · rfl
    · exact deactivate_dispatcher ..

/-- The sessions under their ids are distinct. -/
theorem Named.values_nodup (h : m.Named) : m.consumers.values.Nodup := by
  have hkeys : m.consumers.items.Pairwise (fun x y => x.1 ≠ y.1) := List.pairwise_map.mp h.ids
  refine List.pairwise_map.mpr (hkeys.imp_of_mem ?_)
  intro x y hx hy hne heq
  obtain ⟨s, hs, hid⟩ := h.named x.1 x.2 (h.ids.get?_of_mem hx)
  obtain ⟨s', hs', hid'⟩ := h.named y.1 y.2 (h.ids.get?_of_mem hy)
  rw [heq, hs'] at hs
  cases hs
  exact hne (hid.symm.trans hid')

/-- The dispatcher begins again. -/
theorem Inv.wait (h : m.Inv) (hreading : m.dispatcher.reading = none) : Inv { m with dispatcher := .waiting } := by
  refine ⟨?_, trivial, h.frames.mono rfl rfl ?_, ?_⟩
  · exact h.named.grow (.refl _) h.named.distinct h.named.ids h.named.fresh (fun _ _ hid => .inl hid) rfl (.inr rfl) nofun nofun
  · intro x
    exact List.sublist_append_right ..
  · exact h.counted.congr rfl hreading.symm rfl rfl rfl

theorem Inv.collect (h : m.Inv) {batch : List FanoutFrame} (hphase : m.dispatcher = .collecting batch)
    {work : List (FanoutFrame × Nat)} (hwork : work = batch.flatMap (fun frame => m.consumers.values.map (fun session => (frame, session)))) :
    Inv { m with dispatcher := .offering m.consumers.values [] work } := by
  subst hwork
  have hvalue : ∀ session ∈ m.consumers.values, ∃ id s, m.consumers.get? id = some session ∧ m.sessions.get? session = some s ∧
      s.consumerId = id := by
    intro session hsession
    obtain ⟨⟨id, session'⟩, hmem, rfl⟩ := List.mem_map.mp hsession
    have hget := h.named.ids.get?_of_mem hmem
    obtain ⟨s, hs, hid⟩ := h.named.named id session' hget
    exact ⟨id, s, hget, hs, hid⟩
  refine ⟨⟨h.named.distinct, h.named.ids, h.named.fresh, h.named.named, ?_, ?_, nofun, nofun⟩, ?_, ?_, ?_⟩
  · intro session hsession
    obtain ⟨id, s, -, hs, -⟩ := hvalue session hsession
    exact ⟨s, hs⟩
  · intro session hsession session' hsession' s s' hs hs' heq
    obtain ⟨id, o, hget, ho, hid⟩ := hvalue session hsession
    obtain ⟨id', o', hget', ho', hid'⟩ := hvalue session' hsession'
    cases hs.symm.trans ho
    cases hs'.symm.trans ho'
    rw [← hid, heq, hid', hget'] at hget
    exact (Option.some.inj hget).symm
  · intro x hx
    obtain ⟨frame, -, hx'⟩ := List.mem_flatMap.mp hx
    obtain ⟨session, hsession, rfl⟩ := List.mem_map.mp hx'
    exact hsession
  · refine h.frames.mono rfl rfl ?_
    intro x
    show (offered x _ ++ m.incomingQueue).Sublist (m.dispatcher.items x ++ m.incomingQueue)
    rw [hphase]
    exact (offered_batch h.named.values_nodup batch x).append_right _
  · refine h.counted.congr rfl ?_ rfl rfl rfl
    rw [hphase]
    rfl

/-- The dispatcher goes from one place to another with the sessions it collected. -/
theorem Inv.move (h : m.Inv) {phase : DispatchPhase} (hcollected : phase.collected = m.dispatcher.collected)
    (hlisted : phase.listed = m.dispatcher.listed) (hclosed : phase.Closed)
    (hhand : ∀ frame session, phase.hand = some (frame, session) → ∃ s, m.sessions.get? session = some s ∧ s.wants frame = true)
    (hitems : ∀ x, (phase.items x).Sublist (m.dispatcher.items x)) (hreading : m.dispatcher.reading = none)
    (hreading' : phase.reading = none) : Inv { m with dispatcher := phase } := by
  refine ⟨?_, hclosed, h.frames.mono rfl rfl ?_, ?_⟩
  · refine h.named.grow (.refl _) h.named.distinct h.named.ids h.named.fresh (fun _ _ hid => .inl hid) rfl (.inl hcollected) ?_
      (fun frame session hhas => .inr (hhand frame session hhas))
    intro id hid
    exact .inl ⟨hlisted ▸ hid, hcollected⟩
  · intro x
    exact (hitems x).append_right _
  · exact h.counted.congr rfl (hreading'.trans hreading.symm) rfl rfl rfl

/-- The session in hand has its frame ahead, and the others what comes after it. -/
theorem ahead_of_hand {frame : FanoutFrame} {session : Nat} {work : List (FanoutFrame × Nat)}
    (hitems : ∀ x, m.dispatcher.items x = (if session = x then [frame] else []) ++ offered x work) :
    m.ahead session = frame :: (offered session work ++ m.incomingQueue) ∧
      ∀ x, (offered x work ++ m.incomingQueue).Sublist (m.ahead x) := by
  refine ⟨?_, ?_⟩
  · rw [ahead, hitems, if_pos rfl]
    rfl
  · intro x
    rw [ahead, hitems]
    exact (List.sublist_append_right ..).append_right _

/-- The dispatcher has nothing any more. -/
theorem Inv.idle (h : m.Inv) (phase : DispatchPhase) (incomingQueue : List FanoutFrame) (hcollected : phase.collected = [])
    (hlisted : phase.listed = []) (hhand : phase.hand = none) (hclosed : phase.Closed)
    (hitems : ∀ x, (phase.items x ++ incomingQueue).Sublist (m.ahead x)) (hreading : m.dispatcher.reading = none)
    (hreading' : phase.reading = none) : Inv { m with dispatcher := phase, incomingQueue := incomingQueue } := by
  refine ⟨?_, hclosed, h.frames.mono rfl rfl hitems, h.counted.congr rfl (hreading'.trans hreading.symm) rfl rfl rfl⟩
  refine h.named.grow (.refl _) h.named.distinct h.named.ids h.named.fresh (fun _ _ hid => .inl hid) rfl (.inr hcollected) ?_ ?_
  · intro id hid
    change id ∈ phase.listed at hid
    rw [hlisted] at hid
    cases hid
  · intro frame session hhas
    change phase.hand = some (frame, session) at hhas
    rw [hhand] at hhas
    cases hhas

/-- The frame in hand comes into the queue of its session. -/
theorem Inv.push (h : m.Inv) {sessions : List Nat} {frame : FanoutFrame} {session : Nat} {s : AsyncConsumerSession}
    {work : List (FanoutFrame × Nat)} (hcollected : m.dispatcher.collected = sessions) (hhand : m.dispatcher.hand = some (frame, session))
    (hs : m.sessions.get? session = some s)
    (hitems : ∀ x, m.dispatcher.items x = (if session = x then [frame] else []) ++ offered x work)
    (hclosed : ∀ x ∈ work, x.2 ∈ sessions) {toEvict : List String} (hlisted : ∀ id ∈ toEvict, id ∈ m.dispatcher.listed ∨
      id = s.consumerId ∧ session ∈ m.dispatcher.collected ∧ m.evictionDropThreshold ≤ s.framesDropped)
    {total : Nat} (hcounted : Counted { m with totalDropped := total, dispatcher := .offering sessions toEvict work }) :
    Inv { m.push frame session s with totalDropped := total, dispatcher := .offering sessions toEvict work } := by
  obtain ⟨hahead, hothers⟩ := ahead_of_hand hitems
  have hok := h.frames.sessions session s hs
  rw [hahead] at hok
  have hwants : s.wants frame = true := by
    obtain ⟨s', hs', hwants⟩ := h.named.wanted frame session hhand
    cases hs.symm.trans hs'
    exact hwants
  refine ⟨?_, hclosed, ?_, ?_⟩
  · exact h.named.setSession hs { s with queue := s.queue ++ [frame], framesDispatched := s.framesDispatched + 1 }
      ⟨rfl, rfl, Nat.le_refl _⟩ rfl rfl rfl rfl hcollected.symm hlisted nofun
  · exact h.frames.setSession session _ rfl rfl hothers (hok.push hwants)
  · refine hcounted.congr rfl rfl rfl rfl ?_
    exact Nat.add_right_cancel (droppedBySessions_set h.named hs
      { s with queue := s.queue ++ [frame], framesDispatched := s.framesDispatched + 1 })

/-- The oldest frame of a full queue goes, and the drop is to be counted. -/
theorem Inv.drop (h : m.Inv) {sessions : List Nat} {toEvict : List String} {frame : FanoutFrame} {session : Nat}
    {work : List (FanoutFrame × Nat)} (hphase : m.dispatcher = .pushing sessions toEvict frame session work) {s : AsyncConsumerSession}
    (hs : m.sessions.get? session = some s) {item : FanoutFrame} {queue : List FanoutFrame} (hqueue : s.queue = item :: queue)
    (hfree : m.publisher = none) : Inv {
      m with
      sessions := m.sessions.set session { s with queue := queue, framesDropped := s.framesDropped + 1 }
      dispatcher := .counting sessions toEvict frame session work m.totalDropped } := by
  have hclosed := h.closed
  rw [hphase] at hclosed
  refine ⟨?_, hclosed, ?_, ?_⟩
  · refine h.named.setSession hs { s with queue := queue, framesDropped := s.framesDropped + 1 } ⟨rfl, rfl, Nat.le_succ _⟩
      rfl rfl rfl rfl ?_ ?_ ?_
    · rw [hphase]
      rfl
    · rw [hphase]
      exact fun id hid => .inl hid
    · rw [hphase]
      exact fun x hx => hx
  · refine h.frames.setSession session { s with queue := queue, framesDropped := s.framesDropped + 1 } rfl rfl ?_ ?_
    · intro x
      unfold ahead
      rw [hphase]
      exact .refl _
    · have hok := (h.frames.sessions session s hs).drop hqueue
      unfold ahead at hok ⊢
      rw [hphase] at hok
      exact hok
  · have hcounted := h.counted
    unfold Counted at hcounted ⊢
    rw [hfree, hphase] at hcounted
    dsimp only [DispatchPhase.reading] at hcounted ⊢
    rw [hfree]
    have hsum := droppedBySessions_set h.named hs { s with queue := queue, framesDropped := s.framesDropped + 1 }
    refine ⟨rfl, ?_⟩
    show m.totalDropped + 1 = m.discarded + (m.sessions.set session _).weight (·.framesDropped)
    dsimp only at hsum
    omega

theorem Inv.dispatch (h : m.Inv) (hfree : ∀ sessions toEvict frame session work s,
      m.dispatcher = .pushing sessions toEvict frame session work → m.sessions.get? session = some s →
      s.maxQueueSize ≤ s.queue.length → m.publisher = none) : m.dispatch.Inv := by
  unfold AsyncFanoutManager.dispatch
  split
  case h_1 hphase =>
    split
    · exact h
    · refine h.idle (.collecting _) _ rfl rfl rfl trivial ?_ (by rw [hphase]; rfl) rfl
      intro x
      show (m.incomingQueue.take 256 ++ m.incomingQueue.drop 256).Sublist _
      rw [List.take_append_drop]
      exact List.sublist_append_right ..
  case h_2 batch hphase =>
    dsimp only
    split
    · exact h.wait (by rw [hphase]; rfl)
    · exact h.collect hphase rfl
  case h_3 sessions toEvict frame session work hphase =>
    have hclosed := h.closed
    rw [hphase] at hclosed
    split
    · exact h
    · rename_i s hs
      split
      · rename_i hwanted
        refine h.move (by rw [hphase]; rfl) (by rw [hphase]; rfl) ?_ ?_ ?_ (by rw [hphase]; rfl) rfl
        · exact ⟨hclosed _ List.mem_cons_self, fun x hx => hclosed x (List.mem_cons_of_mem _ hx)⟩
        · intro frame' session' hhas
          cases hhas
          exact ⟨s, hs, hwanted.2⟩
        · intro x
          rw [hphase]
          show List.Sublist _ (offered x ((frame, session) :: work))
          rw [offered_cons]
          exact .refl _
      · refine h.move (by rw [hphase]; rfl) (by rw [hphase]; rfl) (fun x hx => hclosed x (List.mem_cons_of_mem _ hx)) nofun ?_
          (by rw [hphase]; rfl) rfl
        intro x
        rw [hphase]
        show List.Sublist _ (offered x ((frame, session) :: work))
        rw [offered_cons]
        exact List.sublist_append_right ..
  case h_4 sessions toEvict frame session work hphase =>
    have hclosed := h.closed
    rw [hphase] at hclosed
    split
    · exact h
    · rename_i s hs
      split
      · rename_i hfull
        split
        · refine h.idle .stopped m.incomingQueue rfl rfl rfl trivial ?_ (by rw [hphase]; rfl) rfl
          intro x
          exact List.sublist_append_right ..
        · rename_i item queue hqueue
          exact h.drop hphase hs hqueue (hfree _ _ _ _ _ s hphase hs hfull)
      · refine h.push (by rw [hphase]; rfl) (by rw [hphase]; rfl) hs (by rw [hphase]; exact fun _ => rfl) hclosed.2 ?_ ?_
        · intro id hid
          rw [hphase]
          exact .inl hid
        · refine h.counted.congr rfl ?_ rfl rfl rfl
          rw [hphase]
          rfl
  case h_5 sessions toEvict frame session work read hphase =>
    have hclosed := h.closed
    rw [hphase] at hclosed
    split
    · exact h
    · rename_i s hs
      refine h.push (by rw [hphase]; rfl) (by rw [hphase]; rfl) hs (by rw [hphase]; exact fun _ => rfl) hclosed.2 ?_ ?_
      · intro id hid
        rw [hphase]
        split at hid
        · rename_i hreached
          rcases List.mem_append.mp hid with hold | hnew
          · exact .inl hold
          · exact .inr ⟨List.mem_singleton.mp hnew, hclosed.1, hreached⟩
        · exact .inl hid
      · have hcounted := h.counted
        unfold Counted at hcounted ⊢
        rw [hphase] at hcounted
        dsimp only [DispatchPhase.reading] at hcounted ⊢
        rcases hpublisher : m.publisher with _ | x
        · rw [hpublisher] at hcounted
          obtain ⟨hread, hsum⟩ := hcounted
          show read + 1 = m.discarded + m.droppedBySessions
          omega
        · rw [hpublisher] at hcounted
          exact hcounted.elim
  case h_6 sessions toEvict hphase =>
    refine (h.evictAll toEvict.dedup).wait ?_
    rw [evictAll_dispatcher, hphase]
    rfl
  case h_7 => exact h

/-! ## Sessions that are put out -/

/-- The sessions that are put out. -/
def PutOut (d d' : Dict Nat AsyncConsumerSession) (session : Nat) : Prop :=
  ∃ s s', d.get? session = some s ∧ s.isActive = true ∧ d'.get? session = some s' ∧ s'.isActive = false

theorem not_putOut_self (d : Dict Nat AsyncConsumerSession) (session : Nat) : ¬PutOut d d session := by
  rintro ⟨s, s', hs, hactive, hs', hout⟩
  rw [hs] at hs'
  cases hs'
  rw [hactive] at hout
  cases hout

/-- A session that changes otherwise is not put out. -/
theorem not_putOut_set {d : Dict Nat AsyncConsumerSession} {session : Nat} {s' : AsyncConsumerSession}
    (h : ∀ s, d.get? session = some s → s'.isActive = s.isActive) (x : Nat) : ¬PutOut d (d.set session s') x := by
  rintro ⟨o, o', ho, hactive, ho', hout⟩
  rw [Dict.get?_set] at ho'
  split at ho'
  · rename_i heq
    subst heq
    cases ho'
    rw [h o ho, hactive] at hout
    cases hout
  · rw [ho] at ho'
    cases ho'
    rw [hactive] at hout
    cases hout

theorem not_putOut_update {d : Dict Nat AsyncConsumerSession} {session : Nat} {s s' : AsyncConsumerSession}
    (hs : d.get? session = some s) (x : Nat) (hactive : s'.isActive = s.isActive) : ¬PutOut d (d.set session s') x := by
  refine not_putOut_set ?_ x
  intro o ho
  rw [hs] at ho
  cases ho
  exact hactive

theorem putOut_deactivate {session x : Nat} (h : PutOut m.sessions (m.deactivate session).sessions x) : x = session := by
  unfold AsyncFanoutManager.deactivate at h
  split at h
  · exact absurd h (not_putOut_self _ _)
  · by_contra hne
    obtain ⟨o, o', ho, hactive, ho', hout⟩ := h
    rw [Dict.get?_set_ne _ hne, ho] at ho'
    cases ho'
    rw [hactive] at hout
    cases hout

/-- Only sessions of the ids are evicted. -/
theorem putOut_evictAll {ids : List String} {x : Nat} (h : PutOut m.sessions (ids.foldl AsyncFanoutManager.evictOne m).sessions x) :
    ∃ id ∈ ids, m.consumers.get? id = some x := by
  induction ids generalizing m with
  | nil => exact absurd h (not_putOut_self _ _)
  | cons id ids ih =>
    rw [List.foldl_cons] at h
    obtain ⟨s, s', hs, hactive, hs', hout⟩ := h
    by_cases hx : m.consumers.get? id = some x
    · exact ⟨id, List.mem_cons_self, hx⟩
    · -- the id is not that of the session, which is left as it was
      have hsame : (m.evictOne id).sessions.get? x = some s ∧
          ∀ id' x', (m.evictOne id).consumers.get? id' = some x' → m.consumers.get? id' = some x' := by
        unfold AsyncFanoutManager.evictOne
        split
        · exact ⟨hs, fun _ _ hid => hid⟩
        · rename_i session hsession
          have hne : x ≠ session := by
            rintro rfl
            exact hx hsession
          unfold AsyncFanoutManager.deactivate
          split
          · refine ⟨hs, ?_⟩
            intro id' x' hid'
            rw [Dict.get?_erase] at hid'
            split at hid'
            · cases hid'
            · exact hid'
          · refine ⟨?_, ?_⟩
            · rw [Dict.get?_set_ne _ hne]
              exact hs
            · intro id' x' hid'
              rw [Dict.get?_erase] at hid'
              split at hid'
              · cases hid'
              · exact hid'
      obtain ⟨id', hid', hget⟩ := ih ⟨s, s', hsame.1, hactive, hs', hout⟩
      exact ⟨id', List.mem_cons_of_mem _ hid', hsame.2 _ _ hget⟩

/-- A drop is counted while no other thread counts one, and an id to evict is that of a session that the dispatcher collected. -/
def Orderly (m : AsyncFanoutManager) : FanoutAction → Prop
  | .publish .. => m.dispatcher.reading = none ∨ (m.incomingQueue.length : Int) < m.maxIncomingBuffer
  | .dispatch =>
    match m.dispatcher with
    | .pushing _ _ _ session _ =>
      m.publisher = none ∨ ∀ s, m.sessions.get? session = some s → (s.queue.length : Int) < s.maxQueueSize
    | .offering sessions toEvict [] =>
      0 < m.evictionDropThreshold → ∀ id ∈ toEvict, ∀ session, m.consumers.get? id = some session → session ∈ sessions
    | _ => True
  | _ => True

theorem Inv.step (h : m.Inv) (upper : String → String) {a : FanoutAction} (ha : m.Orderly a) : (m.step upper a).Inv := by
  cases a with
  | publish symbol frame seq => exact h.publishEvent upper symbol frame seq ha
  | publishDropped => exact h.publishDropped
  | register consumerId subscribedSymbols maxQueueSize => exact h.registerConsumer upper consumerId subscribedSymbols maxQueueSize
  | unregister consumerId => exact h.unregisterConsumer consumerId
  | find consumerId => exact h.findSession consumerId
  | take session => exact h.takeFrame session
  | giveUp session => exact h.consuming _
  | dispatch =>
    refine h.dispatch ?_
    intro sessions toEvict frame session work s hphase hs hfull
    unfold Orderly at ha
    rw [hphase] at ha
    rcases ha with hfree | hroom
    · exact hfree
    · have := hroom s hs
      omega

theorem publishEvent_sessions (upper : String → String) (symbol : String) (frame : Bytes) (seq : Int) (m : AsyncFanoutManager) :
    (m.publishEvent upper symbol frame seq).sessions = m.sessions := by
  unfold AsyncFanoutManager.publishEvent
  split
  · rfl
  · dsimp only
    split
    · split <;> rfl
    · rfl

/-- The dispatcher puts out only sessions of the ids it listed. -/
theorem putOut_dispatch {x : Nat} (h : PutOut m.sessions m.dispatch.sessions x) :
    ∃ sessions toEvict, m.dispatcher = .offering sessions toEvict [] ∧ ∃ id ∈ toEvict, m.consumers.get? id = some x := by
  unfold AsyncFanoutManager.dispatch at h
  split at h
  case h_1 hphase =>
    split at h
    · exact absurd h (not_putOut_self _ _)
    · exact absurd h (not_putOut_self _ _)
  case h_2 batch hphase =>
    dsimp only at h
    split at h
    · exact absurd h (not_putOut_self _ _)
    · exact absurd h (not_putOut_self _ _)
  case h_3 sessions toEvict frame session work hphase =>
    split at h
    · exact absurd h (not_putOut_self _ _)
    · split at h
      · exact absurd h (not_putOut_self _ _)
      · exact absurd h (not_putOut_self _ _)
  case h_4 sessions toEvict frame session work hphase =>
    split at h
    · exact absurd h (not_putOut_self _ _)
    · rename_i s hs
      split at h
      · split at h
        · exact absurd h (not_putOut_self _ _)
        · exact absurd h (not_putOut_update hs x (by rfl))
      · exact absurd h (not_putOut_update hs x (by rfl))
  case h_5 sessions toEvict frame session work read hphase =>
    split at h
    · exact absurd h (not_putOut_self _ _)
    · rename_i s hs
      exact absurd h (not_putOut_update hs x (by rfl))
  case h_6 sessions toEvict hphase =>
    obtain ⟨id, hid, hget⟩ := putOut_evictAll h
    exact ⟨sessions, toEvict, hphase, id, List.mem_dedup.mp hid, hget⟩
  case h_7 => exact absurd h (not_putOut_self _ _)

/-- A session is put out when its id is unregistered, or for its own drops. -/
theorem Inv.putOut (h : m.Inv) {upper : String → String} {a : FanoutAction} (ha : m.Orderly a) {x : Nat}
    (hout : PutOut m.sessions (m.step upper a).sessions x) {s : AsyncConsumerSession} (hs : m.sessions.get? x = some s) :
    a = .unregister s.consumerId ∨ m.evictionDropThreshold ≤ s.framesDropped := by
  cases a with
  | publish symbol frame seq =>
    have hsessions := publishEvent_sessions upper symbol frame seq m
    exact absurd (hsessions ▸ hout : PutOut m.sessions m.sessions x) (not_putOut_self _ _)
  | publishDropped =>
    have hsessions : m.publishDropped.sessions = m.sessions := by
      unfold AsyncFanoutManager.publishDropped
      split <;> rfl
    exact absurd (hsessions ▸ hout : PutOut m.sessions m.sessions x) (not_putOut_self _ _)
  | register consumerId subscribedSymbols maxQueueSize =>
    change PutOut m.sessions (m.registerConsumer upper consumerId subscribedSymbols maxQueueSize).sessions x at hout
    unfold AsyncFanoutManager.registerConsumer at hout
    dsimp only at hout
    generalize (if maxQueueSize.getD 0 = 0 then m.maxBufferPerClient else maxQueueSize.getD 0) = limit at hout
    split at hout
    · exact absurd hout (not_putOut_self _ _)
    · refine absurd hout (not_putOut_set ?_ x)
      intro o ho
      rw [h.named.absent] at ho
      cases ho
  | unregister consumerId =>
    change PutOut m.sessions (m.unregisterConsumer consumerId).sessions x at hout
    unfold AsyncFanoutManager.unregisterConsumer at hout
    split at hout
    · exact absurd hout (not_putOut_self _ _)
    · rename_i session hsession
      have hx := putOut_deactivate (m := { m with consumers := m.consumers.erase consumerId }) hout
      subst hx
      obtain ⟨s', hs', hid⟩ := h.named.named consumerId x hsession
      cases hs.symm.trans hs'
      exact .inl (by rw [hid])
  | find consumerId =>
    have hsessions : (m.findSession consumerId).sessions = m.sessions := by
      unfold AsyncFanoutManager.findSession
      split
      · rfl
      · split
        · rfl
        · split <;> rfl
    exact absurd (hsessions ▸ hout : PutOut m.sessions m.sessions x) (not_putOut_self _ _)
  | take session =>
    change PutOut m.sessions (m.takeFrame session).sessions x at hout
    unfold AsyncFanoutManager.takeFrame at hout
    split at hout
    · split at hout
      · exact absurd hout (not_putOut_self _ _)
      · rename_i o ho
        split at hout
        · exact absurd hout (not_putOut_self _ _)
        · exact absurd hout (not_putOut_update ho x (by rfl))
    · exact absurd hout (not_putOut_self _ _)
  | giveUp session => exact absurd hout (not_putOut_self _ _)
  | dispatch =>
    obtain ⟨sessions, toEvict, hphase, id, hid, hget⟩ := putOut_dispatch hout
    unfold Orderly at ha
    rw [hphase] at ha
    refine .inr ?_
    by_cases hthreshold : 0 < m.evictionDropThreshold
    · obtain ⟨s', hs', hname⟩ := h.named.named id x hget
      cases hs.symm.trans hs'
      have hcollected : m.dispatcher.collected = sessions := by
        rw [hphase]
        rfl
      have hlisted : id ∈ m.dispatcher.listed := by
        rw [hphase]
        exact hid
      obtain ⟨session, hsession, o, ho, hoid, hreached⟩ := h.named.justified id hlisted
      have hx : x ∈ m.dispatcher.collected := hcollected ▸ ha hthreshold id hid x hget
      have hsame := h.named.unique session hsession x hx o s ho hs (hoid.trans hname.symm)
      subst hsame
      cases hs.symm.trans ho
      exact hreached
    · omega

/-! ## Whole runs -/

/-- The counters agree with the queues, sessions hand out what was published in order, and `total_dropped` has all drops where no
thread is counting one. -/
structure Accounted (m : AsyncFanoutManager) : Prop where
  balanced : ∀ session s, m.sessions.get? session = some s → s.framesDispatched = s.framesConsumed + s.framesDropped + s.queue.length
  ordered : ∀ session s, m.sessions.get? session = some s → s.handed.Sublist (m.published.filter s.wants)
  dropped : m.publisher = none → m.dispatcher.reading = none → m.totalDropped = m.discarded + m.droppedBySessions

theorem Inv.accounted (h : m.Inv) : m.Accounted := by
  refine ⟨?_, ?_, ?_⟩
  · intro session s hs
    exact (h.frames.sessions session s hs).balanced
  · intro session s hs
    have hordered := (h.frames.sessions session s hs).ordered
    rw [List.append_assoc] at hordered
    exact (List.sublist_append_left ..).trans hordered
  · intro hpublisher hreading
    have hcounted := h.counted
    unfold Counted at hcounted
    rw [hpublisher, hreading] at hcounted
    exact hcounted

/-- The step leaves the accounts right, and a session that it puts out is unregistered or has had its drops. -/
def Meets (upper : String → String) (m : AsyncFanoutManager) (a : FanoutAction) : Prop :=
  (m.step upper a).Accounted ∧ ∀ session s, m.sessions.get? session = some s → PutOut m.sessions (m.step upper a).sessions session →
    a = .unregister s.consumerId ∨ m.evictionDropThreshold ≤ s.framesDropped

/-- A new manager. -/
def new (maxBufferPerClient maxIncomingBuffer evictionDropThreshold : Int) : AsyncFanoutManager where
  maxBufferPerClient := maxBufferPerClient
  maxIncomingBuffer := maxIncomingBuffer
  evictionDropThreshold := evictionDropThreshold

theorem Inv.new (maxBufferPerClient maxIncomingBuffer evictionDropThreshold : Int) :
    (new maxBufferPerClient maxIncomingBuffer evictionDropThreshold).Inv :=
  ⟨⟨Dict.distinct_empty, Dict.distinct_empty, nofun, nofun, nofun, nofun, nofun, nofun⟩, trivial, ⟨fun _ => .refl _, nofun⟩, rfl⟩

theorem Inv.meets_along (upper : String → String) {actions : List FanoutAction} (h : m.Inv)
    (hactions : Along (AsyncFanoutManager.step upper) Orderly m actions) :
    Along (AsyncFanoutManager.step upper) (Meets upper) m actions := by
  induction actions generalizing m with
  | nil => trivial
  | cons a actions ih =>
    have hnext := h.step upper hactions.1
    refine ⟨⟨hnext.accounted, ?_⟩, ih hnext hactions.2⟩
    intro session s hs hout
    exact h.putOut hactions.1 hout hs

end AsyncFanoutManager

/-- Where drops are counted one at a time and no id that is to be evicted was taken again, the accounts are right after every step. -/
theorem fanout_accounts (upper : String → String) (maxBufferPerClient maxIncomingBuffer evictionDropThreshold : Int)
    (actions : List FanoutAction) (h : Along (AsyncFanoutManager.step upper) AsyncFanoutManager.Orderly
      (.new maxBufferPerClient maxIncomingBuffer evictionDropThreshold) actions) :
    Along (AsyncFanoutManager.step upper) (AsyncFanoutManager.Meets upper)
      (.new maxBufferPerClient maxIncomingBuffer evictionDropThreshold) actions :=
  (AsyncFanoutManager.Inv.new ..).meets_along upper h

theorem fanout_accounts_two : Along (AsyncFanoutManager.step (fun s => s)) (AsyncFanoutManager.Meets (fun s => s)) (.new 1000 50000 50)
    [.register "a" (some ["X"]) none, .publish "X" [1] 1, .publish "Y" [2] 2, .dispatch, .dispatch, .dispatch, .dispatch, .dispatch,
      .dispatch, .find "a", .take 0, .unregister "a"] := by
  refine fanout_accounts _ _ _ _ _ ?_
  exact ⟨trivial, .inl rfl, .inl rfl, trivial, trivial, trivial, .inl rfl, trivial, nofun, trivial, trivial, trivial, trivial⟩

/-- An id that is registered again before its eviction: the new session is put out without a drop. -/
theorem fanout_accounts_false :
    ¬∀ (upper : String → String) (maxBufferPerClient maxIncomingBuffer evictionDropThreshold : Int) (actions : List FanoutAction),
      Along (AsyncFanoutManager.step upper) (AsyncFanoutManager.Meets upper)
        (.new maxBufferPerClient maxIncomingBuffer evictionDropThreshold) actions := by
  intro h
  have hlast := (h (fun s => s) 1000 50000 1 ([.register "a" none (some 1), .publish "X" [1] 1, .publish "X" [2] 2, .dispatch, .dispatch,
    .dispatch, .dispatch, .dispatch, .dispatch, .dispatch, .register "a" none none] ++ [.dispatch])).last
  have hout := hlast.2 1 { consumerId := "a", maxQueueSize := 1000, subscribedSymbols := none } rfl ⟨_, _, rfl, rfl, rfl, rfl⟩
  rcases hout with hunregistered | hreached
  · cases hunregistered
  · exact absurd hreached (by decide)

end Mdrap
