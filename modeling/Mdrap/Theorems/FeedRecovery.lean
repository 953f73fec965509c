import Mathlib.Data.List.Chain
import Mdrap.Feed.Recovery
import Mdrap.Quality.Engine

/-!
# What a feed hands out, and what it holds back

A feed that recovers is to hand out every packet it consumes, in order, and to be live only when no packet waits for another one. It
loses packets where a replay is asked for within a call: what the replay heals is drained and not returned. Packets wait in a live
feed where a replay heals one gap of two, or where a connection is declared live while packets wait.
-/

namespace Mdrap

open Lib

variable {V : Type}

namespace FeedRecoveryEngine

/-! ## Draining -/

section

variable (F : Floats V)

@[simp] theorem setState_expectedSeq (st : FeedState) (e : FeedRecoveryEngine V) : (e.setState st).expectedSeq = e.expectedSeq := by
  unfold setState
  split <;> rfl

@[simp] theorem setState_gapBuffer (st : FeedState) (e : FeedRecoveryEngine V) : (e.setState st).gapBuffer = e.gapBuffer := by
  unfold setState
  split <;> rfl

@[simp] theorem setState_maxBufferSize (st : FeedState) (e : FeedRecoveryEngine V) :
    (e.setState st).maxBufferSize = e.maxBufferSize := by
  unfold setState
  split <;> rfl

@[simp] theorem setState_channelId (st : FeedState) (e : FeedRecoveryEngine V) : (e.setState st).channelId = e.channelId := by
  unfold setState
  split <;> rfl

@[simp] theorem setState_state (st : FeedState) (e : FeedRecoveryEngine V) : (e.setState st).state = st := by
  unfold setState
  split
  · rfl
  · rename_i h
    exact not_not.mp h

/-- What draining does to the buffer: the numbers from the expected one on go, as long as they follow on one another. -/
structure Drains (e e' : FeedRecoveryEngine V) : Prop where
  expected : e.expectedSeq ≤ e'.expectedSeq
  state : e'.state = e.state
  maxBufferSize : e'.maxBufferSize = e.maxBufferSize
  size : e'.gapBuffer.size ≤ e.gapBuffer.size
  buffer : ∀ k, e'.gapBuffer.get? k = if e.expectedSeq ≤ k ∧ k < e'.expectedSeq then none else e.gapBuffer.get? k
  drained : ∀ k, e.expectedSeq ≤ k → k < e'.expectedSeq → e.gapBuffer.contains k = true

theorem Drains.refl (e : FeedRecoveryEngine V) : Drains e e := by
  refine ⟨le_refl _, rfl, rfl, le_refl _, ?_, ?_⟩
  · intro k
    rw [if_neg (by omega)]
  · intro k hk hk'
    omega

theorem drainLoop_drains (n : Nat) (e : FeedRecoveryEngine V) : Drains e (e.drainLoop F n).2 := by
  induction n generalizing e with
  | zero => exact .refl e
  | succ n ih =>
    rw [drainLoop]
    rcases hget : e.gapBuffer.get? e.expectedSeq with _ | pkt
    · exact .refl e
    · dsimp only
      have hcontains : e.gapBuffer.contains e.expectedSeq = true := Dict.contains_eq_true_iff.mpr ⟨pkt, hget⟩
      have hrest := ih { e with
        gapBuffer := e.gapBuffer.erase e.expectedSeq
        lastProcessedTs := F.max e.lastProcessedTs pkt.timestamp
        expectedSeq := e.expectedSeq + 1 }
      have hexpected := hrest.expected
      dsimp only at hexpected
      refine ⟨by omega, hrest.state, hrest.maxBufferSize, hrest.size.trans (Dict.size_erase_lt hcontains).le, ?_, ?_⟩
      · intro k
        rw [hrest.buffer k, Dict.get?_erase]
        by_cases hk : k = e.expectedSeq
        · subst hk
          rw [if_neg (by dsimp only; omega), if_pos rfl, if_pos ⟨le_refl _, by omega⟩]
        · rw [if_neg hk]
          by_cases hrange : e.expectedSeq + 1 ≤ k ∧ k < (drainLoop F n { e with
              gapBuffer := e.gapBuffer.erase e.expectedSeq
              lastProcessedTs := F.max e.lastProcessedTs pkt.timestamp
              expectedSeq := e.expectedSeq + 1 }).2.expectedSeq
          · rw [if_pos hrange, if_pos ⟨by omega, hrange.2⟩]
          · rw [if_neg hrange, if_neg (by omega)]
      · intro k hk hk'
        by_cases heq : k = e.expectedSeq
        · rw [heq]
          exact hcontains
        · have hdrained := hrest.drained k (by dsimp only; omega) hk'
          rw [Dict.contains_erase] at hdrained
          exact (Bool.and_eq_true _ _ ▸ hdrained).2

/-- With so many rounds, draining goes on until the expected number is missing. -/
theorem drainLoop_stops {n : Nat} {e : FeedRecoveryEngine V} (hn : e.gapBuffer.size ≤ n) :
    (e.drainLoop F n).2.gapBuffer.contains (e.drainLoop F n).2.expectedSeq = false := by
  induction n generalizing e with
  | zero =>
    by_contra h
    have hpos : 0 < e.gapBuffer.size := Dict.size_pos (Bool.not_eq_false _ ▸ h)
    omega
  | succ n ih =>
    rw [drainLoop]
    rcases hget : e.gapBuffer.get? e.expectedSeq with _ | pkt
    · dsimp only
      rw [Dict.contains, hget]
      rfl
    · have hlt := Dict.size_erase_lt (Dict.contains_eq_true_iff.mpr ⟨pkt, hget⟩)
      exact ih (by dsimp only; omega)

theorem drainContiguous_drains (e : FeedRecoveryEngine V) : Drains e (e.drainContiguous F).2 := drainLoop_drains F _ e

theorem drainContiguous_stops (e : FeedRecoveryEngine V) :
    (e.drainContiguous F).2.gapBuffer.contains (e.drainContiguous F).2.expectedSeq = false := drainLoop_stops F (le_refl _)

/-- The expected number is there: draining goes beyond it. -/
theorem drainContiguous_lt {e : FeedRecoveryEngine V} (h : e.gapBuffer.contains e.expectedSeq = true) :
    e.expectedSeq < (e.drainContiguous F).2.expectedSeq := by
  have hdrains := drainContiguous_drains F e
  have hstops := drainContiguous_stops F e
  rcases lt_or_eq_of_le hdrains.expected with hlt | heq
  · exact hlt
  · rw [Dict.contains, hdrains.buffer, ← heq, if_neg (by omega)] at hstops
    rw [Dict.contains, hstops] at h
    cases h

end

/-! ## A replay in the buffer -/

/-- The engine with the packets of a replay in its buffer. -/
def filled (ps : List (FeedPacket V)) (e : FeedRecoveryEngine V) : FeedRecoveryEngine V := ps.foldl takeReplayed e

theorem takeReplayed_spec (e : FeedRecoveryEngine V) (p : FeedPacket V) :
    (e.takeReplayed p).expectedSeq = e.expectedSeq ∧ (e.takeReplayed p).state = e.state ∧
      (e.takeReplayed p).maxBufferSize = e.maxBufferSize ∧
      ∀ k, (e.takeReplayed p).gapBuffer.get? k =
        if k = p.sequenceNum ∧ e.expectedSeq ≤ k then some { p with isReplayed := true } else e.gapBuffer.get? k := by
  unfold takeReplayed
  split
  · rename_i hle
    refine ⟨rfl, rfl, rfl, ?_⟩
    intro k
    rw [Dict.get?_set]
    by_cases hk : k = p.sequenceNum
    · rw [if_pos hk, if_pos ⟨hk, by omega⟩]
    · rw [if_neg hk, if_neg (fun h => hk h.1)]
  · refine ⟨rfl, rfl, rfl, ?_⟩
    intro k
    rw [if_neg (by omega)]

theorem filled_spec (ps : List (FeedPacket V)) (e : FeedRecoveryEngine V) :
    (e.filled ps).expectedSeq = e.expectedSeq ∧ (e.filled ps).state = e.state ∧ (e.filled ps).maxBufferSize = e.maxBufferSize := by
  induction ps generalizing e with
  | nil => exact ⟨rfl, rfl, rfl⟩
  | cons p ps ih =>
    obtain ⟨hexpected, hstate, hmax, -⟩ := e.takeReplayed_spec p
    obtain ⟨hexpected', hstate', hmax'⟩ := ih (e.takeReplayed p)
    exact ⟨hexpected'.trans hexpected, hstate'.trans hstate, hmax'.trans hmax⟩

theorem contains_filled (ps : List (FeedPacket V)) (e : FeedRecoveryEngine V) (k : Int) :
    (e.filled ps).gapBuffer.contains k = true ↔
      e.gapBuffer.contains k = true ∨ e.expectedSeq ≤ k ∧ ∃ p ∈ ps, p.sequenceNum = k := by
  induction ps generalizing e with
  | nil => simp [filled]
  | cons p ps ih =>
    obtain ⟨hexpected, -, -, hget⟩ := e.takeReplayed_spec p
    have hcons : e.filled (p :: ps) = (e.takeReplayed p).filled ps := rfl
    rw [hcons, ih, hexpected, Dict.contains, hget]
    by_cases hk : k = p.sequenceNum ∧ e.expectedSeq ≤ k
    · rw [if_pos hk]
      simp only [Option.isSome_some, true_or, true_iff]
      exact .inr ⟨hk.2, p, List.mem_cons_self, hk.1.symm⟩
    · rw [if_neg hk, List.exists_mem_cons_iff]
      constructor
      · rintro (h | ⟨hle, h⟩)
        · exact .inl h
        · exact .inr ⟨hle, .inr h⟩
      · rintro (h | ⟨hle, rfl | h⟩)
        · exact .inl h
        · exact absurd ⟨rfl, hle⟩ hk
        · exact .inr ⟨hle, h⟩

/-! ## In order -/

/-- A packet is held under its number. -/
def Keyed (e : FeedRecoveryEngine V) : Prop := ∀ k p, e.gapBuffer.get? k = some p → p.sequenceNum = k

theorem Keyed.of_gapBuffer {e e' : FeedRecoveryEngine V} (h : e.Keyed) (heq : e'.gapBuffer = e.gapBuffer) : e'.Keyed := by
  intro k p hget
  exact h k p (heq ▸ hget)

theorem Keyed.empty {e : FeedRecoveryEngine V} (heq : e.gapBuffer = .empty) : e.Keyed := by
  intro k p hget
  rw [heq] at hget
  cases hget

theorem Keyed.set {e : FeedRecoveryEngine V} (h : e.Keyed) (p : FeedPacket V) :
    Keyed { e with gapBuffer := e.gapBuffer.set p.sequenceNum p } := by
  intro k q hget
  dsimp only at hget
  rw [Dict.get?_set] at hget
  split at hget
  · rename_i hk
    cases hget
    exact hk.symm
  · exact h k q hget

theorem Keyed.drains {e e' : FeedRecoveryEngine V} (h : e.Keyed) (hdrains : Drains e e') : e'.Keyed := by
  intro k p hget
  rw [hdrains.buffer] at hget
  split at hget
  · cases hget
  · exact h k p hget

theorem Keyed.filled {e : FeedRecoveryEngine V} (h : e.Keyed) (ps : List (FeedPacket V)) : (e.filled ps).Keyed := by
  induction ps generalizing e with
  | nil => exact h
  | cons p ps ih =>
    refine ih ?_
    intro k q hget
    rw [(e.takeReplayed_spec p).2.2.2] at hget
    split at hget
    · rename_i hk
      cases hget
      exact hk.1.symm
    · exact h k q hget

end FeedRecoveryEngine

/-- The numbers follow on one another. -/
def Successive (ps : List (FeedPacket V)) : Prop := ps.IsChain (fun p q => q.sequenceNum = p.sequenceNum + 1)

/-- One more than the last number, or the first one where there is none yet. -/
def nextAfter (first : Int) (ps : List (FeedPacket V)) : Int := (ps.getLast?.map (·.sequenceNum + 1)).getD first

/-- The packets that callers have got are in order, up to the expected number. -/
def InOrder (expected first : Int) (ps : List (FeedPacket V)) : Prop := Successive ps ∧ expected = nextAfter first ps

theorem InOrder.snoc {expected first : Int} {ps : List (FeedPacket V)} (h : InOrder expected first ps) {p : FeedPacket V}
    (hp : p.sequenceNum = expected) : InOrder (expected + 1) first (ps ++ [p]) := by
  obtain ⟨hchain, hnext⟩ := h
  refine ⟨List.isChain_append.mpr ⟨hchain, List.isChain_singleton p, ?_⟩, ?_⟩
  · intro q hq r hr
    cases hr
    rw [hp, hnext, nextAfter, Option.mem_def.mp hq]
    rfl
  · rw [nextAfter, List.getLast?_append, List.getLast?_singleton]
    simp [hp]

namespace FeedRecoveryEngine

variable (F : Floats V)

theorem drainLoop_inOrder (n : Nat) {e : FeedRecoveryEngine V} (he : e.Keyed) {first : Int} {ps : List (FeedPacket V)}
    (h : InOrder e.expectedSeq first ps) : InOrder (e.drainLoop F n).2.expectedSeq first (ps ++ (e.drainLoop F n).1) := by
  induction n generalizing e ps with
  | zero =>
    rw [drainLoop, List.append_nil]
    exact h
  | succ n ih =>
    rw [drainLoop]
    rcases hget : e.gapBuffer.get? e.expectedSeq with _ | pkt
    · rw [List.append_nil]
      exact h
    · have hkeyed : Keyed { e with
          gapBuffer := e.gapBuffer.erase e.expectedSeq
          lastProcessedTs := F.max e.lastProcessedTs pkt.timestamp
          expectedSeq := e.expectedSeq + 1 } := by
        intro k p hk
        dsimp only at hk
        rw [Dict.get?_erase] at hk
        split at hk
        · cases hk
        · exact he k p hk
      have hrest := ih hkeyed (h.snoc (he _ pkt hget))
      rw [List.append_assoc] at hrest
      exact hrest

/-! ## What the calls do -/

/-- A replay that does not bring the expected number. -/
theorem onRecoveryPackets_missing {ps : List (FeedPacket V)} {e : FeedRecoveryEngine V} (hstate : e.state = .recovering)
    (hmissing : (e.filled ps).gapBuffer.contains e.expectedSeq = false) : e.onRecoveryPackets F ps = ([], e.filled ps) := by
  have hmissing' : (e.filled ps).gapBuffer.contains (e.filled ps).expectedSeq = false := by
    rw [(filled_spec ps e).1]
    exact hmissing
  unfold onRecoveryPackets
  rw [if_neg (not_not.mpr hstate)]
  exact if_neg (by rw [show List.foldl takeReplayed e ps = e.filled ps from rfl, hmissing']; exact Bool.false_ne_true)

/-- A replay that brings the expected number. -/
theorem onRecoveryPackets_healed {ps : List (FeedPacket V)} {e : FeedRecoveryEngine V} (hstate : e.state = .recovering)
    (hhealed : (e.filled ps).gapBuffer.contains e.expectedSeq = true) :
    (e.onRecoveryPackets F ps).1 = ((e.filled ps).drainContiguous F).1 ∧
      (e.onRecoveryPackets F ps).2.expectedSeq = ((e.filled ps).drainContiguous F).2.expectedSeq ∧
      (e.onRecoveryPackets F ps).2.gapBuffer = ((e.filled ps).drainContiguous F).2.gapBuffer ∧
      (e.onRecoveryPackets F ps).2.maxBufferSize = e.maxBufferSize ∧ (e.onRecoveryPackets F ps).2.state = .live := by
  have hhealed' : (e.filled ps).gapBuffer.contains (e.filled ps).expectedSeq = true := by
    rw [(filled_spec ps e).1]
    exact hhealed
  have hmax := (drainContiguous_drains F (e.filled ps)).maxBufferSize.trans (filled_spec ps e).2.2
  have happly : e.onRecoveryPackets F ps = (((e.filled ps).drainContiguous F).1,
      setState .live { ((e.filled ps).drainContiguous F).2 with
        metrics.replaysCompleted := ((e.filled ps).drainContiguous F).2.metrics.replaysCompleted + 1
        metrics.inOrderDispatched :=
          ((e.filled ps).drainContiguous F).2.metrics.inOrderDispatched + ((e.filled ps).drainContiguous F).1.length }) := by
    unfold onRecoveryPackets
    rw [if_neg (not_not.mpr hstate)]
    exact if_pos hhealed'
  rw [happly]
  refine ⟨rfl, ?_, ?_, ?_, ?_⟩
  · rw [setState_expectedSeq]
  · rw [setState_gapBuffer]
  · rw [setState_maxBufferSize]
    exact hmax
  · rw [setState_state]

/-- The engine when it asks for a replay: the packet after the gap waits. -/
def asking (packet : FeedPacket V) (e : FeedRecoveryEngine V) : FeedRecoveryEngine V :=
  let e := { e with
    metrics.gapsDetected := e.metrics.gapsDetected + 1
    gapBuffer := e.gapBuffer.set packet.sequenceNum packet }
  let e := (e.setState .gapDetected).setState .recovering
  { e with metrics.replaysRequested := e.metrics.replaysRequested + 1 }

theorem asking_spec (packet : FeedPacket V) (e : FeedRecoveryEngine V) :
    (e.asking packet).state = .recovering ∧ (e.asking packet).expectedSeq = e.expectedSeq ∧
      (e.asking packet).gapBuffer = e.gapBuffer.set packet.sequenceNum packet ∧
      (e.asking packet).maxBufferSize = e.maxBufferSize := by
  simp [asking]

/-- The replay that a handler gives, if it gives any packets. -/
def replayFor (handler : Option (ReplayHandler V)) (packet : FeedPacket V) (e : FeedRecoveryEngine V) :
    Option (List (FeedPacket V)) :=
  handler.bind (fun handler => (handler e.channelId e.expectedSeq (packet.sequenceNum - 1)).filter (· ≠ []))

/-- The engine after a call that hands nothing out and expects what it expected before. -/
structure Stays (e : FeedRecoveryEngine V) (buffer : Dict Int (FeedPacket V)) (state : FeedState)
    (r : List (FeedPacket V) × FeedRecoveryEngine V) : Prop where
  nothing : r.1 = []
  expected : r.2.expectedSeq = e.expectedSeq
  maxBufferSize : r.2.maxBufferSize = e.maxBufferSize
  buffer : r.2.gapBuffer = buffer
  state : r.2.state = state

/-- The engine takes packets. -/
def Open (e : FeedRecoveryEngine V) : Prop := e.state = .live ∨ e.state = .recovering ∨ e.state = .gapDetected

theorem triggerRecovery_asking {handler : Option (ReplayHandler V)} {packet : FeedPacket V} {e : FeedRecoveryEngine V}
    (hstate : e.state = .live) (hgap : e.expectedSeq < packet.sequenceNum) (hroom : (e.gapBuffer.size : Int) < e.maxBufferSize) :
    e.onPacket F handler packet = ([],
      match handler with
      | none => e.asking packet
      | some handler =>
        match handler e.channelId e.expectedSeq (packet.sequenceNum - 1) with
        | none => (e.asking packet).onRecoveryFailed
        | some [] => e.asking packet
        | some (p :: ps) => ((e.asking packet).onRecoveryPackets F (p :: ps)).2) := by
  unfold onPacket
  rw [if_neg (by simp [hstate]), if_neg (by omega), if_pos hgap]
  unfold onGap
  dsimp only
  rw [if_neg (by omega), if_pos hstate]
  unfold triggerRecovery asking
  rcases handler with _ | handler
  · rfl
  simp only [setState_channelId]
  all_goals rfl

/-- What becomes of a packet. -/
theorem onPacket_cases (handler : Option (ReplayHandler V)) (packet : FeedPacket V) (e : FeedRecoveryEngine V) :
    ((¬e.Open ∨ packet.sequenceNum < e.expectedSeq) ∧ Stays e e.gapBuffer e.state (e.onPacket F handler packet)) ∨
    (e.Open ∧ e.expectedSeq < packet.sequenceNum ∧ e.maxBufferSize ≤ e.gapBuffer.size ∧
      Stays e e.gapBuffer .failedRecovery (e.onPacket F handler packet)) ∨
    (e.Open ∧ e.state ≠ .live ∧ e.expectedSeq < packet.sequenceNum ∧ (e.gapBuffer.size : Int) < e.maxBufferSize ∧
      Stays e (e.gapBuffer.set packet.sequenceNum packet) e.state (e.onPacket F handler packet)) ∨
    (e.state = .live ∧ e.expectedSeq < packet.sequenceNum ∧ (e.gapBuffer.size : Int) < e.maxBufferSize ∧
      e.replayFor handler packet = none ∧ ∃ state, (state = .recovering ∨ state = .failedRecovery) ∧
        Stays e (e.gapBuffer.set packet.sequenceNum packet) state (e.onPacket F handler packet)) ∨
    (e.state = .live ∧ e.expectedSeq < packet.sequenceNum ∧ (e.gapBuffer.size : Int) < e.maxBufferSize ∧
      ∃ ps, e.replayFor handler packet = some ps ∧
        e.onPacket F handler packet = ([], ((e.asking packet).onRecoveryPackets F ps).2)) ∨
    (e.state = .recovering ∧ packet.sequenceNum = e.expectedSeq ∧
      Stays e (e.gapBuffer.set packet.sequenceNum packet) e.state (e.onPacket F handler packet)) ∨
    ((e.state = .live ∨ e.state = .gapDetected) ∧ packet.sequenceNum = e.expectedSeq ∧
      e.onPacket F handler packet = e.onExpected F packet) := by
  by_cases hopen : e.Open
  · have hguard : ¬(e.state ≠ .live ∧ e.state ≠ .recovering ∧ e.state ≠ .gapDetected) := by
      rintro ⟨hl, hr, hg⟩
      rcases hopen with h | h | h
      · exact hl h
      · exact hr h
      · exact hg h
    rcases lt_trichotomy packet.sequenceNum e.expectedSeq with hlt | heq | hgt
    · left
      refine ⟨.inr hlt, ?_⟩
      unfold onPacket
      rw [if_neg hguard, if_pos hlt]
      exact ⟨rfl, rfl, rfl, rfl, rfl⟩
    · by_cases hrec : e.state = .recovering
      · refine .inr (.inr (.inr (.inr (.inr (.inl ⟨hrec, heq, ?_⟩)))))
        unfold onPacket
        rw [if_neg hguard, if_neg (by omega), if_neg (by omega), if_pos hrec]
        exact ⟨rfl, rfl, rfl, rfl, rfl⟩
      · refine .inr (.inr (.inr (.inr (.inr (.inr ⟨?_, heq, ?_⟩)))))
        · rcases hopen with h | h | h
          · exact .inl h
          · exact absurd h hrec
          · exact .inr h
        · unfold onPacket
          rw [if_neg hguard, if_neg (by omega), if_neg (by omega), if_neg hrec]
    · by_cases hroom : (e.gapBuffer.size : Int) < e.maxBufferSize
      · by_cases hlive : e.state = .live
        · have happly := @triggerRecovery_asking _ F handler _ _ hlive hgt hroom
          obtain ⟨hstate, hexpected, hbuffer, hmax⟩ := e.asking_spec packet
          have hnone : Stays e (e.gapBuffer.set packet.sequenceNum packet) .recovering ([], e.asking packet) :=
            ⟨rfl, hexpected, hmax, hbuffer, hstate⟩
          rcases handler with _ | handler
          · refine .inr (.inr (.inr (.inl ⟨hlive, hgt, hroom, rfl, .recovering, .inl rfl, ?_⟩)))
            rw [happly]
            exact hnone
          · rcases hreplay : handler e.channelId e.expectedSeq (packet.sequenceNum - 1) with _ | _ | ⟨p, ps⟩
            · simp only [hreplay] at happly
              refine .inr (.inr (.inr (.inl ⟨hlive, hgt, hroom, by simp [replayFor, hreplay], .failedRecovery, .inr rfl, ?_⟩)))
              rw [happly]
              refine ⟨rfl, ?_, ?_, ?_, ?_⟩ <;> simp [onRecoveryFailed, hexpected, hmax, hbuffer]
            · simp only [hreplay] at happly
              refine .inr (.inr (.inr (.inl ⟨hlive, hgt, hroom, by simp [replayFor, hreplay], .recovering, .inl rfl, ?_⟩)))
              rw [happly]
              exact hnone
            · simp only [hreplay] at happly
              exact .inr (.inr (.inr (.inr (.inl ⟨hlive, hgt, hroom, p :: ps, by simp [replayFor, hreplay], happly⟩))))
        · refine .inr (.inr (.inl ⟨hopen, hlive, hgt, hroom, ?_⟩))
          unfold onPacket onGap
          dsimp only
          rw [if_neg hguard, if_neg (by omega), if_pos hgt, if_neg (by omega), if_neg hlive]
          exact ⟨rfl, rfl, rfl, rfl, rfl⟩
      · refine .inr (.inl ⟨hopen, hgt, not_lt.mp hroom, ?_⟩)
        unfold onPacket onGap
        dsimp only
        rw [if_neg hguard, if_neg (by omega), if_pos hgt, if_pos (by omega)]
        refine ⟨rfl, ?_, ?_, ?_, ?_⟩ <;> simp [onRecoveryFailed]
  · left
    refine ⟨.inl hopen, ?_⟩
    have hguard : e.state ≠ .live ∧ e.state ≠ .recovering ∧ e.state ≠ .gapDetected := by
      simp only [Open, not_or] at hopen
      exact hopen
    unfold onPacket
    rw [if_pos hguard]
    exact ⟨rfl, rfl, rfl, rfl, rfl⟩

theorem drainContiguous_of_missing {e : FeedRecoveryEngine V} (h : e.gapBuffer.contains e.expectedSeq = false) :
    e.drainContiguous F = ([], e) := by
  have hget : e.gapBuffer.get? e.expectedSeq = none := by
    rw [← Option.not_isSome_iff_eq_none]
    exact Bool.eq_false_iff.mp h
  unfold drainContiguous
  cases e.gapBuffer.size with
  | zero => rfl
  | succ n => rw [drainLoop, hget]

/-- The engine after the packet it expected, before it drains. -/
def past (packet : FeedPacket V) (e : FeedRecoveryEngine V) : FeedRecoveryEngine V :=
  { e with expectedSeq := e.expectedSeq + 1, lastProcessedTs := packet.timestamp }

theorem onExpected_spec (packet : FeedPacket V) (e : FeedRecoveryEngine V) :
    (e.onExpected F packet).1 = packet :: ((e.past packet).drainContiguous F).1 ∧
      (e.onExpected F packet).2.expectedSeq = ((e.past packet).drainContiguous F).2.expectedSeq ∧
      (e.onExpected F packet).2.gapBuffer = ((e.past packet).drainContiguous F).2.gapBuffer ∧
      (e.onExpected F packet).2.maxBufferSize = e.maxBufferSize ∧ (e.onExpected F packet).2.state = e.state := by
  have hdrains := drainContiguous_drains F (e.past packet)
  have hdrained : (if (e.past packet).gapBuffer.contains (e.past packet).expectedSeq then (e.past packet).drainContiguous F
      else ([], e.past packet)) = (e.past packet).drainContiguous F := by
    split
    · rfl
    · rename_i hmissing
      exact (drainContiguous_of_missing F (Bool.eq_false_iff.mpr hmissing)).symm
  have happly : e.onExpected F packet = (packet :: ((e.past packet).drainContiguous F).1,
      { ((e.past packet).drainContiguous F).2 with
        metrics.inOrderDispatched := ((e.past packet).drainContiguous F).2.metrics.inOrderDispatched +
          (packet :: ((e.past packet).drainContiguous F).1).length }) := by
    rw [← hdrained]
    rfl
  rw [happly]
  exact ⟨rfl, rfl, rfl, hdrains.maxBufferSize, hdrains.state⟩

theorem Keyed.onRecoveryPackets {e : FeedRecoveryEngine V} (h : e.Keyed) (ps : List (FeedPacket V)) :
    (e.onRecoveryPackets F ps).2.Keyed := by
  by_cases hstate : e.state = .recovering
  · rcases hhealed : (e.filled ps).gapBuffer.contains e.expectedSeq with _ | _
    · rw [onRecoveryPackets_missing F hstate hhealed]
      exact h.filled ps
    · obtain ⟨-, -, hbuffer, -, -⟩ := onRecoveryPackets_healed F hstate hhealed
      exact ((h.filled ps).drains (drainContiguous_drains F _)).of_gapBuffer hbuffer
  · unfold FeedRecoveryEngine.onRecoveryPackets
    rw [if_pos hstate]
    exact h

theorem Keyed.onPacket {e : FeedRecoveryEngine V} (h : e.Keyed) (handler : Option (ReplayHandler V)) (packet : FeedPacket V) :
    (e.onPacket F handler packet).2.Keyed := by
  have hset := h.set packet
  rcases onPacket_cases F handler packet e with ⟨-, hs⟩ | ⟨-, -, -, hs⟩ | ⟨-, -, -, -, hs⟩ | ⟨-, -, -, -, state, -, hs⟩ |
    ⟨-, -, -, ps, -, happly⟩ | ⟨-, -, hs⟩ | ⟨-, -, happly⟩
  · exact h.of_gapBuffer hs.buffer
  · exact h.of_gapBuffer hs.buffer
  · exact hset.of_gapBuffer hs.buffer
  · exact hset.of_gapBuffer hs.buffer
  · rw [happly]
    exact (hset.of_gapBuffer (e.asking_spec packet).2.2.1).onRecoveryPackets F ps
  · exact hset.of_gapBuffer hs.buffer
  · rw [happly]
    have hpast : (e.past packet).Keyed := h
    exact (hpast.drains (drainContiguous_drains F _)).of_gapBuffer (onExpected_spec F packet e).2.2.1

theorem Keyed.call {e : FeedRecoveryEngine V} (h : e.Keyed) (c : FeedCall V) : (e.call F c).2.Keyed := by
  cases c with
  | connect requireSnapshot =>
    refine h.of_gapBuffer ?_
    cases requireSnapshot <;> simp [FeedRecoveryEngine.call, connect]
  | disconnect => exact .empty rfl
  | onSnapshot seq ts =>
    unfold FeedRecoveryEngine.call onSnapshot
    dsimp only
    split
    · exact h.of_gapBuffer (by simp)
    · exact .empty (by simp)
  | onPacket handler packet => exact h.onPacket F handler packet
  | onRecoveryPackets ps => exact h.onRecoveryPackets F ps
  | onRecoveryFailed => exact h.of_gapBuffer (by simp [FeedRecoveryEngine.call, onRecoveryFailed])

/-! ## In order, in every run -/

/-- A replay within a call that heals the gap: what it drains is not returned. -/
def Discards (e : FeedRecoveryEngine V) : FeedCall V → Prop
  | .onPacket handler packet =>
    e.state = .live ∧ e.expectedSeq < packet.sequenceNum ∧ (e.gapBuffer.size : Int) < e.maxBufferSize ∧
      ∃ ps, e.replayFor handler packet = some ps ∧
        (e.gapBuffer.contains e.expectedSeq = true ∨ ∃ p ∈ ps, p.sequenceNum = e.expectedSeq)
  | _ => False

theorem onRecoveryPackets_inOrder {e : FeedRecoveryEngine V} (he : e.Keyed) (ps : List (FeedPacket V)) {first : Int}
    {handed : List (FeedPacket V)} (h : InOrder e.expectedSeq first handed) :
    InOrder (e.onRecoveryPackets F ps).2.expectedSeq first (handed ++ (e.onRecoveryPackets F ps).1) := by
  have hfilled := filled_spec ps e
  by_cases hstate : e.state = .recovering
  · rcases hhealed : (e.filled ps).gapBuffer.contains e.expectedSeq with _ | _
    · rw [onRecoveryPackets_missing F hstate hhealed, List.append_nil, hfilled.1]
      exact h
    · obtain ⟨hout, hexpected, -, -, -⟩ := onRecoveryPackets_healed F hstate hhealed
      rw [hout, hexpected]
      refine drainLoop_inOrder F _ (he.filled ps) ?_
      rw [hfilled.1]
      exact h
  · unfold onRecoveryPackets
    rw [if_pos hstate, List.append_nil]
    exact h

theorem onExpected_inOrder {e : FeedRecoveryEngine V} (he : e.Keyed) {packet : FeedPacket V}
    (hpacket : packet.sequenceNum = e.expectedSeq) {first : Int} {handed : List (FeedPacket V)}
    (h : InOrder e.expectedSeq first handed) :
    InOrder (e.onExpected F packet).2.expectedSeq first (handed ++ (e.onExpected F packet).1) := by
  obtain ⟨hout, hexpected, -, -, -⟩ := onExpected_spec F packet e
  have hpast : (e.past packet).Keyed := he
  have hdrained := drainLoop_inOrder F (e.past packet).gapBuffer.size hpast (h.snoc hpacket)
  rw [List.append_assoc] at hdrained
  rw [hout, hexpected]
  exact hdrained

/-- What a replay within a call drains is missing from what is handed out. -/
theorem onPacket_inOrder_iff {e : FeedRecoveryEngine V} (he : e.Keyed) (handler : Option (ReplayHandler V)) (packet : FeedPacket V)
    {first : Int} {handed : List (FeedPacket V)} (h : InOrder e.expectedSeq first handed) :
    InOrder (e.onPacket F handler packet).2.expectedSeq first (handed ++ (e.onPacket F handler packet).1) ↔
      ¬e.Discards (.onPacket handler packet) := by
  have hstays : ∀ {buffer state}, Stays e buffer state (e.onPacket F handler packet) →
      InOrder (e.onPacket F handler packet).2.expectedSeq first (handed ++ (e.onPacket F handler packet).1) := by
    intro buffer state hs
    rw [hs.nothing, hs.expected, List.append_nil]
    exact h
  rcases onPacket_cases F handler packet e with ⟨hquiet, hs⟩ | ⟨-, -, hfull, hs⟩ | ⟨-, hlive, -, -, hs⟩ | ⟨-, -, -, hnone, state, -, hs⟩ |
    ⟨hlive, hgap, hroom, ps, hps, happly⟩ | ⟨hrec, -, hs⟩ | ⟨-, heq, happly⟩
  · refine iff_of_true (hstays hs) ?_
    rintro ⟨hlive, hgap, -, -⟩
    rcases hquiet with hclosed | hlt
    · exact hclosed (.inl hlive)
    · omega
  · refine iff_of_true (hstays hs) ?_
    rintro ⟨-, -, hroom, -⟩
    omega
  · exact iff_of_true (hstays hs) (fun hd => hlive hd.1)
  · refine iff_of_true (hstays hs) ?_
    rintro ⟨-, -, -, ps, hps, -⟩
    rw [hnone] at hps
    cases hps
  · obtain ⟨hstate, hexpected, hbuffer, -⟩ := e.asking_spec packet
    have hcontains : ((e.asking packet).filled ps).gapBuffer.contains e.expectedSeq = true ↔
        e.gapBuffer.contains e.expectedSeq = true ∨ ∃ p ∈ ps, p.sequenceNum = e.expectedSeq := by
      rw [contains_filled, hbuffer, hexpected, Dict.contains_set]
      have hne : ¬e.expectedSeq = packet.sequenceNum := by omega
      simp [hne]
    rw [happly, List.append_nil]
    rcases hhealed : ((e.asking packet).filled ps).gapBuffer.contains e.expectedSeq with _ | _
    · rw [onRecoveryPackets_missing F hstate (by rw [hexpected]; exact hhealed), (filled_spec ps _).1, hexpected]
      refine iff_of_true h ?_
      rintro ⟨-, -, -, ps', hps', hd⟩
      rw [hps, Option.some.injEq] at hps'
      subst hps'
      rw [hcontains.mpr hd] at hhealed
      cases hhealed
    · -- the expected number moves on, but nothing is handed out
      obtain ⟨-, hmoved, -, -, -⟩ := onRecoveryPackets_healed F hstate (by rw [hexpected]; exact hhealed)
      refine iff_of_false ?_ (not_not.mpr ⟨hlive, hgap, hroom, ps, hps, hcontains.mp hhealed⟩)
      rintro ⟨-, hnext⟩
      have hlt := drainContiguous_lt F (e := (e.asking packet).filled ps) (by rw [(filled_spec ps _).1, hexpected]; exact hhealed)
      rw [(filled_spec ps _).1, hexpected, ← hmoved, hnext, ← h.2] at hlt
      exact lt_irrefl _ hlt
  · exact iff_of_true (hstays hs) (fun hd => by rw [hd.1] at hrec; cases hrec)
  · rw [happly]
    refine iff_of_true (onExpected_inOrder F he heq h) ?_
    rintro ⟨-, hgap, -, -⟩
    omega

end FeedRecoveryEngine

/-- The calls made so far: the engine, the first number to come since the last snapshot, and what callers have got since. -/
structure FeedRun (V : Type) where
  engine : FeedRecoveryEngine V
  first : Int
  handed : List (FeedPacket V)

namespace FeedRun

variable (F : Floats V)

/-- One more call. A snapshot that is accepted begins anew. -/
def step (r : FeedRun V) (c : FeedCall V) : FeedRun V :=
  match c with
  | .onSnapshot seq ts =>
    if (r.engine.onSnapshot F seq ts).1 then ⟨(r.engine.call F c).2, seq + 1, []⟩ else ⟨(r.engine.call F c).2, r.first, r.handed⟩
  | c => ⟨(r.engine.call F c).2, r.first, r.handed ++ (r.engine.call F c).1⟩

def new (channelId : String) (initialSeq maxBufferSize : Int) : FeedRun V :=
  ⟨.new F channelId initialSeq maxBufferSize, initialSeq, []⟩

/-- What callers have got is in order. -/
def Serves (r : FeedRun V) : Prop := InOrder r.engine.expectedSeq r.first r.handed

variable {F}

theorem step_engine (r : FeedRun V) (c : FeedCall V) : (r.step F c).engine = (r.engine.call F c).2 := by
  unfold step
  split
  · split <;> rfl
  · rfl

theorem step_serves_iff {r : FeedRun V} (hkeyed : r.engine.Keyed) (h : r.Serves) (c : FeedCall V) :
    (r.step F c).Serves ↔ ¬r.engine.Discards c := by
  have hquiet : ∀ e : FeedRecoveryEngine V, e.expectedSeq = r.engine.expectedSeq → InOrder e.expectedSeq r.first (r.handed ++ []) := by
    intro e he
    rw [he, List.append_nil]
    exact h
  cases c with
  | connect requireSnapshot =>
    have hsame : (r.engine.connect requireSnapshot).expectedSeq = r.engine.expectedSeq := by
      cases requireSnapshot <;> simp [FeedRecoveryEngine.connect]
    exact iff_of_true (hquiet _ hsame) not_false
  | disconnect =>
    have hsame : r.engine.disconnect.expectedSeq = r.engine.expectedSeq := by simp [FeedRecoveryEngine.disconnect]
    exact iff_of_true (hquiet _ hsame) not_false
  | onSnapshot seq ts =>
    refine iff_of_true ?_ not_false
    unfold step Serves FeedRecoveryEngine.call FeedRecoveryEngine.onSnapshot
    dsimp only
    by_cases hstale : r.engine.isStale F ts = true
    · simp only [hstale, if_true, Bool.false_eq_true, if_false, FeedRecoveryEngine.setState_expectedSeq]
      exact h
    · simp only [hstale, Bool.false_eq_true, if_false, if_true, FeedRecoveryEngine.setState_expectedSeq]
      exact ⟨List.isChain_nil, rfl⟩
  | onPacket handler packet => exact r.engine.onPacket_inOrder_iff F hkeyed handler packet h
  | onRecoveryPackets ps => exact iff_of_true (r.engine.onRecoveryPackets_inOrder F hkeyed ps h) not_false
  | onRecoveryFailed =>
    have hsame : r.engine.onRecoveryFailed.expectedSeq = r.engine.expectedSeq := by simp [FeedRecoveryEngine.onRecoveryFailed]
    exact iff_of_true (hquiet _ hsame) not_false

end FeedRun

/-- After every call, what callers have got since the last snapshot is in order up to the expected number, exactly when no call heals
a gap by a replay of its own. -/
theorem feed_hands_out (F : Floats V) (channelId : String) (initialSeq maxBufferSize : Int) (cs : List (FeedCall V)) :
    (∀ fs, fs <+: cs → (runFrom (FeedRun.step F) (.new F channelId initialSeq maxBufferSize) fs).Serves) ↔
      Along (FeedRun.step F) (fun r c => ¬r.engine.Discards c) (.new F channelId initialSeq maxBufferSize) cs := by
  refine Along.iff_prefixes (J := fun r => r.engine.Keyed) ?_ ?_ ?_ ?_ cs
  · intro r c h _
    rw [FeedRun.step_engine]
    exact h.call F c
  · intro r c hkeyed h
    exact FeedRun.step_serves_iff hkeyed h c
  · exact .empty rfl
  · exact ⟨List.isChain_nil, rfl⟩

/-- A packet with a number. -/
def packetAt (seq : Int) : FeedPacket (Option ℚ) := ⟨"A", seq, [], some 1, false⟩

/-- The handler of a replay finds the missing packet within the call: the packet and the one after it are gone. -/
theorem feed_hands_out_false :
    ¬∀ cs fs : List (FeedCall (Option ℚ)), fs <+: cs →
      (runFrom (FeedRun.step exactNumbers) (.new exactNumbers "A" 1 10000) fs).Serves := by
  intro h
  have hserves := h _ [.connect false, .onPacket (some (fun _ _ _ => some [packetAt 1])) (packetAt 2)] (List.prefix_refl _)
  have hexpected := hserves.2
  revert hexpected
  decide

/-! ## No packet waits in a live feed -/

namespace FeedRecoveryEngine

/-- Only numbers after the expected one wait, not too many of them, and none in a live feed. -/
structure Healthy (e : FeedRecoveryEngine V) : Prop where
  above : ∀ k, e.gapBuffer.contains k = true → e.expectedSeq < k
  bounded : e.gapBuffer.size ≤ e.maxBufferSize
  quiet : e.state = .live → e.gapBuffer.items = []

/-- A replay brings all that is missing before the packets that wait, or else not too many packets. -/
def Heals (e : FeedRecoveryEngine V) (ps : List (FeedPacket V)) : Prop :=
  if (e.filled ps).gapBuffer.contains e.expectedSeq then
    ∀ k, (e.filled ps).gapBuffer.contains k = true → ∀ j, e.expectedSeq ≤ j → j ≤ k → (e.filled ps).gapBuffer.contains j = true
  else (e.filled ps).gapBuffer.size ≤ e.maxBufferSize

/-- A call that leaves no gap behind: the connection is declared live with nothing waiting, no packet comes that is expected while
others are recovered, and a replay heals all gaps at once. -/
def Safe (e : FeedRecoveryEngine V) : FeedCall V → Prop
  | .connect false => e.gapBuffer.items = []
  | .onPacket handler packet =>
    (e.state = .recovering → packet.sequenceNum ≠ e.expectedSeq) ∧
      (e.state = .live → e.expectedSeq < packet.sequenceNum → (e.gapBuffer.size : Int) < e.maxBufferSize →
        ∀ ps, e.replayFor handler packet = some ps → (e.asking packet).Heals ps)
  | .onRecoveryPackets ps => e.state = .recovering → e.Heals ps
  | _ => True

variable (F : Floats V)

theorem Healthy.nonneg {e : FeedRecoveryEngine V} (h : e.Healthy) : 0 ≤ e.maxBufferSize :=
  (Int.natCast_nonneg e.gapBuffer.size).trans h.bounded

theorem healthy_of_empty {e : FeedRecoveryEngine V} (hempty : e.gapBuffer.items = []) (hmax : 0 ≤ e.maxBufferSize) : e.Healthy := by
  refine ⟨?_, ?_, fun _ => hempty⟩
  · intro k hk
    rw [Dict.items_eq_nil_iff.mp hempty k] at hk
    cases hk
  · rw [Dict.size, hempty]
    exact hmax

theorem onRecoveryPackets_healthy_iff {e : FeedRecoveryEngine V} (hstate : e.state = .recovering) (hmax : 0 ≤ e.maxBufferSize)
    (habove : ∀ k, e.gapBuffer.contains k = true → e.expectedSeq < k) (ps : List (FeedPacket V)) :
    (e.onRecoveryPackets F ps).2.Healthy ↔ e.Heals ps := by
  obtain ⟨hexpected, hstate', hmax'⟩ := filled_spec ps e
  have hfrom : ∀ k, (e.filled ps).gapBuffer.contains k = true → e.expectedSeq ≤ k := by
    intro k hk
    rcases (contains_filled ps e k).mp hk with hold | ⟨hle, -⟩
    · exact (habove k hold).le
    · exact hle
  unfold Heals
  rcases hhealed : (e.filled ps).gapBuffer.contains e.expectedSeq with _ | _
  · rw [onRecoveryPackets_missing F hstate hhealed, if_neg Bool.false_ne_true]
    constructor
    · intro h
      exact hmax' ▸ h.bounded
    · intro hbounded
      refine ⟨?_, hmax' ▸ hbounded, ?_⟩
      · intro k hk
        rcases lt_or_eq_of_le (hfrom k hk) with hlt | heq
        · exact hexpected ▸ hlt
        · rw [heq, hk] at hhealed
          cases hhealed
      · intro hlive
        rw [hstate', hstate] at hlive
        cases hlive
  · obtain ⟨-, hexpected', hbuffer, hsame, hlive⟩ := onRecoveryPackets_healed F hstate hhealed
    have hdrains := drainContiguous_drains F (e.filled ps)
    have hstops := drainContiguous_stops F (e.filled ps)
    rw [if_pos rfl]
    constructor
    · -- nothing is left: every number that waited was drained, and so was every number before it
      intro h k hk j hj hjk
      have hempty := h.quiet hlive
      rw [hbuffer, Dict.items_eq_nil_iff] at hempty
      have hgone := hempty k
      rw [Dict.contains, hdrains.buffer] at hgone
      split at hgone
      · rename_i hrange
        exact hdrains.drained j (by omega) (by omega)
      · rw [Dict.contains] at hk
        rw [hk] at hgone
        cases hgone
    · intro h
      refine healthy_of_empty ?_ (hsame ▸ hmax)
      rw [hbuffer, Dict.items_eq_nil_iff]
      intro k
      rw [Dict.contains, hdrains.buffer]
      split
      · rfl
      · rename_i hrange
        by_contra hleft
        -- the number at which draining stopped would have been there as well
        have hk : (e.filled ps).gapBuffer.contains k = true := Bool.not_eq_false _ ▸ hleft
        have hle := hfrom k hk
        have hfirst := hdrains.expected
        have hnext := h k hk ((e.filled ps).drainContiguous F).2.expectedSeq (by omega) (by omega)
        rw [Dict.contains, hdrains.buffer, if_neg (by omega)] at hstops
        rw [Dict.contains, hstops] at hnext
        cases hnext

theorem Healthy.of_same {e e' : FeedRecoveryEngine V} (h : e.Healthy) (hexpected : e'.expectedSeq = e.expectedSeq)
    (hmax : e'.maxBufferSize = e.maxBufferSize) (hbuffer : e'.gapBuffer = e.gapBuffer) (hstate : e'.state = .live → e.state = .live) :
    e'.Healthy := by
  refine ⟨?_, ?_, ?_⟩
  · rw [hbuffer, hexpected]
    exact h.above
  · rw [hbuffer, hmax]
    exact h.bounded
  · intro hlive
    rw [hbuffer]
    exact h.quiet (hstate hlive)

theorem Healthy.stays {e : FeedRecoveryEngine V} (h : e.Healthy) {state : FeedState} {r : List (FeedPacket V) × FeedRecoveryEngine V}
    (hs : Stays e e.gapBuffer state r) (hstate : state = .live → e.state = .live) : r.2.Healthy :=
  h.of_same hs.expected hs.maxBufferSize hs.buffer (fun hlive => hstate (hs.state.symm.trans hlive))

theorem Healthy.waits {e : FeedRecoveryEngine V} (h : e.Healthy) {packet : FeedPacket V} (hgap : e.expectedSeq < packet.sequenceNum)
    (hroom : (e.gapBuffer.size : Int) < e.maxBufferSize) {state : FeedState} {r : List (FeedPacket V) × FeedRecoveryEngine V}
    (hs : Stays e (e.gapBuffer.set packet.sequenceNum packet) state r) (hstate : state ≠ .live) : r.2.Healthy := by
  have hsize := Dict.size_set_le e.gapBuffer packet.sequenceNum packet
  refine ⟨?_, ?_, ?_⟩
  · intro k hk
    rw [hs.buffer, Dict.contains_set, Bool.or_eq_true, decide_eq_true_eq] at hk
    rw [hs.expected]
    rcases hk with rfl | hk
    · exact hgap
    · exact h.above k hk
  · rw [hs.buffer, hs.maxBufferSize]
    omega
  · intro hlive
    exact absurd (hs.state.symm.trans hlive) hstate

theorem Healthy.onExpected {e : FeedRecoveryEngine V} (h : e.Healthy) (packet : FeedPacket V) :
    (e.onExpected F packet).2.Healthy := by
  obtain ⟨-, hexpected, hbuffer, hmax, hstate⟩ := onExpected_spec F packet e
  have hdrains := drainContiguous_drains F (e.past packet)
  have hstops := drainContiguous_stops F (e.past packet)
  have hfirst : e.expectedSeq + 1 ≤ _ := hdrains.expected
  have hpast : (e.past packet).gapBuffer = e.gapBuffer := rfl
  have hpastSeq : (e.past packet).expectedSeq = e.expectedSeq + 1 := rfl
  have hgone : ∀ k, ((e.past packet).drainContiguous F).2.gapBuffer.contains k = true →
      e.gapBuffer.contains k = true ∧ ((e.past packet).drainContiguous F).2.expectedSeq ≤ k := by
    intro k hk
    rw [Dict.contains, hdrains.buffer, hpast, hpastSeq] at hk
    split at hk
    · cases hk
    · have hlt := h.above k hk
      exact ⟨hk, by omega⟩
  refine ⟨?_, ?_, ?_⟩
  · intro k hk
    rw [hbuffer] at hk
    rw [hexpected]
    rcases lt_or_eq_of_le (hgone k hk).2 with hlt | heq
    · exact hlt
    · rw [heq, hk] at hstops
      cases hstops
  · rw [hbuffer, hmax]
    have hsize := hdrains.size
    have hbounded := h.bounded
    rw [hpast] at hsize
    omega
  · intro hlive
    rw [hbuffer, Dict.items_eq_nil_iff]
    intro k
    by_contra hleft
    have hk := (hgone k (Bool.not_eq_false _ ▸ hleft)).1
    rw [Dict.items_eq_nil_iff.mp (h.quiet (hstate.symm.trans hlive)) k] at hk
    cases hk

theorem onPacket_healthy_iff {e : FeedRecoveryEngine V} (h : e.Healthy) (handler : Option (ReplayHandler V)) (packet : FeedPacket V) :
    (e.onPacket F handler packet).2.Healthy ↔ e.Safe (.onPacket handler packet) := by
  rcases onPacket_cases F handler packet e with ⟨hquiet, hs⟩ | ⟨-, hgap, hfull, hs⟩ | ⟨-, hlive, hgap, hroom, hs⟩ |
    ⟨hlive, hgap, hroom, hnone, state, hstate, hs⟩ | ⟨hlive, hgap, hroom, ps, hps, happly⟩ | ⟨hrec, heq, hs⟩ | ⟨hlive, heq, happly⟩
  · refine iff_of_true (h.stays hs id) ⟨?_, ?_⟩
    · intro hrec heq
      rcases hquiet with hclosed | hlt
      · exact hclosed (.inr (.inl hrec))
      · omega
    · intro hlive hgap
      rcases hquiet with hclosed | hlt
      · exact absurd (.inl hlive) hclosed
      · omega
  · refine iff_of_true (h.stays hs nofun) ⟨fun _ => by omega, fun _ _ hroom => ?_⟩
    omega
  · exact iff_of_true (h.waits hgap hroom hs hlive) ⟨fun _ => by omega, fun hlive' => absurd hlive' hlive⟩
  · refine iff_of_true (h.waits hgap hroom hs ?_) ⟨fun _ => by omega, fun _ _ _ ps hps => ?_⟩
    · rcases hstate with rfl | rfl
      · exact nofun
      · exact nofun
    · rw [hnone] at hps
      cases hps
  · obtain ⟨hstate, hexpected, hbuffer, hmax⟩ := e.asking_spec packet
    have habove : ∀ k, (e.asking packet).gapBuffer.contains k = true → (e.asking packet).expectedSeq < k := by
      intro k hk
      rw [hbuffer, Dict.contains_set, Bool.or_eq_true, decide_eq_true_eq] at hk
      rw [hexpected]
      rcases hk with rfl | hk
      · exact hgap
      · exact h.above k hk
    have hrecovered := onRecoveryPackets_healthy_iff F hstate (hmax ▸ h.nonneg) habove ps
    rw [happly]
    refine hrecovered.trans ⟨?_, ?_⟩
    · intro hheals
      refine ⟨fun _ => by omega, fun _ _ _ ps' hps' => ?_⟩
      rw [hps, Option.some.injEq] at hps'
      exact hps' ▸ hheals
    · rintro ⟨-, hsafe⟩
      exact hsafe hlive hgap hroom ps hps
  · refine iff_of_false ?_ (fun hsafe => hsafe.1 hrec heq)
    intro hhealthy
    have hlt := hhealthy.above packet.sequenceNum (by rw [hs.buffer, Dict.contains_set]; simp)
    rw [hs.expected] at hlt
    omega
  · rw [happly]
    refine iff_of_true (h.onExpected F packet) ⟨?_, fun _ hgap => ?_⟩
    · intro hrec
      rcases hlive with hlive | hlive
      · rw [hlive] at hrec
        cases hrec
      · rw [hlive] at hrec
        cases hrec
    · omega

theorem call_healthy_iff {e : FeedRecoveryEngine V} (h : e.Healthy) (c : FeedCall V) : (e.call F c).2.Healthy ↔ e.Safe c := by
  cases c with
  | connect requireSnapshot =>
    cases requireSnapshot with
    | true =>
      refine iff_of_true (h.of_same ?_ ?_ ?_ ?_) trivial <;> simp [call, connect]
    | false =>
      have hbuffer : (e.connect false).gapBuffer = e.gapBuffer := by simp [connect]
      constructor
      · intro hhealthy
        have hempty := hhealthy.quiet (by simp [call, connect])
        rw [call, hbuffer] at hempty
        exact hempty
      · intro hempty
        refine healthy_of_empty ?_ ?_
        · rw [call, hbuffer]
          exact hempty
        · simpa [call, connect] using h.nonneg
  | disconnect => exact iff_of_true (healthy_of_empty rfl (by simpa [call, disconnect] using h.nonneg)) trivial
  | onSnapshot seq ts =>
    refine iff_of_true ?_ trivial
    unfold call onSnapshot
    dsimp only
    split
    · refine h.of_same ?_ ?_ ?_ ?_ <;> simp
    · exact healthy_of_empty (by simp [Dict.empty]) (by simpa using h.nonneg)
  | onPacket handler packet => exact onPacket_healthy_iff F h handler packet
  | onRecoveryPackets ps =>
    by_cases hstate : e.state = .recovering
    · refine (onRecoveryPackets_healthy_iff F hstate h.nonneg h.above ps).trans ?_
      exact ⟨fun hheals _ => hheals, fun hsafe => hsafe hstate⟩
    · refine iff_of_true ?_ (fun hrec => absurd hrec hstate)
      have happly : e.onRecoveryPackets F ps = ([], _) := if_pos hstate
      rw [call, happly]
      exact ⟨h.above, h.bounded, h.quiet⟩
  | onRecoveryFailed =>
    refine iff_of_true (h.of_same ?_ ?_ ?_ ?_) trivial <;> simp [call, onRecoveryFailed]

theorem Healthy.run_iff {e : FeedRecoveryEngine V} (h : e.Healthy) (cs : List (FeedCall V)) :
    (∀ fs, fs <+: cs → (runFrom (fun e c => (call F e c).2) e fs).Healthy) ↔ Along (fun e c => (call F e c).2) Safe e cs := by
  refine Along.iff_prefixes (I := Healthy) (J := fun _ => True) ?_ ?_ trivial h cs
  · exact fun _ _ _ _ => trivial
  · intro e c _ h
    exact call_healthy_iff F h c

end FeedRecoveryEngine

/-- After every call, only numbers after the expected one wait, no more than there is room for and none in a live feed, exactly when
the room is not negative and no call leaves a gap behind. -/
theorem feed_healthy (F : Floats V) (channelId : String) (initialSeq maxBufferSize : Int) (cs : List (FeedCall V)) :
    (∀ fs, fs <+: cs → (runFrom (fun e c => (FeedRecoveryEngine.call F e c).2) (.new F channelId initialSeq maxBufferSize) fs).Healthy) ↔
      0 ≤ maxBufferSize ∧
        Along (fun e c => (FeedRecoveryEngine.call F e c).2) FeedRecoveryEngine.Safe (.new F channelId initialSeq maxBufferSize) cs := by
  constructor
  · intro h
    have hnew := h [] List.nil_prefix
    exact ⟨hnew.nonneg, (hnew.run_iff F cs).mp h⟩
  · rintro ⟨hmax, halong⟩
    have hnew : (FeedRecoveryEngine.new F channelId initialSeq maxBufferSize).Healthy :=
      FeedRecoveryEngine.healthy_of_empty rfl hmax
    exact (hnew.run_iff F cs).mpr halong

/-- Two gaps, of which the first is healed: the feed is live while a packet waits. -/
theorem feed_healthy_false :
    ¬∀ cs fs : List (FeedCall (Option ℚ)), fs <+: cs →
      (runFrom (fun e c => (FeedRecoveryEngine.call exactNumbers e c).2) (.new exactNumbers "A" 1 10000) fs).Healthy := by
  intro h
  have hhealthy := h _ [.connect false, .onPacket none (packetAt 2), .onPacket none (packetAt 4), .onRecoveryPackets [packetAt 1]]
    (List.prefix_refl _)
  have hquiet := congrArg List.length (hhealthy.quiet (by decide))
  revert hquiet
  decide

end Mdrap
