import Mdrap.Feed.Arbitrator

/-!
# The packets of a channel

A gap buffer holds each packet under its own number, wherever the packet comes from, and packets leave it only in the order of the
numbers from the expected one on. What the threads do in between does not move a channel's number, so that the packets of a
channel are given on without a gap and without a repetition.
-/

namespace Mdrap

open Lib

/-- The packets have the numbers from one on, one after the other. -/
def NumberedFrom (first : Int) (pkts : List UdpPacket) : Prop :=
  pkts.map UdpPacket.sequenceNum = (List.range pkts.length).map (fun (i : Nat) => first + i)

theorem NumberedFrom.nil (first : Int) : NumberedFrom first [] := rfl

theorem NumberedFrom.cons {first : Int} {pkt : UdpPacket} {pkts : List UdpPacket} (h : pkt.sequenceNum = first)
    (hs : NumberedFrom (first + 1) pkts) : NumberedFrom first (pkt :: pkts) := by
  rw [NumberedFrom, List.map_cons, List.length_cons, List.range_succ_eq_map, List.map_cons, List.map_map, h, hs]
  simp only [Nat.cast_zero, add_zero, List.cons.injEq, true_and]
  refine List.map_congr_left (fun i _ => ?_)
  simp only [Function.comp_apply, Nat.succ_eq_add_one]
  push_cast
  omega

theorem NumberedFrom.append {first : Int} {xs ys : List UdpPacket} (hx : NumberedFrom first xs)
    (hy : NumberedFrom (first + xs.length) ys) : NumberedFrom first (xs ++ ys) := by
  rw [NumberedFrom, List.map_append, List.length_append, List.range_add, List.map_append, List.map_map, hx, hy]
  congr 1
  refine List.map_congr_left (fun i _ => ?_)
  simp only [Function.comp_apply]
  push_cast
  omega

/-! ## Gap buffers -/

/-- Each packet is held under its own number. -/
def FiledBySeq (buf : Dict Int UdpPacket) : Prop := ∀ seq pkt, buf.get? seq = some pkt → pkt.sequenceNum = seq

namespace FiledBySeq

theorem empty : FiledBySeq .empty := fun _ _ h => nomatch h

theorem set {buf : Dict Int UdpPacket} (h : FiledBySeq buf) (pkt : UdpPacket) : FiledBySeq (buf.set pkt.sequenceNum pkt) := by
  intro seq pkt' hget
  rw [Dict.get?_set] at hget
  split at hget
  · rename_i hseq
    cases hget
    exact hseq.symm
  · exact h seq pkt' hget

theorem erase {buf : Dict Int UdpPacket} (h : FiledBySeq buf) (seq : Int) : FiledBySeq (buf.erase seq) := by
  intro seq' pkt hget
  rw [Dict.get?_erase] at hget
  split at hget
  · cases hget
  · exact h seq' pkt hget

theorem takeReplayed {buf : Dict Int UdpPacket} (h : FiledBySeq buf) (expected : Int) (pkts : List UdpPacket) :
    FiledBySeq (takeReplayed expected pkts buf).2 := by
  induction pkts generalizing buf with
  | nil => exact h
  | cons pkt pkts ih =>
    rw [Mdrap.takeReplayed]
    split
    · exact ih (h.set pkt)
    · exact ih h

theorem drainLoop {buf : Dict Int UdpPacket} (h : FiledBySeq buf) (n : Nat) (curr : Int) :
    NumberedFrom curr (drainLoop n curr buf).1 ∧ (drainLoop n curr buf).2.1 = curr + (drainLoop n curr buf).1.length ∧
      FiledBySeq (drainLoop n curr buf).2.2 := by
  induction n generalizing curr buf with
  | zero => exact ⟨.nil curr, by simp [Mdrap.drainLoop], h⟩
  | succ n ih =>
    rw [Mdrap.drainLoop]
    rcases hget : buf.get? curr with _ | pkt
    · exact ⟨.nil curr, by simp, h⟩
    · obtain ⟨hnumbered, hcurr, hfiled⟩ := ih (h.erase curr) (curr + 1)
      refine ⟨.cons (h curr pkt hget) hnumbered, ?_, hfiled⟩
      simp only [hcurr, List.length_cons]
      push_cast
      omega

end FiledBySeq

theorem size_erase_lt {buf : Dict Int UdpPacket} {seq : Int} {pkt : UdpPacket} (h : buf.get? seq = some pkt) :
    (buf.erase seq).size < buf.size := by
  rw [Dict.get?] at h
  obtain ⟨kv, hkv, -⟩ := Option.map_eq_some_iff.mp h
  refine List.length_filter_lt_length_iff_exists.mpr ⟨kv, List.mem_of_find?_eq_some hkv, ?_⟩
  have := List.find?_some hkv
  simpa using this

/-- The loop ends because there is no next packet. -/
theorem drainLoop_stops (n : Nat) (curr : Int) (buf : Dict Int UdpPacket) (h : buf.size ≤ n) :
    (drainLoop n curr buf).2.2.get? (drainLoop n curr buf).2.1 = none := by
  induction n generalizing curr buf with
  | zero =>
    have hnil : buf.items = [] := List.eq_nil_of_length_eq_zero (Nat.le_zero.mp h)
    simp [drainLoop, Dict.get?, hnil]
  | succ n ih =>
    rw [drainLoop]
    rcases hget : buf.get? curr with _ | pkt
    · exact hget
    · exact ih (curr + 1) (buf.erase curr) (by have := size_erase_lt hget; omega)

/-! ## What a step gives on -/

namespace AbFeedArbitrator

/-- The gap buffers of all channels hold each packet under its own number. -/
def Filed (a : AbFeedArbitrator) : Prop := ∀ ch, FiledBySeq (a.gapBuffer ch)

/-- A part of a step gives these packets of a channel on: they have the numbers from the expected one on, and the channel's number
moves by as many. -/
structure Gives (ch : String) (pkts : List UdpPacket) (a a' : AbFeedArbitrator) : Prop where
  filed : a'.Filed
  initial : a'.initialSeq = a.initialSeq
  numbered : NumberedFrom (a.getExpectedSeq ch) pkts
  moved : a'.getExpectedSeq ch = a.getExpectedSeq ch + pkts.length
  others : ∀ ch', ch' ≠ ch → a'.getExpectedSeq ch' = a.getExpectedSeq ch'

namespace Gives

variable {ch : String} {xs ys : List UdpPacket} {a a' a'' : AbFeedArbitrator}

theorem trans (h : Gives ch xs a a') (h' : Gives ch ys a' a'') : Gives ch (xs ++ ys) a a'' where
  filed := h'.filed
  initial := h'.initial.trans h.initial
  numbered := h.numbered.append (h.moved ▸ h'.numbered)
  moved := by
    rw [h'.moved, h.moved, List.length_append]
    push_cast
    omega
  others := fun ch' hne => (h'.others ch' hne).trans (h.others ch' hne)

/-- Nothing is given on where no number moves. -/
theorem still (ch : String) (hfiled : a'.Filed) (hinitial : a'.initialSeq = a.initialSeq)
    (hexpected : ∀ ch', a'.getExpectedSeq ch' = a.getExpectedSeq ch') : Gives ch [] a a' :=
  ⟨hfiled, hinitial, .nil _, by rw [hexpected]; simp, fun ch' _ => hexpected ch'⟩

/-- The metrics do not matter. -/
theorem counted (h : Gives ch xs a a') (f : ArbitratorMetrics → ArbitratorMetrics) : Gives ch xs a (a'.count f) :=
  ⟨h.filed, h.initial, h.numbered, h.moved, h.others⟩

end Gives

theorem gapBuffer_setGapBuffer (a : AbFeedArbitrator) (ch ch' : String) (buf : Dict Int UdpPacket) :
    (a.setGapBuffer ch buf).gapBuffer ch' = if ch' = ch then buf else a.gapBuffer ch' := by
  rw [gapBuffer, setGapBuffer, Dict.get?_set]
  split <;> rfl

theorem getExpectedSeq_setExpectedSeq (a : AbFeedArbitrator) (ch ch' : String) (seq : Int) :
    (a.setExpectedSeq ch seq).getExpectedSeq ch' = if ch' = ch then seq else a.getExpectedSeq ch' := by
  rw [getExpectedSeq, setExpectedSeq, Dict.get?_set]
  split <;> rfl

variable {a : AbFeedArbitrator}

theorem Filed.setGapBuffer (h : a.Filed) (ch : String) {buf : Dict Int UdpPacket} (hbuf : FiledBySeq buf) :
    (a.setGapBuffer ch buf).Filed := by
  intro ch'
  rw [gapBuffer_setGapBuffer]
  split
  · exact hbuf
  · exact h ch'

/-- The expected number is noted for a channel. -/
theorem gives_note (h : a.Filed) (ch : String) : Gives ch [] a (a.setExpectedSeq ch (a.getExpectedSeq ch)) := by
  refine .still ch h rfl (fun ch' => ?_)
  rw [getExpectedSeq_setExpectedSeq]
  split
  · rename_i hch
    rw [hch]
  · rfl

theorem gives_drainGapBuffer (h : a.Filed) (ch : String) : Gives ch (a.drainGapBuffer ch).1 a (a.drainGapBuffer ch).2 := by
  obtain ⟨hnumbered, hcurr, hfiled⟩ := (h ch).drainLoop (a.gapBuffer ch).size (a.getExpectedSeq ch)
  refine ⟨h.setGapBuffer ch hfiled, rfl, hnumbered, ?_, ?_⟩
  · rw [drainGapBuffer]
    simp only [getExpectedSeq_setExpectedSeq, if_true]
    exact hcurr
  · intro ch' hne
    rw [drainGapBuffer]
    simp only [getExpectedSeq_setExpectedSeq, if_neg hne]
    rfl

theorem gives_drainCounted (h : a.Filed) (ch : String) : Gives ch (a.drainCounted ch).1 a (a.drainCounted ch).2 := by
  simp only [drainCounted]
  exact (gives_drainGapBuffer h ch).counted _

/-- What an answer brings goes into the gap buffer, and nothing is given on. -/
theorem gives_takeAnswer (h : a.Filed) (ch ch' : String) (expected : Int) (reply : Option (List UdpPacket)) :
    Gives ch [] a (a.takeAnswer ch' expected reply) := by
  rcases reply with _ | pkts
  · exact .still ch h rfl (fun _ => rfl)
  · exact .still ch (h.setGapBuffer ch' ((h ch').takeReplayed expected pkts)) rfl (fun _ => rfl)

theorem gives_askFor (h : a.Filed) (ch : String) (expected seq : Int) (reply : Option (List UdpPacket)) :
    Gives ch [] a (a.askFor ch expected seq reply).2 := by
  rw [askFor]
  split
  · split
    · simp only
      split
      · exact .still ch h rfl (fun _ => rfl)
      · have hcounted : Gives ch [] a (a.count (fun m => { m with tcpReplaysRequested := m.tcpReplaysRequested + 1 })) :=
          .still ch h rfl (fun _ => rfl)
        exact hcounted.trans (gives_takeAnswer hcounted.filed ch ch expected reply)
    · exact .still ch h rfl (fun _ => rfl)
  · exact .still ch h rfl (fun _ => rfl)

theorem gives_buffer (h : a.Filed) {packet : UdpPacket} {a' : AbFeedArbitrator} (hbuffer : a.buffer packet = some a') :
    Gives packet.channelId [] a a' := by
  simp only [buffer] at hbuffer
  split at hbuffer
  · cases hbuffer
    exact .still _ h rfl (fun _ => rfl)
  · split at hbuffer
    · cases hbuffer
    · cases hbuffer
      exact .still _ (h.setGapBuffer _ ((h _).set packet)) rfl (fun _ => rfl)

/-- A packet that is expected is given on. -/
theorem gives_expected (h : a.Filed) {packet : UdpPacket} (hseq : packet.sequenceNum = a.getExpectedSeq packet.channelId) :
    Gives packet.channelId [packet] a (a.setExpectedSeq packet.channelId (a.getExpectedSeq packet.channelId + 1)) := by
  refine ⟨h, rfl, .cons hseq (.nil _), ?_, ?_⟩
  · rw [getExpectedSeq_setExpectedSeq, if_pos rfl]
    rfl
  · intro ch' hne
    rw [getExpectedSeq_setExpectedSeq, if_neg hne]

/-- A packet comes in: it is too old, too early or the expected one. -/
theorem gives_onPacket (h : a.Filed) (packet : UdpPacket) (reply : Option (List UdpPacket)) :
    Gives packet.channelId (a.onPacket packet reply).1 a (a.onPacket packet reply).2.2 := by
  have hfeed : Gives packet.channelId [] a (a.countFeed packet.feedId) := .still _ h rfl (fun _ => rfl)
  have hnoted := hfeed.trans (gives_note hfeed.filed packet.channelId)
  have hexpected : (a.countFeed packet.feedId).getExpectedSeq packet.channelId = a.getExpectedSeq packet.channelId := rfl
  rw [hexpected] at hnoted
  simp only [onPacket]
  generalize (a.countFeed packet.feedId).setExpectedSeq packet.channelId (a.getExpectedSeq packet.channelId) = a₁ at *
  have hsame : a₁.getExpectedSeq packet.channelId = a.getExpectedSeq packet.channelId := by
    rw [hnoted.moved]
    simp
  split
  · dsimp only
    exact hnoted.counted _
  · rename_i hold
    split
    · rcases hbuffer : a₁.buffer packet with _ | a₂
      · dsimp only
        exact hnoted.counted _
      · have hbuffered := hnoted.trans (gives_buffer hnoted.filed hbuffer)
        have hcounted := hbuffered.counted (fun m => { m with gapsDetected := m.gapsDetected + 1 })
        have hasked := hcounted.trans (gives_askFor hcounted.filed packet.channelId (a.getExpectedSeq packet.channelId)
          packet.sequenceNum reply)
        simp only
        rcases hask : (a₂.count (fun m => { m with gapsDetected := m.gapsDetected + 1 })).askFor packet.channelId
          (a.getExpectedSeq packet.channelId) packet.sequenceNum reply with ⟨_ | range, a₃⟩
        · rw [hask] at hasked
          simp only
          split
          · exact hasked.trans (gives_drainCounted hasked.filed _)
          · exact hasked
        · rw [hask] at hasked
          exact hasked
    · rename_i hearly
      have hseq : packet.sequenceNum = a₁.getExpectedSeq packet.channelId := by omega
      have hgiven := hnoted.trans (gives_expected hnoted.filed hseq)
      rw [hsame] at hgiven
      generalize a₁.setExpectedSeq packet.channelId (a.getExpectedSeq packet.channelId + 1) = a₂ at *
      split
      · dsimp only
        exact (hgiven.trans (gives_drainGapBuffer hgiven.filed packet.channelId)).counted _
      · dsimp only
        exact hgiven.counted _

/-- The packets that are given on by a part of a step of all channels, taken by channel. -/
def GivesAll (pkts : List (String × UdpPacket)) (a a' : AbFeedArbitrator) : Prop :=
  a'.Filed ∧ a'.initialSeq = a.initialSeq ∧ ∀ ch, NumberedFrom (a.getExpectedSeq ch) ((pkts.filter (fun p => p.1 = ch)).map (·.2)) ∧
    a'.getExpectedSeq ch = a.getExpectedSeq ch + ((pkts.filter (fun p => p.1 = ch)).map (·.2)).length

theorem GivesAll.trans {xs ys : List (String × UdpPacket)} {a a' a'' : AbFeedArbitrator} (h : GivesAll xs a a')
    (h' : GivesAll ys a' a'') : GivesAll (xs ++ ys) a a'' := by
  refine ⟨h'.1, h'.2.1.trans h.2.1, fun ch => ?_⟩
  obtain ⟨hnumbered, hmoved⟩ := h.2.2 ch
  obtain ⟨hnumbered', hmoved'⟩ := h'.2.2 ch
  rw [List.filter_append, List.map_append]
  refine ⟨hnumbered.append (hmoved ▸ hnumbered'), ?_⟩
  rw [hmoved', hmoved, List.length_append]
  push_cast
  omega

theorem Gives.all {ch : String} {pkts : List UdpPacket} {a a' : AbFeedArbitrator} (h : Gives ch pkts a a') :
    GivesAll (pkts.map (ch, ·)) a a' := by
  refine ⟨h.filed, h.initial, fun ch' => ?_⟩
  rw [List.filter_map]
  by_cases hch : ch' = ch
  · subst hch
    have hall : pkts.filter ((fun p : String × UdpPacket => decide (p.1 = ch')) ∘ (ch', ·)) = pkts := by
      simp [List.filter_eq_self]
    rw [hall, List.map_map]
    have hid : ((fun p : String × UdpPacket => p.2) ∘ (ch', ·)) = id := rfl
    rw [hid, List.map_id]
    exact ⟨h.numbered, h.moved⟩
  · have hnone : pkts.filter ((fun p : String × UdpPacket => decide (p.1 = ch')) ∘ (ch, ·)) = [] := by
      simp [List.filter_eq_nil_iff, Ne.symm hch]
    rw [hnone]
    exact ⟨.nil _, by simpa using h.others ch' hch⟩

theorem givesAll_drainAll (chs : List String) {a : AbFeedArbitrator} (h : a.Filed) : GivesAll (drainAll chs a).1 a (drainAll chs a).2 := by
  induction chs generalizing a with
  | nil => exact (Gives.still "" h rfl (fun _ => rfl)).all
  | cons ch chs ih =>
    rw [drainAll]
    have hone : GivesAll ((if (a.gapBuffer ch).contains (a.getExpectedSeq ch) then a.drainCounted ch else ([], a)).1.map (ch, ·)) a
        (if (a.gapBuffer ch).contains (a.getExpectedSeq ch) then a.drainCounted ch else ([], a)).2 := by
      split
      · exact (gives_drainCounted h ch).all
      · exact (Gives.still ch h rfl (fun _ => rfl)).all
    exact hone.trans (ih hone.1)

end AbFeedArbitrator

/-! ## Whole runs -/

namespace ArbitratorRun

open AbFeedArbitrator

/-- What was given on so far, from an arbitrator that had seen nothing. -/
def InOrder (r : ArbitratorRun) : Prop :=
  ∀ ch, NumberedFrom r.arbitrator.initialSeq (r.ofChannel ch) ∧
    r.arbitrator.getExpectedSeq ch = r.arbitrator.initialSeq + (r.ofChannel ch).length

theorem InOrder.extend {r r' : ArbitratorRun} (h : r.InOrder) {pkts : List (String × UdpPacket)}
    (hgives : GivesAll pkts r.arbitrator r'.arbitrator) (hdispatched : r'.dispatched = r.dispatched ++ pkts) :
    r'.arbitrator.Filed ∧ r'.arbitrator.initialSeq = r.arbitrator.initialSeq ∧ r'.InOrder := by
  refine ⟨hgives.1, hgives.2.1, fun ch => ?_⟩
  obtain ⟨hnumbered, hexpected⟩ := h ch
  obtain ⟨hnumbered', hmoved⟩ := hgives.2.2 ch
  rw [ofChannel, hdispatched, List.filter_append, List.map_append, hgives.2.1]
  refine ⟨hnumbered.append (hexpected ▸ hnumbered'), ?_⟩
  rw [hmoved, hexpected, List.length_append]
  push_cast
  rw [ofChannel]
  omega

theorem step_inOrder {r : ArbitratorRun} (hfiled : r.arbitrator.Filed) (h : r.InOrder) (e : ArbitratorEvent) :
    (r.step e).arbitrator.Filed ∧ (r.step e).arbitrator.initialSeq = r.arbitrator.initialSeq ∧ (r.step e).InOrder := by
  have hidle : GivesAll [] r.arbitrator r.arbitrator := (Gives.still "" hfiled rfl (fun _ => rfl)).all
  cases e with
  | packet packet reply => exact h.extend (gives_onPacket hfiled packet reply).all rfl
  | drain channelId =>
    cases channelId with
    | none => exact h.extend (givesAll_drainAll _ hfiled) rfl
    | some ch => exact h.extend (givesAll_drainAll _ hfiled) rfl
  | answer i reply =>
    rw [step]
    split
    · rename_i job _
      split
      · exact ⟨hfiled, rfl, h⟩
      · exact h.extend (gives_takeAnswer hfiled job.channelId job.channelId _ reply).all (by simp)
    · exact ⟨hfiled, rfl, h⟩
  | done i =>
    rw [step]
    split
    · rename_i job _
      split
      · have hdone : Gives "" [] r.arbitrator (r.arbitrator.replayDone job.channelId job.first job.last) :=
          .still "" hfiled rfl (fun _ => rfl)
        exact h.extend hdone.all (by simp)
      · exact ⟨hfiled, rfl, h⟩
    · exact ⟨hfiled, rfl, h⟩

end ArbitratorRun

/-- In every run of the threads, the packets of a channel that were given on have the numbers from the initial one on, one after the
other, and the expected number is the next one. -/
theorem dispatched_once_inOrder (hasReplayClient : Bool) (maxGapBufferSize initialSeq : Int) (asyncTcpReplay : Bool)
    (es : List ArbitratorEvent) (ch : String) :
    let r := runFrom ArbitratorRun.step (.new (.new hasReplayClient maxGapBufferSize initialSeq asyncTcpReplay)) es
    (r.ofChannel ch).map UdpPacket.sequenceNum = (List.range (r.ofChannel ch).length).map (fun (i : Nat) => initialSeq + i) ∧
      r.arbitrator.getExpectedSeq ch = initialSeq + (r.ofChannel ch).length := by
  intro r
  have hrun : Along ArbitratorRun.step (fun _ _ => True) (.new (.new hasReplayClient maxGapBufferSize initialSeq asyncTcpReplay)) es :=
    .of_forall (fun _ _ _ => trivial) _
  have hend : r.arbitrator.Filed ∧ r.arbitrator.initialSeq = initialSeq ∧ r.InOrder := by
    refine hrun.inv (I := fun r => r.arbitrator.Filed ∧ r.arbitrator.initialSeq = initialSeq ∧ r.InOrder) ?_
      ⟨fun _ => .empty, rfl, fun ch => ⟨.nil _, (add_zero initialSeq).symm⟩⟩
    rintro r e ⟨hfiled, hinitial, hinOrder⟩ -
    obtain ⟨hfiled', hinitial', hinOrder'⟩ := ArbitratorRun.step_inOrder hfiled hinOrder e
    exact ⟨hfiled', hinitial'.trans hinitial, hinOrder'⟩
  obtain ⟨-, hinitial, hinOrder⟩ := hend
  obtain ⟨hnumbered, hexpected⟩ := hinOrder ch
  rw [hinitial] at hnumbered hexpected
  exact ⟨hnumbered, hexpected⟩

end Mdrap
