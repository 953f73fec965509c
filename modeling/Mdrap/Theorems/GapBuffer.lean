import Mathlib.Order.Interval.Finset.Basic
import Mathlib.Data.Int.Interval
import Mdrap.Lib.KeySet
import Mdrap.Theorems.Arbitrator

/-!
# What a gap buffer holds

A live packet is put into the gap buffer of its channel only where there is room for it. The packets of an answer are put in without
a look at the room, and a packet that comes in order moves the channel's number past an entry that an answer may have put under it.
Only the numbers that wait matter for this: a drain leaves those behind that have a missing number before them.
-/

namespace Mdrap

open Lib

/-- What a drain from a number on leaves of the waiting numbers. -/
def leftBehind (curr : Int) (waiting : Finset Int) : Finset Int :=
  waiting.filter (fun n => n < curr ∨ ∃ m ∈ @Finset.Icc Int instLatticeInt.toSemilatticeInf.toPartialOrder.toPreorder _ curr n, m ∉ waiting)

/-- The numbers that wait once these packets are in the gap buffer too. -/
def waitingWith (expected : Int) (buf : Dict Int UdpPacket) (pkts : List UdpPacket) : Finset Int :=
  buf.keySet ∪ ((pkts.map UdpPacket.sequenceNum).filter (expected ≤ ·)).toFinset

theorem leftBehind_of_notMem {curr : Int} {waiting : Finset Int} (h : curr ∉ waiting) : leftBehind curr waiting = waiting := by
  refine Finset.filter_true_of_mem (fun n _ => ?_)
  by_cases hn : n < curr
  · exact .inl hn
  · exact .inr ⟨curr, Finset.mem_Icc.mpr ⟨le_rfl, by omega⟩, h⟩

theorem leftBehind_erase {curr : Int} {waiting : Finset Int} (h : curr ∈ waiting) :
    leftBehind (curr + 1) (waiting.erase curr) = leftBehind curr waiting := by
  ext n
  simp only [leftBehind, Finset.mem_filter, Finset.mem_erase, Finset.mem_Icc]
  constructor
  · rintro ⟨⟨hne, hmem⟩, hold | ⟨m, hm, hmissing⟩⟩
    · exact ⟨hmem, .inl (by omega)⟩
    · exact ⟨hmem, .inr ⟨m, ⟨by omega, hm.2⟩, fun hin => hmissing ⟨by omega, hin⟩⟩⟩
  · rintro ⟨hmem, hold | ⟨m, hm, hmissing⟩⟩
    · exact ⟨⟨by omega, hmem⟩, .inl (by omega)⟩
    · have hne : m ≠ curr := fun heq => hmissing (heq ▸ h)
      exact ⟨⟨by omega, hmem⟩, .inr ⟨m, ⟨by omega, hm.2⟩, fun hin => hmissing hin.2⟩⟩

/-- A drain from a number on gives the waiting numbers on up to a new number, and leaves the others. -/
structure Drains (curr curr' : Int) (waiting waiting' : Finset Int) : Prop where
  left : waiting' = leftBehind curr waiting
  forward : curr ≤ curr'
  given : ∀ m, curr ≤ m → m < curr' → m ∈ waiting

namespace Drains

variable {curr curr' : Int} {waiting waiting' : Finset Int}

theorem none_waits (h : curr ∉ waiting) : Drains curr curr waiting waiting where
  left := (leftBehind_of_notMem h).symm
  forward := le_rfl
  given := fun m hm hlt => absurd hm (by omega)

theorem card_le (h : Drains curr curr' waiting waiting') : waiting'.card ≤ waiting.card := by
  rw [h.left]
  exact Finset.card_filter_le ..

/-- A number that was passed before the drain stays behind. -/
theorem keeps_old (h : Drains curr curr' waiting waiting') {n : Int} (hn : n ∈ waiting) (hold : n < curr) : n ∈ waiting' := by
  rw [h.left]
  exact Finset.mem_filter.mpr ⟨hn, .inl hold⟩

/-- What stays behind is ahead of the new number. -/
theorem ahead (h : Drains curr curr' waiting waiting') (hwaiting : ∀ n ∈ waiting, curr ≤ n) : ∀ n ∈ waiting', curr' ≤ n := by
  intro n hn
  rw [h.left] at hn
  obtain ⟨hmem, hold | ⟨m, hm, hmissing⟩⟩ := Finset.mem_filter.mp hn
  · exact absurd (hwaiting n hmem) (by omega)
  · rw [Finset.mem_Icc] at hm
    by_contra hlt
    exact hmissing (h.given m hm.1 (by omega))

end Drains

/-! ## Gap buffers -/

/-- A gap buffer holds each packet once, under its own number. -/
def Tidy (buf : Dict Int UdpPacket) : Prop := FiledBySeq buf ∧ buf.Distinct

theorem Tidy.empty : Tidy .empty := ⟨.empty, Dict.distinct_empty⟩

theorem Tidy.set {buf : Dict Int UdpPacket} (h : Tidy buf) (pkt : UdpPacket) : Tidy (buf.set pkt.sequenceNum pkt) :=
  ⟨h.1.set pkt, h.2.set _ pkt⟩

theorem Tidy.erase {buf : Dict Int UdpPacket} (h : Tidy buf) (seq : Int) : Tidy (buf.erase seq) :=
  ⟨h.1.erase seq, h.2.erase seq⟩

/-- The packets of a tidy gap buffer have the numbers that wait. -/
theorem Tidy.forall_values {buf : Dict Int UdpPacket} (h : Tidy buf) {p : Int → Prop} :
    (∀ pkt ∈ buf.values, p pkt.sequenceNum) ↔ ∀ n ∈ buf.keySet, p n := by
  rw [h.2.forall_values (p := fun pkt => p pkt.sequenceNum)]
  constructor
  · intro hall n hn
    obtain ⟨pkt, hget⟩ := Dict.contains_eq_true_iff.mp (Dict.mem_keySet.mp hn)
    have := hall n pkt hget
    rwa [h.1 n pkt hget] at this
  · intro hall n pkt hget
    rw [h.1 n pkt hget]
    exact hall n (Dict.mem_keySet.mpr (Dict.contains_eq_true_iff.mpr ⟨pkt, hget⟩))

/-- An answer is taken into a gap buffer. -/
theorem takeReplayed_spec (expected : Int) (pkts : List UdpPacket) {buf : Dict Int UdpPacket} (h : Tidy buf) :
    Tidy (takeReplayed expected pkts buf).2 ∧ (takeReplayed expected pkts buf).2.keySet = waitingWith expected buf pkts := by
  induction pkts generalizing buf with
  | nil => exact ⟨h, by simp [takeReplayed, waitingWith]⟩
  | cons pkt pkts ih =>
    rw [takeReplayed]
    split
    · rename_i hnew
      obtain ⟨htidy, hkeys⟩ := ih (h.set pkt)
      refine ⟨htidy, hkeys.trans ?_⟩
      rw [waitingWith, waitingWith, Dict.keySet_set, List.map_cons, List.filter_cons_of_pos (by simpa using hnew.2),
        List.toFinset_cons, Finset.insert_union, Finset.union_insert]
    · rename_i hold
      obtain ⟨htidy, hkeys⟩ := ih h
      refine ⟨htidy, hkeys.trans ?_⟩
      by_cases hseq : expected ≤ pkt.sequenceNum
      · have hin : pkt.sequenceNum ∈ buf.keySet := by
          rw [Dict.mem_keySet]
          by_contra hout
          exact hold ⟨hout, hseq⟩
        rw [waitingWith, waitingWith, List.map_cons, List.filter_cons_of_pos (by simpa using hseq), List.toFinset_cons,
          Finset.union_insert, Finset.insert_eq_of_mem (Finset.mem_union_left _ hin)]
      · rw [waitingWith, waitingWith, List.map_cons, List.filter_cons_of_neg (by simpa using hseq)]

/-- The loop of a drain. -/
theorem drainLoop_spec (n : Nat) (curr : Int) {buf : Dict Int UdpPacket} (h : Tidy buf) (hn : buf.size ≤ n) :
    Tidy (drainLoop n curr buf).2.2 ∧ Drains curr (drainLoop n curr buf).2.1 buf.keySet (drainLoop n curr buf).2.2.keySet := by
  induction n generalizing curr buf with
  | zero =>
    have hnil : buf.items = [] := List.eq_nil_of_length_eq_zero (Nat.le_zero.mp hn)
    exact ⟨h, .none_waits (Dict.notMem_keySet.mpr (by simp [Dict.get?, hnil]))⟩
  | succ n ih =>
    rw [drainLoop]
    rcases hget : buf.get? curr with _ | pkt
    · exact ⟨h, .none_waits (Dict.notMem_keySet.mpr hget)⟩
    · have hcurr : curr ∈ buf.keySet := Dict.mem_keySet.mpr (Dict.contains_eq_true_iff.mpr ⟨pkt, hget⟩)
      have hless := Dict.size_erase_lt (Dict.mem_keySet.mp hcurr)
      obtain ⟨htidy, hdrains⟩ := ih (curr + 1) (h.erase curr) (by omega)
      rw [Dict.keySet_erase] at hdrains
      have hnext : curr ≤ curr + 1 := by omega
      refine ⟨htidy, hdrains.left.trans (leftBehind_erase hcurr), hnext.trans hdrains.forward, ?_⟩
      intro m hm hlt
      by_cases heq : m = curr
      · exact heq ▸ hcurr
      · exact Finset.mem_of_mem_erase (hdrains.given m (by omega) hlt)

/-! ## One step -/

/-- Numbers that may wait: none was passed, and there are no more than fit. -/
def FitNumbers (expected room : Int) (waiting : Finset Int) : Prop := (∀ n ∈ waiting, expected ≤ n) ∧ (waiting.card : Int) ≤ room

namespace AbFeedArbitrator

/-- Every gap buffer is tidy. -/
def Tidied (a : AbFeedArbitrator) : Prop := ∀ ch, Tidy (a.gapBuffer ch)

/-- No gap buffer holds a packet that was passed, or more packets than it may. -/
def Clean (a : AbFeedArbitrator) : Prop :=
  ∀ ch, (∀ pkt ∈ (a.gapBuffer ch).values, a.getExpectedSeq ch ≤ pkt.sequenceNum) ∧
    ((a.gapBuffer ch).size : Int) ≤ a.maxGapBufferSize

/-- The numbers that wait on a channel. -/
def waiting (a : AbFeedArbitrator) (ch : String) : Finset Int := (a.gapBuffer ch).keySet

/-- The expected packet is not in the gap buffer already; an answer that is taken in at once, with the packet before it, leaves no more
behind than the buffer may hold once what follows the expected number is given on. -/
def PacketFits (a : AbFeedArbitrator) (packet : UdpPacket) (reply : Option (List UdpPacket)) : Prop :=
  let ch := packet.channelId
  let seq := packet.sequenceNum
  let expected := a.getExpectedSeq ch
  (seq = expected → ¬(a.gapBuffer ch).contains expected) ∧
    (expected < seq → ((a.gapBuffer ch).contains seq ∨ ((a.gapBuffer ch).size : Int) < a.maxGapBufferSize) →
      a.hasReplayClient → ¬a.asyncTcpReplay → a.neededFor ch expected seq ≠ [] →
      ∀ pkts ∈ reply, ((leftBehind expected (waitingWith expected (a.gapBuffer ch) (packet :: pkts))).card : Int) ≤ a.maxGapBufferSize)

/-- What an answer brings has room. -/
def AnswerFits (a : AbFeedArbitrator) (ch : String) (reply : Option (List UdpPacket)) : Prop :=
  ∀ pkts ∈ reply, ((waitingWith (a.getExpectedSeq ch) (a.gapBuffer ch) pkts).card : Int) ≤ a.maxGapBufferSize

variable {a a' a'' : AbFeedArbitrator} {ch : String}

theorem clean_iff (h : a.Tidied) : a.Clean ↔ ∀ ch, FitNumbers (a.getExpectedSeq ch) a.maxGapBufferSize (a.waiting ch) := by
  refine forall_congr' (fun ch => ?_)
  rw [FitNumbers, waiting, (h ch).2.card_keySet, (h ch).forall_values]

/-- A part of a step that concerns one channel only. -/
structure Touches (ch : String) (a a' : AbFeedArbitrator) : Prop where
  tidied : a'.Tidied
  room : a'.maxGapBufferSize = a.maxGapBufferSize
  others : ∀ ch', ch' ≠ ch → a'.waiting ch' = a.waiting ch' ∧ a'.getExpectedSeq ch' = a.getExpectedSeq ch'

namespace Touches

theorem refl (ch : String) (h : a.Tidied) : Touches ch a a := ⟨h, rfl, fun _ _ => ⟨rfl, rfl⟩⟩

theorem trans (h : Touches ch a a') (h' : Touches ch a' a'') : Touches ch a a'' where
  tidied := h'.tidied
  room := h'.room.trans h.room
  others := fun ch' hne => ⟨(h'.others ch' hne).1.trans (h.others ch' hne).1, (h'.others ch' hne).2.trans (h.others ch' hne).2⟩

/-- The metrics do not matter. -/
theorem counted (h : Touches ch a a') (f : ArbitratorMetrics → ArbitratorMetrics) : Touches ch a (a'.count f) :=
  ⟨h.tidied, h.room, h.others⟩

theorem setGapBuffer (h : Touches ch a a') {buf : Dict Int UdpPacket} (hbuf : Tidy buf) : Touches ch a (a'.setGapBuffer ch buf) := by
  refine ⟨fun ch' => ?_, h.room, fun ch' hne => ?_⟩
  · rw [gapBuffer_setGapBuffer]
    split
    · exact hbuf
    · exact h.tidied ch'
  · rw [waiting, gapBuffer_setGapBuffer, if_neg hne]
    exact h.others ch' hne

theorem setExpectedSeq (h : Touches ch a a') (seq : Int) : Touches ch a (a'.setExpectedSeq ch seq) := by
  refine ⟨h.tidied, h.room, fun ch' hne => ?_⟩
  rw [getExpectedSeq_setExpectedSeq, if_neg hne]
  exact h.others ch' hne

/-- Whether the step leaves the gap buffers clean is a matter of the channel that it concerns. -/
theorem clean_iff (h : Touches ch a a') (ha : a.Tidied) (hclean : a.Clean) :
    a'.Clean ↔ FitNumbers (a'.getExpectedSeq ch) a.maxGapBufferSize (a'.waiting ch) := by
  rw [AbFeedArbitrator.clean_iff h.tidied, h.room]
  refine ⟨fun hall => hall ch, fun hone ch' => ?_⟩
  by_cases hch : ch' = ch
  · exact hch ▸ hone
  · rw [(h.others ch' hch).1, (h.others ch' hch).2]
    exact (AbFeedArbitrator.clean_iff ha).mp hclean ch'

end Touches

theorem drainGapBuffer_spec (h : a.Tidied) (ch : String) :
    Touches ch a (a.drainGapBuffer ch).2 ∧
      Drains (a.getExpectedSeq ch) ((a.drainGapBuffer ch).2.getExpectedSeq ch) (a.waiting ch) ((a.drainGapBuffer ch).2.waiting ch) := by
  obtain ⟨htidy, hdrains⟩ := drainLoop_spec (a.gapBuffer ch).size (a.getExpectedSeq ch) (h ch) le_rfl
  refine ⟨((Touches.refl ch h).setGapBuffer htidy).setExpectedSeq _, ?_⟩
  simp only [drainGapBuffer, getExpectedSeq_setExpectedSeq, if_true]
  have hgap : ∀ seq buf, ((a.setGapBuffer ch buf).setExpectedSeq ch seq).waiting ch = buf.keySet := by
    intro seq buf
    exact congrArg Dict.keySet ((gapBuffer_setGapBuffer a ch ch buf).trans (if_pos rfl))
  rw [hgap]
  exact hdrains

theorem waiting_setGapBuffer (a : AbFeedArbitrator) (ch : String) (buf : Dict Int UdpPacket) :
    (a.setGapBuffer ch buf).waiting ch = buf.keySet :=
  congrArg Dict.keySet ((gapBuffer_setGapBuffer a ch ch buf).trans (if_pos rfl))

/-- A drain leaves clean gap buffers clean. -/
theorem drainGapBuffer_clean (h : a.Tidied) (hclean : a.Clean) (ch : String) : (a.drainGapBuffer ch).2.Clean := by
  obtain ⟨htouches, hdrains⟩ := drainGapBuffer_spec h ch
  obtain ⟨hahead, hfits⟩ := (clean_iff h).mp hclean ch
  refine (htouches.clean_iff h hclean).mpr ⟨hdrains.ahead hahead, ?_⟩
  have := hdrains.card_le
  omega

theorem takeAnswer_spec (h : a.Tidied) (ch : String) (expected : Int) (reply : Option (List UdpPacket)) :
    Touches ch a (a.takeAnswer ch expected reply) ∧ (a.takeAnswer ch expected reply).getExpectedSeq ch = a.getExpectedSeq ch ∧
      (a.takeAnswer ch expected reply).waiting ch = reply.elim (a.waiting ch) (waitingWith expected (a.gapBuffer ch)) := by
  rcases reply with _ | pkts
  · exact ⟨.refl ch h, rfl, rfl⟩
  · obtain ⟨htidy, hkeys⟩ := takeReplayed_spec expected pkts (h ch)
    exact ⟨(Touches.refl ch h).setGapBuffer htidy |>.counted (fun m =>
      { m with tcpPacketsRecovered := m.tcpPacketsRecovered + (takeReplayed expected pkts (a.gapBuffer ch)).1 }),
      rfl, (waiting_setGapBuffer a ch _).trans hkeys⟩

/-- The packet that comes too early is in the gap buffer then, unless there was no room. -/
theorem buffer_spec (h : a.Tidied) (packet : UdpPacket) {a' : AbFeedArbitrator} (hbuffer : a.buffer packet = some a') :
    Touches packet.channelId a a' ∧ a'.getExpectedSeq packet.channelId = a.getExpectedSeq packet.channelId ∧
      a'.waiting packet.channelId = insert packet.sequenceNum (a.waiting packet.channelId) ∧
      (a'.hasReplayClient, a'.asyncTcpReplay, a'.pendingReplays) = (a.hasReplayClient, a.asyncTcpReplay, a.pendingReplays) ∧
      ((a.gapBuffer packet.channelId).contains packet.sequenceNum ∨
        ((a.gapBuffer packet.channelId).size : Int) < a.maxGapBufferSize) := by
  simp only [buffer] at hbuffer
  split at hbuffer
  · rename_i hin
    cases hbuffer
    exact ⟨(Touches.refl _ h).counted _, rfl, (Finset.insert_eq_of_mem (Dict.mem_keySet.mpr hin)).symm, rfl, .inl hin⟩
  · split at hbuffer
    · cases hbuffer
    · rename_i hroom
      cases hbuffer
      exact ⟨(Touches.refl _ h).setGapBuffer ((h _).set packet), rfl,
        (waiting_setGapBuffer a _ _).trans (Dict.keySet_set ..), rfl, .inr (by omega)⟩

theorem buffer_none (packet : UdpPacket) (hbuffer : a.buffer packet = none) :
    ¬((a.gapBuffer packet.channelId).contains packet.sequenceNum ∨
      ((a.gapBuffer packet.channelId).size : Int) < a.maxGapBufferSize) := by
  simp only [buffer] at hbuffer
  split at hbuffer
  · cases hbuffer
  · rename_i hout
    split at hbuffer
    · rename_i hfull
      rintro (hin | hroom)
      · exact hout hin
      · omega
    · cases hbuffer

/-- What is missing before a packet depends on what waits before it. -/
theorem neededFor_congr {expected seq : Int} (hwaiting : a'.waiting ch = insert seq (a.waiting ch))
    (hpending : a'.pendingReplays = a.pendingReplays) : a'.neededFor ch expected seq = a.neededFor ch expected seq := by
  refine List.filter_congr (fun s hs => ?_)
  obtain ⟨i, hi, rfl⟩ := List.mem_map.mp hs
  rw [List.mem_range] at hi
  have hne : expected + (i : Int) ≠ seq := by omega
  have hiff : (a'.gapBuffer ch).contains (expected + i) = (a.gapBuffer ch).contains (expected + i) := by
    rw [Bool.eq_iff_iff, ← Dict.mem_keySet, ← Dict.mem_keySet]
    change expected + (i : Int) ∈ a'.waiting ch ↔ expected + (i : Int) ∈ a.waiting ch
    rw [hwaiting, Finset.mem_insert, or_iff_right hne]
  rw [hiff, hpending]

/-- What is missing is not asked for, is asked for by a thread of the pool, or is answered at once. -/
theorem askFor_cases (a : AbFeedArbitrator) (ch : String) (expected seq : Int) (reply : Option (List UdpPacket)) :
    (¬(a.hasReplayClient ∧ a.neededFor ch expected seq ≠ []) ∧ a.askFor ch expected seq reply = (none, a)) ∨
      (a.asyncTcpReplay ∧ ∃ range f pending,
        a.askFor ch expected seq reply = (some range, { a.count f with pendingReplays := pending })) ∨
      (a.hasReplayClient ∧ ¬a.asyncTcpReplay ∧ a.neededFor ch expected seq ≠ [] ∧
        ∃ f, a.askFor ch expected seq reply = (none, (a.count f).takeAnswer ch expected reply)) := by
  rw [askFor]
  by_cases hclient : a.hasReplayClient = true
  · rw [if_pos hclient]
    rcases hneeded : a.neededFor ch expected seq with _ | ⟨n, ns⟩
    · exact .inl ⟨fun h => h.2 rfl, rfl⟩
    · simp only [List.min?_cons', List.max?_cons']
      by_cases hasync : a.asyncTcpReplay = true
      · exact .inr (.inl ⟨hasync, _, _, _, if_pos hasync⟩)
      · exact .inr (.inr ⟨hclient, hasync, List.cons_ne_nil n ns, _, if_neg hasync⟩)
  · rw [if_neg hclient]
    exact .inl ⟨fun h => hclient h.1, rfl⟩

theorem drainCounted_spec (h : a.Tidied) (ch : String) :
    Touches ch a (a.drainCounted ch).2 ∧
      Drains (a.getExpectedSeq ch) ((a.drainCounted ch).2.getExpectedSeq ch) (a.waiting ch) ((a.drainCounted ch).2.waiting ch) := by
  obtain ⟨htouches, hdrains⟩ := drainGapBuffer_spec h ch
  exact ⟨htouches.counted (fun m => { m with inOrderDispatched := m.inOrderDispatched + (a.drainGapBuffer ch).1.length }), hdrains⟩

/-- A drain that is taken only where the expected packet waits. -/
theorem drainCounted_if_spec (h : a.Tidied) (ch : String) {expected : Int} (hexpected : a.getExpectedSeq ch = expected) :
    let a' := if (a.gapBuffer ch).contains expected then (a.drainCounted ch).2 else a
    Touches ch a a' ∧ Drains expected (a'.getExpectedSeq ch) (a.waiting ch) (a'.waiting ch) := by
  subst hexpected
  split
  · exact drainCounted_spec h ch
  · rename_i hout
    exact ⟨.refl ch h, .none_waits (fun hin => hout (Dict.mem_keySet.mp hin))⟩

theorem FitNumbers.insert {expected room seq : Int} {waiting : Finset Int} (h : FitNumbers expected room waiting)
    (hseq : expected ≤ seq) (hroom : seq ∈ waiting ∨ (waiting.card : Int) < room) : FitNumbers expected room (insert seq waiting) := by
  refine ⟨fun n hn => ?_, ?_⟩
  · rcases Finset.mem_insert.mp hn with rfl | hmem
    · exact hseq
    · exact h.1 n hmem
  · rcases hroom with hin | hless
    · rw [Finset.insert_eq_of_mem hin]
      exact h.2
    · have := Finset.card_insert_le seq waiting
      omega

/-- A packet that comes in order leaves its gap buffer clean exactly when it is not in it. -/
theorem fitNumbers_drains_iff {expected expected' room : Int} {waiting waiting' : Finset Int} (h : FitNumbers expected room waiting)
    (hdrains : Drains (expected + 1) expected' waiting waiting') : FitNumbers expected' room waiting' ↔ expected ∉ waiting := by
  have hforward := hdrains.forward
  have hcard := hdrains.card_le
  constructor
  · intro hfit hin
    have := hfit.1 expected (hdrains.keeps_old hin (by omega))
    omega
  · intro hout
    refine ⟨hdrains.ahead (fun n hn => ?_), by have := h.2; omega⟩
    have hle := h.1 n hn
    have hne : n ≠ expected := fun heq => hout (heq ▸ hn)
    omega

/-- What an early packet leaves is clean exactly when what stays behind has room. -/
theorem fitNumbers_left_iff {expected expected' room : Int} {waiting waiting' : Finset Int} (h : ∀ n ∈ waiting, expected ≤ n)
    (hdrains : Drains expected expected' waiting waiting') :
    FitNumbers expected' room waiting' ↔ ((leftBehind expected waiting).card : Int) ≤ room := by
  rw [FitNumbers, ← hdrains.left]
  exact and_iff_right (hdrains.ahead h)

theorem waitingWith_cons {expected : Int} {packet : UdpPacket} {buf buf' : Dict Int UdpPacket} (hseq : expected ≤ packet.sequenceNum)
    (hbuf : buf'.keySet = insert packet.sequenceNum buf.keySet) (pkts : List UdpPacket) :
    waitingWith expected buf' pkts = waitingWith expected buf (packet :: pkts) := by
  rw [waitingWith, waitingWith, hbuf, List.map_cons, List.filter_cons_of_pos (by simpa using hseq), List.toFinset_cons,
    Finset.insert_union, Finset.union_insert]

/-- What is missing before a packet that waits is asked for, and what can be given on then is given on. -/
theorem askFor_clean_iff (h : a.Tidied) {expected seq : Int} (hexp : a.getExpectedSeq ch = expected)
    (hfit : FitNumbers expected a.maxGapBufferSize (a.waiting ch)) (reply : Option (List UdpPacket)) :
    let a' := match a.askFor ch expected seq reply with
      | (some _, a') => a'
      | (none, a') => if (a'.gapBuffer ch).contains expected then (a'.drainCounted ch).2 else a'
    Touches ch a a' ∧ (FitNumbers (a'.getExpectedSeq ch) a.maxGapBufferSize (a'.waiting ch) ↔
      (a.hasReplayClient → ¬a.asyncTcpReplay → a.neededFor ch expected seq ≠ [] → ∀ pkts ∈ reply,
        ((leftBehind expected (waitingWith expected (a.gapBuffer ch) pkts)).card : Int) ≤ a.maxGapBufferSize)) := by
  intro a'
  rcases askFor_cases a ch expected seq reply with ⟨hnot, hask⟩ | ⟨hasync, range, f, pending, hask⟩ |
    ⟨hclient, hsync, hneeded, f, hask⟩
  · obtain ⟨htouches, hdrains⟩ := drainCounted_if_spec h ch hexp
    have ha' : a' = if (a.gapBuffer ch).contains expected then (a.drainCounted ch).2 else a := by simp only [a', hask]
    rw [← ha'] at htouches hdrains
    refine ⟨htouches, (fitNumbers_left_iff hfit.1 hdrains).trans (iff_of_true ?_ fun hclient _ hneeded => absurd ⟨hclient, hneeded⟩ hnot)⟩
    rw [← hdrains.left]
    have := hdrains.card_le
    have := hfit.2
    omega
  · have ha' : a' = { a.count f with pendingReplays := pending } := by simp only [a', hask]
    rw [ha']
    exact ⟨⟨h, rfl, fun _ _ => ⟨rfl, rfl⟩⟩, iff_of_true (hexp ▸ hfit) fun _ hsync => absurd hasync hsync⟩
  · obtain ⟨htaken, hexp', hwaiting⟩ := takeAnswer_spec (a := a.count f) h ch expected reply
    obtain ⟨htouches, hdrains⟩ := drainCounted_if_spec htaken.tidied ch (hexp'.trans hexp)
    have ha' : a' = if (((a.count f).takeAnswer ch expected reply).gapBuffer ch).contains expected then
        (((a.count f).takeAnswer ch expected reply).drainCounted ch).2 else (a.count f).takeAnswer ch expected reply := by
      simp only [a', hask]
    rw [← ha'] at htouches hdrains
    refine ⟨((Touches.refl ch h).counted f).trans (htaken.trans htouches), ?_⟩
    rcases reply with _ | pkts
    · refine (fitNumbers_left_iff (hwaiting ▸ hfit.1) hdrains).trans (iff_of_true ?_ fun _ _ _ _ hnone => by cases hnone)
      rw [← hdrains.left]
      have hcard := hdrains.card_le
      rw [hwaiting] at hcard
      exact (Int.ofNat_le.mpr hcard).trans hfit.2
    · rw [hwaiting] at hdrains
      refine (fitNumbers_left_iff ?_ hdrains).trans ?_
      · intro n hn
        rcases Finset.mem_union.mp hn with hold | hnew
        · exact hfit.1 n hold
        · simpa using (List.mem_filter.mp (List.mem_toFinset.mp hnew)).2
      · constructor
        · rintro hle - - - pkts' hpkts
          cases hpkts
          exact hle
        · intro hall
          exact hall hclient hsync hneeded pkts rfl

theorem packetFits_of_lt {packet : UdpPacket} (hold : packet.sequenceNum < a.getExpectedSeq packet.channelId)
    (reply : Option (List UdpPacket)) : a.PacketFits packet reply :=
  ⟨fun heq => absurd heq (by omega), fun hearly => absurd hearly (by omega)⟩

theorem packetFits_expected_iff {packet : UdpPacket} (hseq : packet.sequenceNum = a.getExpectedSeq packet.channelId)
    (reply : Option (List UdpPacket)) :
    a.PacketFits packet reply ↔ a.getExpectedSeq packet.channelId ∉ a.waiting packet.channelId := by
  rw [waiting, Dict.mem_keySet]
  exact ⟨fun hfits => hfits.1 hseq, fun hout => ⟨fun _ => hout, fun hearly => absurd hearly (by omega)⟩⟩

theorem packetFits_of_full {packet : UdpPacket} (hearly : a.getExpectedSeq packet.channelId < packet.sequenceNum)
    (hfull : ¬((a.gapBuffer packet.channelId).contains packet.sequenceNum ∨
      ((a.gapBuffer packet.channelId).size : Int) < a.maxGapBufferSize)) (reply : Option (List UdpPacket)) :
    a.PacketFits packet reply :=
  ⟨fun heq => absurd heq (by omega), fun _ hroom => absurd hroom hfull⟩

theorem packetFits_early_iff {packet : UdpPacket} (hearly : a.getExpectedSeq packet.channelId < packet.sequenceNum)
    (hroom : (a.gapBuffer packet.channelId).contains packet.sequenceNum ∨
      ((a.gapBuffer packet.channelId).size : Int) < a.maxGapBufferSize) (reply : Option (List UdpPacket)) :
    a.PacketFits packet reply ↔
      (a.hasReplayClient → ¬a.asyncTcpReplay →
        a.neededFor packet.channelId (a.getExpectedSeq packet.channelId) packet.sequenceNum ≠ [] → ∀ pkts ∈ reply,
        ((leftBehind (a.getExpectedSeq packet.channelId) (waitingWith (a.getExpectedSeq packet.channelId)
          (a.gapBuffer packet.channelId) (packet :: pkts))).card : Int) ≤ a.maxGapBufferSize) :=
  ⟨fun hfits => hfits.2 hearly hroom, fun hall => ⟨fun heq => absurd heq (by omega), fun _ _ => hall⟩⟩

/-- The state in which a packet is looked at: it is counted for its feed, and the expected number is noted. -/
theorem noted_spec (h : a.Tidied) (packet : UdpPacket) :
    let a' := (a.countFeed packet.feedId).setExpectedSeq packet.channelId (a.getExpectedSeq packet.channelId)
    Touches packet.channelId a a' ∧ a'.getExpectedSeq packet.channelId = a.getExpectedSeq packet.channelId ∧
      a'.gapBuffer packet.channelId = a.gapBuffer packet.channelId ∧
      (a'.hasReplayClient, a'.asyncTcpReplay, a'.pendingReplays) = (a.hasReplayClient, a.asyncTcpReplay, a.pendingReplays) := by
  refine ⟨((Touches.refl _ h).counted _).setExpectedSeq _, ?_, rfl, rfl⟩
  rw [getExpectedSeq_setExpectedSeq, if_pos rfl]

/-- A packet comes in. -/
theorem onPacket_clean_iff (h : a.Tidied) (hclean : a.Clean) (packet : UdpPacket) (reply : Option (List UdpPacket)) :
    (a.onPacket packet reply).2.2.Tidied ∧ ((a.onPacket packet reply).2.2.Clean ↔ a.PacketFits packet reply) := by
  have hone : FitNumbers _ _ _ := (clean_iff h).mp hclean packet.channelId
  obtain ⟨hnote, hnumber, hgap, hsame⟩ := noted_spec h packet
  simp only [onPacket]
  generalize (a.countFeed packet.feedId).setExpectedSeq packet.channelId (a.getExpectedSeq packet.channelId) = a₁ at *
  have hwaiting : a₁.waiting packet.channelId = a.waiting packet.channelId := congrArg Dict.keySet hgap
  have hstill : a₁.Clean := by
    rw [hnote.clean_iff h hclean, hnumber, hwaiting]
    exact hone
  rcases lt_trichotomy packet.sequenceNum (a.getExpectedSeq packet.channelId) with hold | hseq | hearly
  · rw [if_pos hold]
    exact ⟨hnote.tidied, iff_of_true hstill (packetFits_of_lt hold reply)⟩
  · -- what was passed already stays, so that only the expected number itself may not wait
    rw [if_neg (by omega), if_neg (by omega), packetFits_expected_iff hseq]
    have hgiven := hnote.setExpectedSeq (a.getExpectedSeq packet.channelId + 1)
    have hnext : (a₁.setExpectedSeq packet.channelId (a.getExpectedSeq packet.channelId + 1)).getExpectedSeq packet.channelId =
        a.getExpectedSeq packet.channelId + 1 := by
      rw [getExpectedSeq_setExpectedSeq, if_pos rfl]
    have hwaiting' : (a₁.setExpectedSeq packet.channelId (a.getExpectedSeq packet.channelId + 1)).waiting packet.channelId =
        a.waiting packet.channelId := hwaiting
    generalize a₁.setExpectedSeq packet.channelId (a.getExpectedSeq packet.channelId + 1) = a₂ at *
    have hdrained : ∀ a₃, Touches packet.channelId a₂ a₃ → Drains (a.getExpectedSeq packet.channelId + 1)
        (a₃.getExpectedSeq packet.channelId) (a₂.waiting packet.channelId) (a₃.waiting packet.channelId) →
        a₃.Tidied ∧ (a₃.Clean ↔ a.getExpectedSeq packet.channelId ∉ a.waiting packet.channelId) := by
      intro a₃ htouches hdrains
      rw [hwaiting'] at hdrains
      exact ⟨htouches.tidied, ((hgiven.trans htouches).clean_iff h hclean).trans (fitNumbers_drains_iff hone hdrains)⟩
    split
    · obtain ⟨htouches, hdrains⟩ := drainGapBuffer_spec hgiven.tidied packet.channelId
      rw [hnext] at hdrains
      exact hdrained (a₂.drainGapBuffer packet.channelId).2 htouches hdrains
    · rename_i hout
      refine hdrained a₂ (.refl _ hgiven.tidied) ?_
      rw [hnext]
      exact .none_waits (fun hin => hout (Dict.mem_keySet.mp hin))
  · rw [if_neg (by omega), if_pos hearly]
    rcases hbuffer : a₁.buffer packet with _ | a₂
    · have hfull := buffer_none packet hbuffer
      rw [hgap, hnote.room] at hfull
      exact ⟨hnote.tidied, iff_of_true hstill (packetFits_of_full hearly hfull reply)⟩
    · obtain ⟨hbuffered, hnumber', hwaiting', hsame', hroom⟩ := buffer_spec hnote.tidied packet hbuffer
      rw [hgap, hnote.room] at hroom
      have hmax := hbuffered.room.trans hnote.room
      have hinserted : a₂.waiting packet.channelId = insert packet.sequenceNum (a.waiting packet.channelId) :=
        hwaiting'.trans (by rw [hwaiting])
      have hfit : FitNumbers (a.getExpectedSeq packet.channelId) a₂.maxGapBufferSize (a₂.waiting packet.channelId) := by
        rw [hmax, hinserted]
        refine FitNumbers.insert hone hearly.le (hroom.imp Dict.mem_keySet.mpr ?_)
        rw [waiting, (h packet.channelId).2.card_keySet]
        exact id
      simp only [Prod.mk.injEq] at hsame hsame'
      obtain ⟨hclient, hasync, hpending⟩ := hsame
      obtain ⟨hclient', hasync', hpending'⟩ := hsame'
      have hneeded := @neededFor_congr _ _ _ (a.getExpectedSeq packet.channelId) _ hinserted (hpending'.trans hpending)
      have hpkts := @waitingWith_cons _ _ _ (a₂.gapBuffer packet.channelId) hearly.le hinserted
      obtain ⟨hasked, hiff⟩ := @askFor_clean_iff (a₂.count (fun m => { m with gapsDetected := m.gapsDetected + 1 })) _
        hbuffered.tidied _ packet.sequenceNum (hnumber'.trans hnumber) hfit reply
      have hfits : (a₂.hasReplayClient → ¬a₂.asyncTcpReplay →
          a₂.neededFor packet.channelId (a.getExpectedSeq packet.channelId) packet.sequenceNum ≠ [] → ∀ pkts ∈ reply,
          ((leftBehind (a.getExpectedSeq packet.channelId) (waitingWith (a.getExpectedSeq packet.channelId)
            (a₂.gapBuffer packet.channelId) pkts)).card : Int) ≤ a₂.maxGapBufferSize) ↔ a.PacketFits packet reply := by
        rw [packetFits_early_iff hearly hroom, hclient'.trans hclient, hasync'.trans hasync, hneeded, hmax]
        simp only [hpkts]
      have hend := ((hnote.trans (hbuffered.counted _)).trans hasked).clean_iff h hclean
      rw [← hmax] at hend
      have hresult := And.intro hasked.tidied (hend.trans (hiff.trans hfits))
      dsimp only at hresult ⊢
      revert hresult
      generalize (a₂.count _).askFor packet.channelId (a.getExpectedSeq packet.channelId) packet.sequenceNum reply = asked
      rcases asked with ⟨_ | range, a₃⟩
      · dsimp only
        split
        · exact id
        · exact id
      · exact id

theorem drainAll_clean (chs : List String) (h : a.Tidied) (hclean : a.Clean) :
    (drainAll chs a).2.Tidied ∧ (drainAll chs a).2.Clean := by
  induction chs generalizing a with
  | nil => exact ⟨h, hclean⟩
  | cons ch chs ih =>
    rw [drainAll]
    by_cases hwaits : (a.gapBuffer ch).contains (a.getExpectedSeq ch) = true
    · rw [if_pos hwaits]
      exact ih (drainCounted_spec h ch).1.tidied (drainGapBuffer_clean h hclean ch)
    · rw [if_neg hwaits]
      exact ih h hclean

theorem drain_clean (h : a.Tidied) (hclean : a.Clean) (channelId : Option String) :
    (a.drain channelId).2.Tidied ∧ (a.drain channelId).2.Clean := by
  cases channelId with
  | none => exact drainAll_clean _ h hclean
  | some ch => exact drainAll_clean _ h hclean

/-- The answer to a replay of the pool comes. -/
theorem runReplay_clean_iff (h : a.Tidied) (hclean : a.Clean) (ch : String) (reply : Option (List UdpPacket)) :
    (a.runReplay ch reply).Tidied ∧ ((a.runReplay ch reply).Clean ↔ a.AnswerFits ch reply) := by
  obtain ⟨htaken, hexp, hwaiting⟩ := takeAnswer_spec h ch (a.getExpectedSeq ch) reply
  refine ⟨htaken.tidied, (htaken.clean_iff h hclean).trans ?_⟩
  rw [hexp, hwaiting]
  have hone := (clean_iff h).mp hclean ch
  rcases reply with _ | pkts
  · exact iff_of_true hone (fun _ hnone => nomatch hnone)
  · constructor
    · rintro hfit pkts' hpkts
      cases hpkts
      exact hfit.2
    · intro hall
      refine ⟨fun n hn => ?_, hall pkts rfl⟩
      rcases Finset.mem_union.mp hn with hold | hnew
      · exact hone.1 n hold
      · simpa using (List.mem_filter.mp (List.mem_toFinset.mp hnew)).2

end AbFeedArbitrator

/-! ## Whole runs -/

namespace ArbitratorRun

open AbFeedArbitrator

/-- What a step takes in has room, and was not taken in before. -/
def Fits (r : ArbitratorRun) : ArbitratorEvent → Prop
  | .packet packet reply => r.arbitrator.PacketFits packet reply
  | .drain _ => True
  | .answer i reply => ∀ job ∈ r.jobs[i]?, job.answered = false → r.arbitrator.AnswerFits job.channelId reply
  | .done _ => True

theorem step_clean_iff {r : ArbitratorRun} (h : r.arbitrator.Tidied) (hclean : r.arbitrator.Clean) (e : ArbitratorEvent) :
    (r.step e).arbitrator.Tidied ∧ ((r.step e).arbitrator.Clean ↔ r.Fits e) := by
  cases e with
  | packet packet reply => exact onPacket_clean_iff h hclean packet reply
  | drain channelId =>
    obtain ⟨htidied, hclean'⟩ := drain_clean h hclean channelId
    exact ⟨htidied, iff_of_true hclean' trivial⟩
  | answer i reply =>
    simp only [step, Fits]
    rcases hjob : r.jobs[i]? with _ | job
    · exact ⟨h, iff_of_true hclean (fun _ hnone => by cases hnone)⟩
    · simp only [Option.mem_some_iff, forall_eq']
      by_cases hanswered : job.answered = true
      · rw [if_pos hanswered]
        exact ⟨h, iff_of_true hclean (fun hnot => by cases hanswered.symm.trans hnot)⟩
      · rw [if_neg hanswered, forall_prop_of_true (Bool.eq_false_iff.mpr hanswered)]
        exact runReplay_clean_iff h hclean job.channelId reply
  | done i =>
    simp only [step]
    split
    · split
      · exact ⟨h, iff_of_true hclean trivial⟩
      · exact ⟨h, iff_of_true hclean trivial⟩
    · exact ⟨h, iff_of_true hclean trivial⟩

end ArbitratorRun

/-- Wherever a run of the threads is cut, no gap buffer holds a packet that was passed or more packets than it may, exactly when the
bound of the buffers is not negative and every step takes in what has room: no packet that comes in order is in the gap buffer
already, and an answer leaves no more waiting than the bound. -/
theorem gap_buffers_clean (hasReplayClient : Bool) (maxGapBufferSize initialSeq : Int) (asyncTcpReplay : Bool)
    (es : List ArbitratorEvent) :
    let r := ArbitratorRun.new (.new hasReplayClient maxGapBufferSize initialSeq asyncTcpReplay)
    (∀ fs, fs <+: es → (runFrom ArbitratorRun.step r fs).arbitrator.Clean) ↔
      0 ≤ maxGapBufferSize ∧ Along ArbitratorRun.step ArbitratorRun.Fits r es := by
  intro r
  have htidied : r.arbitrator.Tidied := fun _ => Tidy.empty
  have hnew : r.arbitrator.Clean ↔ 0 ≤ maxGapBufferSize := by
    constructor
    · intro h
      exact (h "").2
    · intro h ch
      exact ⟨(fun _ hpkt => nomatch hpkt), h⟩
  have hrun : r.arbitrator.Clean → ((∀ fs, fs <+: es → (runFrom ArbitratorRun.step r fs).arbitrator.Clean) ↔
      Along ArbitratorRun.step ArbitratorRun.Fits r es) := by
    intro hclean
    refine Along.iff_prefixes (J := fun (r : ArbitratorRun) => r.arbitrator.Tidied)
      (I := fun (r : ArbitratorRun) => r.arbitrator.Clean) ?_ ?_ htidied hclean es
    · intro r e h hclean
      exact (ArbitratorRun.step_clean_iff h hclean e).1
    · intro r e h hclean
      exact (ArbitratorRun.step_clean_iff h hclean e).2
  constructor
  · intro hall
    have hclean := hall [] List.nil_prefix
    exact ⟨hnew.mp hclean, (hrun hclean).mp hall⟩
  · rintro ⟨hroom, halong⟩
    exact (hrun (hnew.mpr hroom)).mpr halong

/-- A packet of feed A with a number. -/
def feedPacket (seq : Int) : UdpPacket := ⟨"NYSE", seq, "A", []⟩

/-- A third packet comes first, and a thread of the pool fetches the two before it; the first one comes live when the answer was
taken in. -/
def answeredThenLive : List ArbitratorEvent :=
  [.packet (feedPacket 3) none, .answer 0 (some [feedPacket 1, feedPacket 2]), .packet (feedPacket 1) none]

/-- The first packet stays in the gap buffer when it was given on; with a bound of one, the answer fills the buffer with three. -/
theorem gap_buffers_clean_false :
    ¬(runFrom ArbitratorRun.step (.new (.new true 10 1 true)) answeredThenLive).arbitrator.Clean ∧
      ¬(runFrom ArbitratorRun.step (.new (.new true 1 1 true)) (answeredThenLive.take 2)).arbitrator.Clean := by
  constructor
  · intro h
    exact absurd ((h "NYSE").1 (feedPacket 1) (by decide)) (by decide)
  · intro h
    exact absurd (h "NYSE").2 (by decide)

end Mdrap
