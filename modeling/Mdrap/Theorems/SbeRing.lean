import Mathlib.Algebra.Order.Field.Rat
import Mathlib.Data.List.DropRight
import Mdrap.Native.SbeStream
import Mdrap.Lemmas.WireFields
import Mdrap.Theorems.Seqlock

/-!
# Which frames of a stream are in the ring

A ring only takes the tick whose number is its head. A frame whose number is another one is passed over, and nothing tells the stream;
what comes after it is passed over as well, until the number that is missing comes.
-/

namespace Mdrap

open Lib

namespace ShmSegment

variable {g : ShmGeometry} {m : ShmSegment} {seq : UInt64} {src : Nat → UInt64}

/-- A tick that a ring does not take changes nothing. -/
theorem writeTick_of_ne (g : ShmGeometry) (src : Nat → UInt64) (h : seq ≠ m.head) : m.writeTick g seq src = m := if_pos h

theorem writeTick_head (g : ShmGeometry) (m : ShmSegment) (src : Nat → UInt64) :
    m.writeTick g m.head src =
      ⟨m.head + 1, fun i => if i = g.slotOf m.head then m.head else m.commit i,
        fun i j => if i = g.slotOf m.head ∧ j < payloadWords then src j else m.words i j⟩ :=
  (if_neg (not_not_intro rfl)).trans (putTick_eq g m m.head src)

/-- A tick that is in the ring is behind the head, but not further than the ring is long. -/
def Recent (g : ShmGeometry) (m : ShmSegment) : Prop :=
  ∀ t, m.commit (g.slotOf t) = t → t ≠ uncommitted → 0 < (m.head - t).toNat ∧ (m.head - t).toNat ≤ g.slotCount

theorem recent_init (g : ShmGeometry) : init.Recent g := fun _ h hne => absurd h.symm hne

theorem slotCount_dvd (g : ShmGeometry) : g.slotCount ∣ 2 ^ 64 := pow_dvd_pow 2 (le_trans g.lt.le (by decide))

/-- A number that is as far behind another one as the ring is long has its slot. -/
theorem slotOf_sub {t u : UInt64} (h : (u - t).toNat = g.slotCount) : g.slotOf t = g.slotOf u := by
  have hu : u = t + (u - t) := by
    rw [UInt64.add_comm]
    exact (UInt64.sub_add_cancel u t).symm
  rw [g.slotOf_eq, g.slotOf_eq]
  conv_rhs => rw [hu, UInt64.toNat_add, h, Nat.mod_mod_of_dvd _ (slotCount_dvd g), Nat.add_mod_right]

theorem Recent.writeTick (hm : m.Recent g) (seq : UInt64) (src : Nat → UInt64) : (m.writeTick g seq src).Recent g := by
  by_cases hhead : seq = m.head
  · subst hhead
    have hcount := g.slotCount_lt
    rw [writeTick_head]
    intro t ht hne
    simp only at ht ⊢
    have hnext : m.head + 1 - t = m.head - t + 1 := by grind
    rw [hnext, UInt64.toNat_add]
    split at ht
    · subst ht
      rw [UInt64.sub_self]
      exact ⟨by decide, Nat.two_pow_pos g.bits⟩
    · rename_i hslot
      obtain ⟨-, hle⟩ := hm t ht hne
      have hfar : (m.head - t).toNat ≠ g.slotCount := fun h => hslot (slotOf_sub h)
      have hone : (1 : UInt64).toNat = 1 := rfl
      rw [hone]
      omega
  · rw [writeTick_of_ne g src hhead]
    exact hm

/-- What is read of a ring is the tick whose number its slot has. -/
theorem Recent.readSlot (hm : m.Recent g) (t : UInt64) :
    m.readSlot g t = if m.commit (g.slotOf t) = t then some ((List.range payloadWords).map (m.words (g.slotOf t))) else none := by
  unfold ShmSegment.readSlot
  by_cases hcommit : m.commit (g.slotOf t) = t
  · have hnear : ¬(t < m.head ∧ UInt64.ofNat g.slotCount < m.head - t) := by
      rintro ⟨hlt, hfar⟩
      have hne : t ≠ uncommitted := by
        rintro rfl
        have hmax := m.head.toNat_lt
        rw [UInt64.lt_iff_toNat_lt, toNat_uncommitted] at hlt
        omega
      obtain ⟨-, hle⟩ := hm t hcommit hne
      rw [UInt64.lt_iff_toNat_lt, UInt64.toNat_ofNat'] at hfar
      have hcount := g.slotCount_lt
      omega
    rw [if_neg hnear, if_neg (not_not_intro hcommit), if_pos hcommit]
  · rw [if_neg hcommit]
    split
    · rfl
    · rfl

/-- After a tick that the ring takes, its slot has this tick, and the others have what they had. -/
theorem Recent.readSlot_writeTick (hm : m.Recent g) (src : Nat → UInt64) (t : UInt64) :
    (m.writeTick g m.head src).readSlot g t =
      if g.slotOf t = g.slotOf m.head then if t = m.head then some ((List.range payloadWords).map src) else none
      else m.readSlot g t := by
  rw [(hm.writeTick m.head src).readSlot, hm.readSlot, writeTick_head]
  simp only
  by_cases hslot : g.slotOf t = g.slotOf m.head
  · rw [if_pos hslot, if_pos hslot]
    by_cases ht : t = m.head
    · rw [if_pos ht.symm, if_pos ht]
      refine congrArg some (List.map_congr_left ?_)
      intro w hw
      rw [if_pos ⟨hslot, List.mem_range.mp hw⟩]
    · rw [if_neg (Ne.symm ht), if_neg ht]
  · simp only [hslot, if_false, false_and]

end ShmSegment

/-! ## The frames that go to the ring -/

/-- A frame of a stream, and its result. -/
abbrev SbeOutcome := SbeTickPayload × FastResult

/-- The frames that are not invalid: the stream publishes them. -/
def published (outcomes : List SbeOutcome) : List SbeOutcome := outcomes.filter (fun x => x.2.status ≠ .invalid)

/-- The numbers that were published last, as many as the ring is long. -/
def lastNumbers (g : ShmGeometry) (outcomes : List SbeOutcome) : List UInt64 :=
  ((published outcomes).map (fun x => x.1.seq)).rtake g.slotCount

/-- The words of a frame in a slot. -/
def SbeOutcome.words (x : SbeOutcome) : List UInt64 := (List.range payloadWords).map (sbeTick x.1 x.2.status).slot.word

namespace SbeStream

variable {V : Type} {g : ShmGeometry} {s : SbeStream V} {x : SbeOutcome}

/-- A frame is in the ring, under its number. -/
def Holds (g : ShmGeometry) (s : SbeStream V) (x : SbeOutcome) : Prop := s.segment.readSlot g x.1.seq = some (SbeOutcome.words x)

/-- Every frame that is not invalid, and whose number is among the last ones, is in the ring. -/
def ReadBack (g : ShmGeometry) (s : SbeStream V) : Prop :=
  ∀ x ∈ published s.results, x.1.seq ∈ lastNumbers g s.results → s.Holds g x

instance (g : ShmGeometry) (s : SbeStream V) : Decidable (s.ReadBack g) :=
  inferInstanceAs (Decidable (∀ x ∈ published s.results, x.1.seq ∈ lastNumbers g s.results →
    s.segment.readSlot g x.1.seq = some (SbeOutcome.words x)))

/-- A frame with its result, as it comes next. -/
def next (s : SbeStream V) (frame : SbeFrame) : SbeOutcome := (SbeFrame.payload frame, (sbeEvaluate s.engine (SbeFrame.payload frame)).1)

/-- A frame that is not invalid has the number of the head, and no other frame whose number is among the last ones then is in its slot;
or the ring has it already, with all that were published under its number. -/
def Fits (g : ShmGeometry) (s : SbeStream V) (frame : SbeFrame) : Prop :=
  let x := s.next frame
  let outcomes := s.results ++ [x]
  x.2.status ≠ .invalid →
    (x.1.seq = s.segment.head → ∀ y ∈ published outcomes, y.1.seq ∈ lastNumbers g outcomes → g.slotOf y.1.seq = g.slotOf x.1.seq →
      y.1.seq = x.1.seq ∧ SbeOutcome.words y = SbeOutcome.words x) ∧
    (x.1.seq ≠ s.segment.head → ∀ y ∈ published outcomes, y.1.seq = x.1.seq → s.Holds g y)

theorem step_results (ring : Option ShmGeometry) (s : SbeStream V) (frame : SbeFrame) :
    (s.step ring frame).results = s.results ++ [s.next frame] := rfl

theorem step_segment_invalid (g : ShmGeometry) {frame : SbeFrame} (h : (s.next frame).2.status = .invalid) :
    (s.step (some g) frame).segment = s.segment := if_neg (not_not_intro h)

theorem step_segment (g : ShmGeometry) {frame : SbeFrame} (h : (s.next frame).2.status ≠ .invalid) :
    (s.step (some g) frame).segment =
      s.segment.writeTick g (s.next frame).1.seq (sbeTick (s.next frame).1 (s.next frame).2.status).slot.word := if_pos h

theorem published_append (outcomes : List SbeOutcome) (h : x.2.status ≠ .invalid) :
    published (outcomes ++ [x]) = published outcomes ++ [x] := by
  rw [published, List.filter_append, List.filter_singleton, decide_eq_true h]
  rfl

theorem published_append_invalid (outcomes : List SbeOutcome) (h : x.2.status = .invalid) :
    published (outcomes ++ [x]) = published outcomes := by
  rw [published, List.filter_append, List.filter_singleton, decide_eq_false (not_not_intro h)]
  exact List.append_nil _

/-- The last numbers after one more are this one and some that were among the last ones before. -/
theorem mem_lastNumbers_append {outcomes : List SbeOutcome} (h : x.2.status ≠ .invalid) {n : UInt64}
    (hn : n ∈ lastNumbers g (outcomes ++ [x])) : n ∈ lastNumbers g outcomes ∨ n = x.1.seq := by
  obtain ⟨k, hk⟩ : ∃ k, g.slotCount = k + 1 := Nat.exists_eq_add_one.mpr (Nat.two_pow_pos g.bits)
  unfold lastNumbers at hn ⊢
  rw [published_append outcomes h, List.map_append, List.map_singleton, hk, List.rtake_concat_succ, List.mem_append,
    List.mem_singleton] at hn
  rcases hn with hn | hn
  · left
    rw [hk]
    rw [List.rtake_eq_reverse_take_reverse, List.mem_reverse] at hn ⊢
    exact (List.take_subset_take_left _ (Nat.le_succ k)) hn
  · exact .inr hn

theorem step_readBack (g : ShmGeometry) (hm : s.segment.Recent g) (h : s.ReadBack g) (frame : SbeFrame) :
    (s.step (some g) frame).ReadBack g ↔ s.Fits g frame := by
  unfold ReadBack Fits
  rw [step_results]
  generalize hx : s.next frame = x
  by_cases hinvalid : x.2.status = .invalid
  · -- nothing is published
    refine iff_of_true ?_ (fun hne => absurd hinvalid hne)
    have hsegment := @step_segment_invalid _ s g frame (hx ▸ hinvalid)
    unfold lastNumbers Holds
    rw [published_append_invalid s.results hinvalid, hsegment]
    exact h
  · have hsegment := @step_segment _ s g frame (hx ▸ hinvalid)
    rw [hx] at hsegment
    rw [forall_prop_of_true hinvalid]
    have hkept : ∀ y ∈ published (s.results ++ [x]), y.1.seq ∈ lastNumbers g (s.results ++ [x]) → y.1.seq ≠ x.1.seq → s.Holds g y := by
      intro y hy hlast hne
      rw [published_append s.results hinvalid, List.mem_append, List.mem_singleton] at hy
      rcases hy with hy | rfl
      · exact h y hy ((mem_lastNumbers_append hinvalid hlast).resolve_right hne)
      · exact absurd rfl hne
    have hself : x.1.seq ∈ lastNumbers g (s.results ++ [x]) := by
      obtain ⟨k, hk⟩ : ∃ k, g.slotCount = k + 1 := Nat.exists_eq_add_one.mpr (Nat.two_pow_pos g.bits)
      unfold lastNumbers
      rw [published_append s.results hinvalid, List.map_append, List.map_singleton, hk, List.rtake_concat_succ]
      exact List.mem_append_right _ (List.mem_singleton_self _)
    by_cases hhead : x.1.seq = s.segment.head
    · have hread : ∀ y : SbeOutcome, (s.step (some g) frame).Holds g y ↔
          if g.slotOf y.1.seq = g.slotOf x.1.seq then y.1.seq = x.1.seq ∧ SbeOutcome.words y = SbeOutcome.words x
          else s.Holds g y := by
        intro y
        unfold Holds
        rw [hsegment, hhead, hm.readSlot_writeTick]
        split
        · split
          · rename_i hy
            exact ⟨fun hwords => ⟨hy, (Option.some.inj hwords).symm⟩, fun hwords => congrArg some hwords.2.symm⟩
          · rename_i hy
            exact ⟨fun hwords => (nomatch hwords), fun hwords => absurd hwords.1 hy⟩
        · rfl
      constructor
      · intro hall
        refine ⟨fun _ y hy hlast hslot => ?_, fun hne => absurd hhead hne⟩
        have hy' := (hread y).mp (hall y hy hlast)
        rwa [if_pos hslot] at hy'
      · rintro ⟨hall, -⟩ y hy hlast
        rw [hread]
        split
        · rename_i hslot
          exact hall hhead y hy hlast hslot
        · rename_i hslot
          exact hkept y hy hlast (fun heq => hslot (congrArg g.slotOf heq))
    · -- the ring does not take it
      rw [ShmSegment.writeTick_of_ne g _ hhead] at hsegment
      have hread : ∀ y : SbeOutcome, (s.step (some g) frame).Holds g y ↔ s.Holds g y := by
        intro y
        unfold Holds
        rw [hsegment]
      constructor
      · intro hall
        refine ⟨fun heq => absurd heq hhead, fun _ y hy hseq => ?_⟩
        exact (hread y).mp (hall y hy (hseq ▸ hself))
      · rintro ⟨-, hall⟩ y hy hlast
        rw [hread]
        by_cases hseq : y.1.seq = x.1.seq
        · exact hall hhead y hy hseq
        · exact hkept y hy hlast hseq

theorem step_recent (g : ShmGeometry) (hm : s.segment.Recent g) (frame : SbeFrame) : (s.step (some g) frame).segment.Recent g := by
  by_cases hinvalid : (s.next frame).2.status = .invalid
  · rw [step_segment_invalid g hinvalid]
    exact hm
  · rw [step_segment g hinvalid]
    exact hm.writeTick _ _

end SbeStream

/-- A ring that has been initialised, and into which such ticks were written. -/
def ringAfter (g : ShmGeometry) (ticks : List (UInt64 × (Nat → UInt64))) : ShmSegment :=
  runFrom (fun m x => m.writeTick g x.1 x.2) .init ticks

theorem ringAfter_recent (g : ShmGeometry) (ticks : List (UInt64 × (Nat → UInt64))) : (ringAfter g ticks).Recent g := by
  have hall : Along (fun m x => ShmSegment.writeTick g m x.1 x.2) (fun _ _ => True) .init ticks := .of_forall (fun _ _ _ => trivial) _
  exact hall.inv (I := fun m => m.Recent g) (fun m x hm _ => hm.writeTick x.1 x.2) (ShmSegment.recent_init g)

/-- Of any stream, as far as it has been processed, the frames that are not invalid, and whose numbers are among the last ones, are in
the ring, exactly when every frame that is not invalid comes with the number of the head. -/
theorem sbe_stream_read_back {V : Type} (g : ShmGeometry) (e : FastEngine V) (ticks : List (UInt64 × (Nat → UInt64)))
    (frames : List SbeFrame) :
    (∀ gs, gs <+: frames → (sbeStreamImpl (some g) e (ringAfter g ticks) gs).ReadBack g) ↔
      Along (SbeStream.step (some g)) (SbeStream.Fits g) ⟨e, ringAfter g ticks, [], 0⟩ frames :=
  Along.iff_prefixes (J := fun s : SbeStream V => s.segment.Recent g) (I := SbeStream.ReadBack g)
    (fun _ frame hm _ => SbeStream.step_recent g hm frame) (fun _ frame hm h => SbeStream.step_readBack g hm h frame)
    (ringAfter_recent g ticks) (fun _ hx => absurd hx List.not_mem_nil) frames

/-- An engine that has seen nothing. -/
def streamEngine : FastEngine (Option ℚ) :=
  .create (.exact id (fun _ => 0)) (.create (.exact id (fun _ => 0)) none none 50) 0 (fun _ => [])

/-- A trade at 100 of feed A in an instrument. -/
def tradeFrame (seq : UInt64) : SbeFrame :=
  sbeFrame ⟨seq, 0, 0, 0, 0x4059000000000000, 0, 0, 0, 0, 0, 1, 0, 0, [0x58], [0x41]⟩

/-- A stream whose numbers begin with one is valid, and nothing of it is in the ring. -/
theorem sbe_stream_read_back_false :
    (sbeStreamImpl (some twoSlots) streamEngine .init [tradeFrame 1]).validCount = 1 ∧
      ¬(sbeStreamImpl (some twoSlots) streamEngine .init [tradeFrame 1]).ReadBack twoSlots := by
  decide

end Mdrap
