import Mdrap.Lemmas.Sequence
import Mdrap.Lib.SeenBits
import Mdrap.Theorems.Crossed
import Mdrap.Theorems.Reorder

/-!
# Numbers that come again

With events held back, a number is noted in the bits of its slot when it comes in its turn, when the numbers before it have come, or
when the slot waits for these no longer. A number that is noted is caught when it comes again, as long as it is in the window and the
sequence has not been moved. Two ways of handing an event back leave its number unnoted: the first jump beyond the limit, and a number
that has been waited for while the sequence passed it by.
-/

namespace Mdrap

open Lib

variable {V : Type}

namespace QualitySlot

/-- The number is not ahead of the last one of the slot, and its bit is set where it is in the window. -/
structure Noted (n : Int) (sl : QualitySlot V) : Prop where
  hasSeq : sl.hasSeq = true
  bit : NotedBit 64 sl.seen sl.lastSeq n

/-- The number moves the sequence: it confirms a jump forward beyond the limit, or one back. -/
def rebases (F : Floats V) (cfg : QualityLimits V) (sl : QualitySlot V) (seq : Int) : Bool :=
  sl.hasSeq ∧
    (sl.lastSeq < seq ∧ ¬sl.holds F cfg seq ∧ cfg.seqJumpLimit < seq - sl.lastSeq ∧ sl.candPlus1 ≠ 0 ∧ sl.candPlus1 - 1 < seq ∧
        seq - (sl.candPlus1 - 1) ≤ cfg.seqJumpLimit ∨
      SEQUENCE_BITMAP_BITS ≤ sl.lastSeq - seq ∧ seq ∉ sl.staleSeen ∧ cfg.seqJumpLimit < sl.lastSeq - seq ∧ 1 ≤ sl.regressCount)

/-- The number is a jump forward beyond the limit that confirms none. -/
def strays (F : Floats V) (cfg : QualityLimits V) (sl : QualitySlot V) (seq : Int) : Bool :=
  sl.hasSeq ∧ sl.lastSeq < seq ∧ ¬sl.holds F cfg seq ∧ cfg.seqJumpLimit < seq - sl.lastSeq ∧
    ¬(sl.candPlus1 ≠ 0 ∧ sl.candPlus1 - 1 < seq ∧ seq - (sl.candPlus1 - 1) ≤ cfg.seqJumpLimit)

/-- What is held was held under its own number, in a sequence that has begun. -/
def Sound (sl : QualitySlot V) : Prop :=
  ∀ k h, sl.pending.get? k = some h → sl.hasSeq = true ∧ h.event.sequenceNumber = some k

variable {n : Int} {sl sl' : QualitySlot V}

theorem Noted.sameSequence (hsame : sl.SameSequence sl') (h : sl.Noted n) : sl'.Noted n := by
  refine ⟨hsame.hasSeq.trans h.hasSeq, ?_⟩
  rw [hsame.seen, hsame.lastSeq]
  exact h.bit

theorem Noted.keep (h : sl.Noted n) (hhas : sl'.hasSeq = sl.hasSeq) (hseen : sl'.seen = sl.seen) (hlast : sl'.lastSeq = sl.lastSeq) :
    sl'.Noted n := by
  refine ⟨hhas.trans h.hasSeq, ?_⟩
  rw [hseen, hlast]
  exact h.bit

/-- The slot after the next number, as after any number ahead. -/
theorem seen_advance (sl : QualitySlot V) : sl.advance.seen = shiftBits 64 sl.seen (sl.lastSeq + 1 - sl.lastSeq) := by
  rw [← shiftSeen_bits, show sl.lastSeq + 1 - sl.lastSeq = 1 by omega]
  rfl

theorem Noted.advance (h : sl.Noted n) : sl.advance.Noted n := by
  refine ⟨h.hasSeq, ?_⟩
  rw [seen_advance]
  exact h.bit.ahead (Int.lt_succ _)

theorem noted_advance (hseq : sl.hasSeq = true) : sl.advance.Noted (sl.lastSeq + 1) := by
  refine ⟨hseq, ?_⟩
  rw [seen_advance]
  exact .self_ahead (by decide) _ (Int.lt_succ _)

/-- The slot after a number for which it waits no longer. -/
theorem skipTo_cases (sl : QualitySlot V) (seq : Int) :
    (sl.skipTo seq).hasSeq = sl.hasSeq ∧
      if sl.lastSeq < seq then (sl.skipTo seq).lastSeq = seq ∧ (sl.skipTo seq).seen = shiftBits 64 sl.seen (seq - sl.lastSeq)
      else (sl.skipTo seq).lastSeq = sl.lastSeq ∧ (sl.skipTo seq).seen = sl.seen := by
  unfold skipTo
  have hjump : seq - sl.lastSeq > 0 ↔ sl.lastSeq < seq := by omega
  simp only [hjump, shiftSeen_bits]
  split
  · exact ⟨rfl, rfl, rfl⟩
  · exact ⟨rfl, rfl, rfl⟩

theorem Noted.skipTo (h : sl.Noted n) (seq : Int) : (sl.skipTo seq).Noted n := by
  obtain ⟨hhas, hcases⟩ := sl.skipTo_cases seq
  split at hcases
  · rename_i hlt
    refine ⟨hhas.trans h.hasSeq, ?_⟩
    rw [hcases.1, hcases.2]
    exact h.bit.ahead hlt
  · exact h.keep hhas hcases.2 hcases.1

theorem noted_skipTo (hseq : sl.hasSeq = true) (hlt : sl.lastSeq < n) : (sl.skipTo n).Noted n := by
  obtain ⟨hhas, hcases⟩ := sl.skipTo_cases n
  rw [if_pos hlt] at hcases
  refine ⟨hhas.trans hseq, ?_⟩
  rw [hcases.1, hcases.2]
  exact .self_ahead (by decide) _ hlt

/-! ### The second stage -/

variable {F : Floats V} {cfg : QualityLimits V}

theorem Noted.ahead (h : sl.Noted n) {seq : Int} (hlt : sl.lastSeq < seq) (hstay : sl.rebases F cfg seq = false) (held : Held V) :
    (sl.ahead F cfg seq held).2.Noted n := by
  simp only [rebases, h.hasSeq, true_and, decide_eq_false_iff_not, not_or] at hstay
  unfold QualitySlot.ahead
  dsimp only
  split
  · exact h.keep rfl rfl rfl
  · rename_i hholds
    split
    · rename_i hlimit
      split
      · rename_i hconfirms
        exact absurd ⟨hlt, hholds, hlimit, hconfirms⟩ hstay.1
      · exact h.keep rfl rfl rfl
    · refine ⟨h.hasSeq, ?_⟩
      dsimp only
      rw [shiftSeen_bits]
      exact h.bit.ahead hlt

theorem noted_ahead (hseq : sl.hasSeq = true) {seq : Int} (hlt : sl.lastSeq < seq) (hfirm : sl.strays F cfg seq = false) {held : Held V}
    (hpassed : (sl.ahead F cfg seq held).1 ≠ .held) : (sl.ahead F cfg seq held).2.Noted seq := by
  simp only [strays, hseq, hlt, true_and, decide_eq_false_iff_not] at hfirm
  unfold QualitySlot.ahead at hpassed ⊢
  dsimp only at hpassed ⊢
  split
  · rename_i hholds
    rw [if_pos hholds] at hpassed
    exact absurd rfl hpassed
  · rename_i hholds
    split
    · rename_i hlimit
      split
      · exact ⟨hseq, .start seq⟩
      · rename_i hconfirms
        exact absurd ⟨hholds, hlimit, hconfirms⟩ hfirm
    · refine ⟨hseq, ?_⟩
      dsimp only
      rw [shiftSeen_bits]
      exact .self_ahead (by decide) _ hlt

theorem Noted.behind (h : sl.Noted n) {seq : Int} (hstay : sl.rebases F cfg seq = false) :
    (sl.behind cfg seq).2.Noted n := by
  simp only [rebases, h.hasSeq, true_and, decide_eq_false_iff_not, not_or] at hstay
  unfold QualitySlot.behind pushStale
  dsimp only
  split
  · split
    · exact h
    · exact ⟨h.hasSeq, h.bit.or _⟩
  · rename_i hfar
    split
    · exact h
    · rename_i hmem
      split
      · rename_i hlimit
        split
        · exact absurd ⟨not_lt.mp hfar, hmem, hlimit, by omega⟩ hstay.2
        · exact h.keep rfl rfl rfl
      · exact h.keep rfl rfl rfl

theorem noted_behind (hseq : sl.hasSeq = true) {seq : Int} (hle : seq ≤ sl.lastSeq) : (sl.behind cfg seq).2.Noted seq := by
  have hbits : (SEQUENCE_BITMAP_BITS : Int) = (64 : Nat) := rfl
  unfold QualitySlot.behind pushStale
  dsimp only
  split
  · split
    · rename_i hbit
      exact ⟨hseq, hle, fun _ => hbit⟩
    · exact ⟨hseq, .self_late _ hle⟩
  · rename_i hfar
    have hbefore : NotedBit 64 sl.seen sl.lastSeq seq := ⟨hle, fun hwindow => absurd hwindow (by rw [← hbits]; exact hfar)⟩
    split
    · exact ⟨hseq, hbefore⟩
    · split
      · split
        · exact ⟨hseq, .start seq⟩
        · exact ⟨hseq, hbefore⟩
      · exact ⟨hseq, hbefore⟩

theorem Noted.place (h : sl.Noted n) {seq : Int} (hstay : sl.rebases F cfg seq = false) (held : Held V) :
    (sl.place F cfg seq held).2.Noted n := by
  simp only [QualitySlot.place, h.hasSeq, Bool.not_true, Bool.false_eq_true, if_false]
  split
  · exact h.ahead ‹_› hstay held
  · exact h.behind hstay

theorem noted_place {seq : Int} (hfirm : sl.strays F cfg seq = false) {held : Held V} (hpassed : (sl.place F cfg seq held).1 ≠ .held) :
    (sl.place F cfg seq held).2.Noted seq := by
  unfold QualitySlot.place at hpassed ⊢
  rcases hseq : sl.hasSeq with _ | _
  · simp only [Bool.not_false, if_true]
    exact ⟨rfl, .start seq⟩
  · simp only [hseq, Bool.not_true, Bool.false_eq_true, if_false] at hpassed ⊢
    by_cases hlt : seq > sl.lastSeq
    · rw [if_pos hlt] at hpassed ⊢
      exact noted_ahead hseq hlt hfirm hpassed
    · rw [if_neg hlt]
      exact noted_behind hseq (not_lt.mp hlt)

/-- A number that is noted, and in the window, is placed as a duplicate. -/
theorem Noted.caught (h : sl.Noted n) (hle : n ≤ sl.lastSeq) (hwindow : sl.lastSeq - n < 64) (held : Held V) :
    ∃ ms, (sl.place F cfg n held).1 = .goesOn ((.invalid, .duplicate) :: ms) := by
  have hbehind : ¬n > sl.lastSeq := not_lt.mpr hle
  have hnear : sl.lastSeq - n < SEQUENCE_BITMAP_BITS := hwindow
  refine ⟨if sl.lastSeq - n > 0 then [(.invalid, .outOfOrder)] else [], ?_⟩
  simp only [QualitySlot.place, QualitySlot.behind, h.hasSeq, hbehind, hnear, h.bit.bit hwindow, Bool.not_true, Bool.false_eq_true,
    if_false, if_true]

/-! ### What is held -/

theorem Sound.new (F : Floats V) (window : Int) : (QualitySlot.new F window).Sound := by
  intro k h hget
  cases hget

theorem Sound.of_pending (h : sl.Sound) (hhas : sl.hasSeq = true → sl'.hasSeq = true)
    (hpending : ∀ k o, sl'.pending.get? k = some o → sl.pending.get? k = some o) : sl'.Sound := by
  intro k o hget
  obtain ⟨hseq, hnumber⟩ := h k o (hpending k o hget)
  exact ⟨hhas hseq, hnumber⟩

theorem Sound.sameSequence (hsame : sl.SameSequence sl') (h : sl.Sound) : sl'.Sound :=
  h.of_pending (fun hseq => hsame.hasSeq.trans hseq) (fun _ _ hget => hsame.pending ▸ hget)

theorem Sound.advance (h : sl.Sound) : sl.advance.Sound := h.of_pending (fun hseq => hseq) (fun _ _ hget => get?_of_erase hget)

theorem Sound.skipTo (h : sl.Sound) (seq : Int) : (sl.skipTo seq).Sound := by
  refine h.of_pending (fun hseq => (sl.skipTo_cases seq).1.trans hseq) ?_
  intro k o hget
  rw [(SlotWork.skipTo_pending sl seq).1] at hget
  exact get?_of_erase hget

theorem Sound.enter (h : sl.Sound) (reset : Bool) (ev : MarketEvent V) : (sl.enter reset ev).Sound := by
  intro k o hget
  rw [enter_pending] at hget
  cases reset with
  | true => cases hget
  | false =>
    obtain ⟨hseq, hnumber⟩ := h k o hget
    refine ⟨?_, hnumber⟩
    unfold QualitySlot.enter
    simp only [Bool.false_eq_true, if_false]
    split
    · exact hseq
    · exact hseq

theorem place_hasSeq (seq : Int) (held : Held V) : (sl.place F cfg seq held).2.hasSeq = true := by
  unfold QualitySlot.place
  rcases hseq : sl.hasSeq with _ | _
  · rfl
  · simp only [Bool.not_true, Bool.false_eq_true, if_false]
    unfold QualitySlot.ahead QualitySlot.behind pushStale
    dsimp only
    repeat' split
    all_goals exact hseq

theorem Sound.place (h : sl.Sound) {seq : Int} {held : Held V} (hnumber : held.event.sequenceNumber = some seq) :
    (sl.place F cfg seq held).2.Sound := by
  intro k o hget
  refine ⟨place_hasSeq seq held, ?_⟩
  have hplace := place_held F cfg sl seq held
  split at hplace
  · rw [hplace] at hget
    by_cases hk : k = seq
    · subst hk
      rw [Dict.get?_set_self, Option.some.injEq] at hget
      exact hget ▸ hnumber
    · rw [Dict.get?_set_ne _ hk] at hget
      exact (h k o hget).2
  · rw [hplace.2.1] at hget
    exact (h k o hget).2

/-- The number is noted, or it is held and the sequence has not come so far. -/
def Awaits (n : Int) (sl : QualitySlot V) : Prop :=
  sl.Noted n ∨ sl.hasSeq = true ∧ sl.lastSeq < n ∧ (sl.pending.get? n).isSome

theorem get?_erase_isSome {d : Dict Int (Held V)} {k : Int} (h : (d.get? n).isSome) (hne : n ≠ k) : ((d.erase k).get? n).isSome := by
  rw [Dict.get?_erase, if_neg hne]
  exact h

theorem Awaits.sameSequence (hsame : sl.SameSequence sl') (h : sl.Awaits n) : sl'.Awaits n := by
  rcases h with hnoted | ⟨hseq, hlt, hheld⟩
  · exact .inl (hnoted.sameSequence hsame)
  · refine .inr ⟨hsame.hasSeq.trans hseq, ?_, ?_⟩
    · rw [hsame.lastSeq]
      exact hlt
    · rw [hsame.pending]
      exact hheld

theorem Awaits.advance (h : sl.Awaits n) : sl.advance.Awaits n := by
  rcases h with hnoted | ⟨hseq, hlt, hheld⟩
  · exact .inl hnoted.advance
  · by_cases hnext : n = sl.lastSeq + 1
    · subst hnext
      exact .inl (noted_advance hseq)
    · refine .inr ⟨hseq, ?_, get?_erase_isSome hheld hnext⟩
      show sl.lastSeq + 1 < n
      omega

theorem Awaits.skipTo (h : sl.Awaits n) {seq : Int} (hlt : seq < n) : (sl.skipTo seq).Awaits n := by
  rcases h with hnoted | ⟨hseq, hlast, hheld⟩
  · exact .inl (hnoted.skipTo seq)
  · obtain ⟨hhas, hcases⟩ := sl.skipTo_cases seq
    refine .inr ⟨hhas.trans hseq, ?_, ?_⟩
    · split at hcases
      · rw [hcases.1]
        exact hlt
      · rw [hcases.1]
        exact hlast
    · rw [(SlotWork.skipTo_pending sl seq).1]
      exact get?_erase_isSome hheld hlt.ne'

theorem Awaits.noted_skipTo (h : sl.Awaits n) : (sl.skipTo n).Noted n := by
  rcases h with hnoted | ⟨hseq, hlast, -⟩
  · exact hnoted.skipTo n
  · exact QualitySlot.noted_skipTo hseq hlast

end QualitySlot

/-- One of the events has the number. -/
def Bears (n : Int) (evs : List (MarketEvent V)) : Prop := ∃ ev ∈ evs, ev.sequenceNumber = some n

theorem bears_append {n : Int} {evs evs' : List (MarketEvent V)} : Bears n (evs ++ evs') ↔ Bears n evs ∨ Bears n evs' := by
  simp only [Bears, List.mem_append, or_and_right, exists_or]

theorem bears_cons {n : Int} {ev : MarketEvent V} {evs : List (MarketEvent V)} :
    Bears n (ev :: evs) ↔ ev.sequenceNumber = some n ∨ Bears n evs := by
  simp only [Bears, List.mem_cons, or_and_right, exists_or, exists_eq_left]

theorem not_bears_nil (n : Int) : ¬Bears n ([] : List (MarketEvent V)) := by
  rintro ⟨ev, hev, -⟩
  cases hev

namespace SlotWork

variable (F : Floats V) (cfg : QualityLimits V) (rules : List (UserRule V))

section

variable {F cfg rules} {p : QualitySlot V → Prop} (hsame : ∀ sl sl', sl.SameSequence sl' → p sl → p sl')
  (hadvance : ∀ sl, p sl → p sl.advance) (hready : ∀ sl evs, p sl → p { sl with ready := evs })

include hsame hadvance hready

theorem complete_leads (h : Held V) (ms : List Mark) :
    Proc.Leads (fun w => p w.slot) (fun w => p w.slot) (complete F cfg rules h ms) := by
  rw [complete]
  refine .modify_bind (r := fun w => p w.slot) (fun _ hw => hw) ?_
  refine .seq (finishEvaluation_leads hsame _) ?_
  intro ev
  split
  · refine .read_bind (fun held => ?_)
    refine .seq (release_leads hsame hadvance ?_ held) (fun _ => .pure (fun _ hw => hw) _)
    exact fun ev sl hsl => hready sl _ hsl
  · exact .pure (fun _ hw => hw) _

theorem placed_leads (h : Held V) (placement : Placement) :
    Proc.Leads (fun w => p w.slot) (fun w => p w.slot) (placed F cfg rules h placement) := by
  cases placement with
  | held => exact .pure (fun _ hw => hw) _
  | done ms => exact .modify_bind (r := fun w => p w.slot) (fun _ hw => hw) (.pure (fun _ hw => hw) _)
  | goesOn ms => exact .seq (complete_leads hsame hadvance hready h ms) (fun _ => .pure (fun _ hw => hw) _)

end

variable {n : Int}

theorem finishEvaluation_post (h : Held V) (w : SlotWork V) :
    Proc.Post (fun ev t => ev.sequenceNumber = h.event.sequenceNumber ∧ w.slot.SameSequence t.slot) (finishEvaluation F cfg rules h) w := by
  have hfinish := finishEvaluation_finishes F cfg rules h w
  intro ev hev
  have hnumber := congrArg MarketEvent.sequenceNumber (hfinish.unmarked F cfg rules hev)
  exact ⟨hnumber, hfinish.slot⟩

theorem release_sound (held : Nat) :
    Proc.Leads (fun w => w.slot.Sound) (fun w => w.slot.Sound) (release F cfg rules (fun _ sl => sl) held) :=
  release_leads (fun _ _ => .sameSequence) (fun _ => .advance) (fun _ _ hsl => hsl) held

theorem release_keeps_noted (held : Nat) :
    Proc.Leads (fun w => w.slot.Noted n) (fun w => w.slot.Noted n) (release F cfg rules (fun _ sl => sl) held) :=
  release_leads (fun _ _ => .sameSequence) (fun _ => .advance) (fun _ _ hsl => hsl) held

theorem drainSeqs_keeps_noted (seqs : List Int) :
    Proc.Leads (fun w => w.slot.Noted n) (fun w => w.slot.Noted n) (drainSeqs F cfg rules seqs) :=
  drainSeqs_leads (fun _ _ => .sameSequence) (fun _ => .advance) (fun _ seq hsl => hsl.skipTo seq) seqs

/-- What follows on is noted. -/
theorem release_noted (held : Nat) {w : SlotWork V} (hw : w.slot.Sound) :
    Proc.Post (fun evs t => Bears n evs → t.slot.Noted n) (release F cfg rules (fun _ sl => sl) held) w := by
  induction held generalizing w with
  | zero => exact .pure (fun hn => absurd hn (not_bears_nil n))
  | succ held ih =>
    rw [release]
    refine .read_bind ?_
    rcases hget : w.slot.pending.get? (w.slot.lastSeq + 1) with _ | h
    · exact .pure (fun hn => absurd hn (not_bears_nil n))
    · obtain ⟨hseq, hnumber⟩ := hw _ h hget
      refine .modify_bind ?_
      refine .bind ?_
      intro ev hev
      obtain ⟨hevNumber, hfinish⟩ := finishEvaluation_post F cfg rules h _ ev hev
      generalize (finishEvaluation F cfg rules h _).2 = t at hfinish
      refine .modify_bind ?_
      refine .bind ?_
      intro evs hevs
      refine .pure ?_
      intro hbears
      rcases bears_cons.mp hbears with hhead | htail
      · -- the number of the event is the next one
        rw [hevNumber, hnumber, Option.some.injEq] at hhead
        subst hhead
        exact release_keeps_noted F cfg rules held _ ((QualitySlot.noted_advance hseq).sameSequence hfinish)
      · exact ih (hw.advance.sameSequence hfinish) evs hevs htail

/-- What the slot waits for no longer is noted, unless the sequence has passed it by. -/
theorem drainSeqs_noted {seqs : List Int} (hsorted : seqs.Pairwise (· ≤ ·)) {w : SlotWork V} (hw : w.slot.Sound)
    (hn : n ∈ seqs → w.slot.Awaits n ∨ w.slot.pending.get? n = none) :
    Proc.Post (fun evs t => Bears n evs → t.slot.Noted n) (drainSeqs F cfg rules seqs) w := by
  induction seqs generalizing w with
  | nil => exact .pure (fun hn => absurd hn (not_bears_nil n))
  | cons seq seqs ih =>
    obtain ⟨hle, hsorted⟩ := List.pairwise_cons.mp hsorted
    rw [drainSeqs]
    refine .read_bind ?_
    rcases hget : w.slot.pending.get? seq with _ | h
    · exact ih hsorted hw (fun hmem => hn (List.mem_cons_of_mem _ hmem))
    · obtain ⟨hseq, hnumber⟩ := hw _ h hget
      refine .modify_bind (.modify_bind ?_)
      refine .bind ?_
      intro ev hev
      obtain ⟨hevNumber, hfinish⟩ := finishEvaluation_post F cfg rules _ _ ev hev
      generalize (finishEvaluation F cfg rules _ _).2 = t at hfinish
      have hsound := (hw.skipTo seq).sameSequence hfinish
      refine .read_bind ?_
      refine .bind ?_
      intro next hnext
      have hnextNoted := release_noted F cfg rules (n := n) _ hsound next hnext
      have hreleased := release_sound F cfg rules t.slot.pending.size t hsound
      refine .bind ?_
      intro evs hevs
      refine .pure ?_
      intro hbears
      have hkept := drainSeqs_keeps_noted F cfg rules (n := n) seqs (release F cfg rules (fun _ sl => sl) t.slot.pending.size t).2
      by_cases heq : n = seq
      · -- the slot waits for the number no longer
        subst heq
        have hawaits : w.slot.Awaits n := by
          refine (hn List.mem_cons_self).resolve_right ?_
          rw [hget]
          exact Option.some_ne_none h
        exact hkept (release_keeps_noted F cfg rules _ t (hawaits.noted_skipTo.sameSequence hfinish))
      · rw [List.cons_append, bears_cons, bears_append] at hbears
        rcases hbears with hhead | hmiddle | htail
        · rw [hevNumber] at hhead
          have hsame : some seq = some n := hnumber.symm.trans hhead
          exact absurd (Option.some.inj hsame).symm heq
        · exact hkept (hnextNoted hmiddle)
        · refine ih hsorted hreleased ?_ evs hevs htail
          intro hmem
          have hlt : seq < n := lt_of_le_of_ne (hle n hmem) (Ne.symm heq)
          rcases hn (List.mem_cons_of_mem _ hmem) with hawaits | habsent
          · left
            refine release_leads (p := (·.Awaits n)) (fun _ _ => .sameSequence) (fun _ => .advance) (fun _ _ hsl => hsl) _ t ?_
            exact (hawaits.skipTo hlt).sameSequence hfinish
          · right
            refine release_leads (p := fun sl => sl.pending.get? n = none) (absent_sameSequence n) (fun _ hp => absent_erase hp _)
              (fun _ _ hp => hp) _ t ?_
            refine absent_sameSequence n _ _ hfinish ?_
            rw [(skipTo_pending w.slot seq).1]
            exact absent_erase habsent seq

theorem expired_sorted (now : V) (force : Bool) (sl : QualitySlot V) : (sl.expired F cfg now force).Pairwise (· ≤ ·) := by
  have hsorted : SortedBy (·.1) (sortBy (·.1) sl.pending.items) := sortBy_sorted _
  exact List.pairwise_map.mpr (hsorted.sublist List.filter_sublist)

/-- A number that a drain hands back is noted after it, unless it is ready and no longer noted, or was passed by. -/
theorem drainSlot_noted (now : V) (force : Bool) {w : SlotWork V} (hw : w.slot.Sound) (hready : Bears n w.slot.ready → w.slot.Noted n)
    (hpassed : n ∈ w.slot.expired F cfg now force → w.slot.lastSeq < n ∨ w.slot.Noted n) :
    Proc.Post (fun evs t => Bears n evs → t.slot.Noted n) (drainSlot F cfg rules now force) w := by
  rw [drainSlot]
  refine .read_bind (.modify_bind (.read_bind ?_))
  refine .bind ?_
  intro evs hevs
  refine .pure ?_
  intro hbears
  rcases bears_append.mp hbears with hmem | hmem
  · exact drainSeqs_keeps_noted F cfg rules _ ⟨{ w.slot with ready := [] }, w.tally⟩ ((hready hmem).keep rfl rfl rfl)
  · refine drainSeqs_noted F cfg rules (expired_sorted F cfg now force _) (w := ⟨{ w.slot with ready := [] }, w.tally⟩)
      (hw.of_pending (fun hseq => hseq) (fun _ _ hget => hget)) ?_ evs hevs hmem
    intro hexpired
    rcases hget : w.slot.pending.get? n with _ | h
    · exact .inr rfl
    · left
      rcases hpassed hexpired with hlt | hnoted
      · exact .inr ⟨(hw n h hget).1, hlt, by rw [hget]; rfl⟩
      · exact .inl (hnoted.keep rfl rfl rfl)

theorem drainSlot_leads {p : QualitySlot V → Prop} (hsame : ∀ sl sl', sl.SameSequence sl' → p sl → p sl')
    (hadvance : ∀ sl, p sl → p sl.advance) (hskip : ∀ sl seq, p sl → p (sl.skipTo seq))
    (hready : ∀ sl evs, p sl → p { sl with ready := evs }) (now : V) (force : Bool) :
    Proc.Leads (fun w => p w.slot) (fun w => p w.slot) (drainSlot F cfg rules now force) := by
  rw [drainSlot]
  refine .read_bind (fun ready => ?_)
  refine .modify_bind (r := fun w => p w.slot) (fun w hw => hready w.slot [] hw) ?_
  refine .read_bind (fun seqs => ?_)
  exact .seq (drainSeqs_leads hsame hadvance hskip seqs) (fun _ => .pure (fun _ hw => hw) _)

theorem drainSlot_sound (now : V) (force : Bool) :
    Proc.Leads (fun w => w.slot.Sound) (fun w => w.slot.Sound) (drainSlot F cfg rules now force) :=
  drainSlot_leads F cfg rules (fun _ _ => .sameSequence) (fun _ => .advance) (fun _ seq hsl => hsl.skipTo seq)
    (fun _ _ hsl => hsl) now force

theorem drainSlot_keeps_noted (now : V) (force : Bool) :
    Proc.Leads (fun w => w.slot.Noted n) (fun w => w.slot.Noted n) (drainSlot F cfg rules now force) :=
  drainSlot_leads F cfg rules (fun _ _ => .sameSequence) (fun _ => .advance) (fun _ seq hsl => hsl.skipTo seq)
    (fun _ _ hsl => hsl.keep rfl rfl rfl) now force

/-! ### An event that is evaluated -/

theorem placed_keeps_noted (h : Held V) (placement : Placement) :
    Proc.Leads (fun w => w.slot.Noted n) (fun w => w.slot.Noted n) (placed F cfg rules h placement) :=
  placed_leads (fun _ _ => .sameSequence) (fun _ => .advance) (fun _ _ hsl => hsl.keep rfl rfl rfl) h placement

theorem placed_sound (h : Held V) (placement : Placement) :
    Proc.Leads (fun w => w.slot.Sound) (fun w => w.slot.Sound) (placed F cfg rules h placement) :=
  placed_leads (fun _ _ => .sameSequence) (fun _ => .advance) (fun _ _ hsl => hsl) h placement

theorem evaluateSequenced_sound {h : Held V} {seq : Int} (hnumber : h.event.sequenceNumber = some seq) :
    Proc.Leads (fun w => w.slot.Sound) (fun w => w.slot.Sound) (evaluateSequenced F cfg rules h seq) := by
  intro w hw
  rw [evaluateSequenced_apply]
  refine placed_sound F cfg rules _ _ _ ?_
  have hentering : (w.entering F cfg h seq).event.sequenceNumber = some seq := by
    have hsame := congrArg MarketEvent.sequenceNumber (h.event.unmarked_markAll (epochMarks (w.slot.epochReset F cfg h.event seq)))
    exact Eq.trans hsame hnumber
  exact (hw.enter _ _).place hentering

/-- Where no epoch begins, the slot is entered as it is, but for its session. -/
theorem entered_noted {h : Held V} {seq : Int} {w : SlotWork V} (hreset : w.slot.epochReset F cfg h.event seq = false) :
    (w.slot.Noted n → (w.entered F cfg h seq).Noted n) ∧
      (w.entered F cfg h seq).rebases F cfg seq = w.slot.rebases F cfg seq ∧
      (w.entered F cfg h seq).strays F cfg seq = w.slot.strays F cfg seq ∧ (w.entered F cfg h seq).lastSeq = w.slot.lastSeq := by
  unfold entered QualitySlot.enter
  simp only [hreset, Bool.false_eq_true, if_false]
  split
  · exact ⟨fun hnoted => hnoted.keep rfl rfl rfl, rfl, rfl, rfl⟩
  · exact ⟨fun hnoted => hnoted, rfl, rfl, rfl⟩

theorem entered_strays {h : Held V} {seq : Int} {w : SlotWork V}
    (hfirm : w.slot.epochReset F cfg h.event seq = false → w.slot.strays F cfg seq = false) :
    (w.entered F cfg h seq).strays F cfg seq = false := by
  rcases hreset : w.slot.epochReset F cfg h.event seq with _ | _
  · rw [(entered_noted F cfg (n := seq) hreset).2.2.1]
    exact hfirm hreset
  · unfold entered QualitySlot.enter
    simp only [hreset, if_true]
    split
    · simp [QualitySlot.strays, QualitySlot.clear]
    · simp [QualitySlot.strays, QualitySlot.clear]

theorem evaluateSequenced_keeps_noted (h : Held V) {seq : Int} {w : SlotWork V} (hw : w.slot.Noted n)
    (hreset : w.slot.epochReset F cfg h.event seq = false) (hstay : w.slot.rebases F cfg seq = false) :
    (evaluateSequenced F cfg rules h seq w).2.slot.Noted n := by
  obtain ⟨hnoted, hrebases, -⟩ := entered_noted F cfg (n := n) hreset
  rw [evaluateSequenced_apply]
  exact placed_keeps_noted F cfg rules _ _ _ ((hnoted hw).place (hrebases.trans hstay) _)

theorem evaluateSequenced_noted (h : Held V) {seq : Int} {w : SlotWork V}
    (hfirm : w.slot.epochReset F cfg h.event seq = false → w.slot.strays F cfg seq = false) :
    Proc.Post (fun r t => r.isSome → t.slot.Noted seq) (evaluateSequenced F cfg rules h seq) w := by
  intro r hr hsome
  rw [evaluateSequenced_apply] at hr ⊢
  refine placed_keeps_noted F cfg rules _ _ _ ?_
  refine QualitySlot.noted_place (entered_strays F cfg hfirm) ?_
  intro hheld
  rw [hheld] at hr
  cases hr
  cases hsome

theorem complete_rejected {r : Reason} (h : Held V) {ms : List Mark} (hms : (h.event.markAll ms).Rejected r) (w : SlotWork V) :
    Proc.Post (fun ev _ => ev.Rejected r) (complete F cfg rules h ms) w := by
  rw [complete]
  refine .modify_bind ?_
  refine .bind ?_
  intro ev hev
  have hrejected : ev.Rejected r := by
    obtain ⟨ms', rfl⟩ := (finishEvaluation_finishes F cfg rules { h with event := h.event.markAll ms } _).event ev hev
    exact ((hms.markAll _).markAll ms').userRules rules
  split
  · refine .read_bind ?_
    refine .bind ?_
    intro evs _
    exact .pure hrejected
  · exact .pure hrejected

theorem evaluateSequenced_rejected (h : Held V) {seq : Int} {w : SlotWork V} (hw : w.slot.Noted seq)
    (hreset : w.slot.epochReset F cfg h.event seq = false) (hle : seq ≤ w.slot.lastSeq) (hwindow : w.slot.lastSeq - seq < 64) :
    Proc.Post (fun r _ => ∃ ev ∈ r, ev.Rejected .duplicate) (evaluateSequenced F cfg rules h seq) w := by
  obtain ⟨hnoted, -, -, hlast⟩ := entered_noted F cfg (n := seq) hreset
  obtain ⟨ms, hplace⟩ := @QualitySlot.Noted.caught _ _ _ F cfg (hnoted hw) (by rw [hlast]; exact hle) (by rw [hlast]; exact hwindow)
    (w.entering F cfg h seq)
  have hmarked : ((w.entering F cfg h seq).event.markAll ((.invalid, .duplicate) :: ms)).Rejected .duplicate :=
    (MarketEvent.rejected_mark .duplicate _).markAll ms
  have hplaced : ∀ u, Proc.Post (fun r _ => ∃ ev ∈ r, ev.Rejected .duplicate)
      (placed F cfg rules (w.entering F cfg h seq) (.goesOn ((.invalid, .duplicate) :: ms))) u := by
    intro u
    refine .bind ?_
    intro ev hev
    exact .pure ⟨ev, rfl, complete_rejected F cfg rules _ hmarked u ev hev⟩
  intro r hr
  rw [evaluateSequenced_apply, hplace] at hr
  exact hplaced _ r hr

end SlotWork

namespace QualityEngine

open SlotWork

/-- The slot of a key has a property. -/
def At (key : String × String) (p : QualitySlot V → Prop) (e : QualityEngine V) : Prop := ∃ sl, e.slots.get? key = some sl ∧ p sl

/-- Only one key has a slot, and what is held there was held under its own number. -/
structure OneSlot (key : String × String) (e : QualityEngine V) : Prop where
  key : ∀ kv ∈ e.slots.items, kv.1 = key
  sound : ∀ kv ∈ e.slots.items, kv.2.Sound

variable {key : String × String} {n : Int}

theorem OneSlot.new : (new : QualityEngine V).OneSlot key := ⟨nofun, nofun⟩

theorem OneSlot.at {e : QualityEngine V} (he : e.OneSlot key) {sl : QualitySlot V} (hget : e.slots.get? key = some sl) : sl.Sound :=
  he.sound _ (Dict.mem_of_get? hget)

theorem OneSlot.items {e : QualityEngine V} (he : e.OneSlot key) (hwhole : e.Whole) :
    e.slots.items = [] ∨ ∃ sl, e.slots.items = [(key, sl)] := by
  have hdistinct := hwhole.distinct
  have hkey := he.key
  unfold Dict.Distinct at hdistinct
  rcases hitems : e.slots.items with _ | ⟨kv, _ | ⟨kv', rest⟩⟩
  · exact .inl rfl
  · rw [hitems] at hkey
    exact .inr ⟨kv.2, by rw [← hkey kv List.mem_cons_self]⟩
  · -- two slots of one key
    rw [hitems] at hkey hdistinct
    rw [List.map_cons, List.map_cons, hkey kv List.mem_cons_self,
      hkey kv' (List.mem_cons_of_mem _ List.mem_cons_self)] at hdistinct
    exact absurd List.mem_cons_self (List.nodup_cons.mp hdistinct).1

theorem onSlot_at {α : Type} {p : QualitySlot V → Prop} {m : SlotM V α} {e : QualityEngine V} {sl : QualitySlot V}
    (hget : e.slots.get? key = some sl) (hm : p (m ⟨sl, e.tally⟩).2.slot) : (onSlot key m e).2.At key p := by
  rw [onSlot_apply m hget]
  exact ⟨_, Dict.get?_set_self _ _ _, hm⟩

theorem OneSlot.set {e : QualityEngine V} (he : e.OneSlot key) {sl : QualitySlot V} (hsl : sl.Sound) (tally : Tally) :
    OneSlot key { e with slots := e.slots.set key sl, tally := tally } := by
  refine ⟨?_, ?_⟩
  · intro kv hkv
    rcases Dict.mem_of_mem_set hkv with rfl | hold
    · rfl
    · exact he.key kv hold
  · intro kv hkv
    rcases Dict.mem_of_mem_set hkv with rfl | hold
    · exact hsl
    · exact he.sound kv hold

theorem onSlot_oneSlot {α : Type} {m : SlotM V α} (hm : Proc.Leads (fun w => w.slot.Sound) (fun w => w.slot.Sound) m) :
    Proc.Leads (OneSlot key) (OneSlot key) (onSlot key m) := by
  intro e he
  rcases hget : e.slots.get? key with _ | sl
  · simp only [onSlot, hget]
    exact he
  · rw [onSlot_apply m hget]
    exact he.set (hm _ (he.at hget)) _

variable (F : Floats V) (s : QualitySetup V)

theorem getSlot_oneSlot (window : Int) : Proc.Leads (OneSlot key) (OneSlot key) (getSlot F s key window) := by
  intro e he
  rcases getSlot_cases F s key window e with ⟨sl, hget, happly⟩ | ⟨-, -, -, x, happly⟩ | ⟨items, happly, -, -, hsuffix, -⟩
  · rw [happly]
    exact he
  · rw [happly]
    exact he
  · rw [happly]
    have hrest : OneSlot key { e with slots := Dict.mk items } :=
      ⟨fun kv hkv => he.key kv (hsuffix.subset hkv), fun kv hkv => he.sound kv (hsuffix.subset hkv)⟩
    exact hrest.set (.new F window) e.tally

/-- A change of the counts, or of the keys that were seen. -/
theorem OneSlot.of_slots {e e' : QualityEngine V} (he : e.OneSlot key) (hslots : e'.slots = e.slots) : e'.OneSlot key :=
  ⟨hslots ▸ he.key, hslots ▸ he.sound⟩

theorem evaluateUnsequenced_leads {p q : QualityEngine V → Prop} (cfg : QualityLimits V) (h : Held V)
    (hsame : ∀ e e' : QualityEngine V, e'.slots = e.slots → p e → p e')
    (hcomplete : ∀ ms, Proc.Leads p q (onSlot (h.event.source, h.event.instrumentId) (complete F cfg s.userRules h ms))) :
    Proc.Leads p q (evaluateUnsequenced F s cfg h) := by
  have hrest : ∀ ms, Proc.Leads p q (onSlot (h.event.source, h.event.instrumentId) (complete F cfg s.userRules h ms) >>= fun ev =>
      pure (some ev) : QualityM V (Option (MarketEvent V))) := fun ms =>
    .bind (Q := fun _ => True) (hcomplete ms) (fun _ _ _ => trivial) (fun _ he => he) (fun _ _ => .pure (fun _ he => he) _)
  unfold evaluateUnsequenced
  dsimp only
  split
  · refine .read_bind (fun hit => ?_)
    exact .modify_bind (r := p) (fun e he => hsame e _ rfl he) (hrest _)
  · exact hrest []

/-- What a call of `evaluate` does to the slots once there is one for the event. -/
theorem evaluate_leads {p q : QualityEngine V → Prop} (now : V) {ev : MarketEvent V}
    (hslot : Proc.Leads p p (getSlot F s (ev.source, ev.instrumentId) (s.limits ev.instrumentId).priceWindow))
    (hsame : ∀ e e' : QualityEngine V, e'.slots = e.slots → p e → p e') (hpq : ∀ e, p e → q e)
    (hcomplete : ∀ h ms, Proc.Leads p q (onSlot (ev.source, ev.instrumentId) (complete F (s.limits ev.instrumentId) s.userRules h ms)))
    (hsequenced : ev.eventType.isSome → ∀ seq ∈ ev.sequenceNumber, 0 ≤ seq → Proc.Leads p q (onSlot (ev.source, ev.instrumentId)
      (evaluateSequenced F (s.limits ev.instrumentId) s.userRules (checked F (s.limits ev.instrumentId) now ev) seq))) :
    Proc.Leads p q (evaluate F s now ev) := by
  have hunmarked := checked_unmarked F (s.limits ev.instrumentId) now ev
  have hsource := congrArg MarketEvent.source hunmarked
  have hinstrument := congrArg MarketEvent.instrumentId hunmarked
  simp only [MarketEvent.unmarked] at hsource hinstrument
  have hunsequenced : Proc.Leads p q (evaluateUnsequenced F s (s.limits ev.instrumentId) (checked F (s.limits ev.instrumentId) now ev)) := by
    refine evaluateUnsequenced_leads F s _ _ hsame ?_
    rw [hsource, hinstrument]
    exact hcomplete _
  rw [evaluate]
  refine .bind (Q := fun _ => True) hslot (fun _ _ _ => trivial) hpq ?_
  rintro ⟨⟩ -
  by_cases htype : ev.eventType = none
  · rw [if_pos htype]
    exact .modify_bind (r := p) (fun e he => hsame e _ rfl he) (.pure hpq _)
  · rw [if_neg htype]
    refine .modify_bind (r := p) (fun e he => hsame e _ rfl he) ?_
    rcases hseq : ev.sequenceNumber with _ | seq
    · exact hunsequenced
    · dsimp only
      split
      · exact hsequenced (Option.isSome_iff_ne_none.mpr htype) seq hseq ‹_›
      · exact hunsequenced

theorem evaluate_oneSlot (now : V) {ev : MarketEvent V} (hkey : (ev.source, ev.instrumentId) = key) :
    Proc.Leads (OneSlot key) (OneSlot key) (evaluate F s now ev) := by
  have hchecked := congrArg MarketEvent.sequenceNumber (checked_unmarked F (s.limits ev.instrumentId) now ev)
  subst hkey
  refine evaluate_leads F s now (getSlot_oneSlot F s _) (fun e e' hslots he => he.of_slots hslots) (fun _ he => he) ?_ ?_
  · intro h ms
    exact onSlot_oneSlot (complete_leads (fun _ _ => .sameSequence) (fun _ => .advance) (fun _ _ hsl => hsl) h ms)
  · intro _ seq hseq _
    exact onSlot_oneSlot (evaluateSequenced_sound F _ _ (Eq.trans hchecked hseq))

theorem onSlot_keeps_noted {α : Type} {m : SlotM V α} {sl : QualitySlot V}
    (hm : ∀ tally, (m ⟨sl, tally⟩).2.slot.Noted n) :
    Proc.Leads (fun e => e.slots.get? key = some sl) (At key (QualitySlot.Noted n)) (onSlot key m) :=
  fun _ hget => onSlot_at hget (hm _)

/-- A call that begins no epoch and does not move the sequence leaves the numbers noted. -/
theorem evaluate_keeps_noted (now : V) {ev : MarketEvent V} {sl : QualitySlot V} (hsl : sl.Noted n)
    (hstay : ev.eventType.isSome → ∀ seq ∈ ev.sequenceNumber, 0 ≤ seq →
      sl.epochReset F (s.limits ev.instrumentId) ev seq = false ∧ sl.rebases F (s.limits ev.instrumentId) seq = false) :
    Proc.Leads (fun e => e.slots.get? (ev.source, ev.instrumentId) = some sl)
      (At (ev.source, ev.instrumentId) (QualitySlot.Noted n)) (evaluate F s now ev) := by
  refine evaluate_leads F s now ?_ (fun e e' hslots he => hslots ▸ he) (fun e he => ⟨sl, he, hsl⟩) ?_ ?_
  · intro e he
    simp only [getSlot, he]
  · intro h ms
    exact onSlot_keeps_noted fun tally =>
      complete_leads (p := QualitySlot.Noted n) (fun _ _ => .sameSequence) (fun _ => .advance) (fun _ _ h => h.keep rfl rfl rfl)
        h ms ⟨sl, tally⟩ hsl
  · intro htype seq hseq hnonneg
    obtain ⟨hreset, hrebases⟩ := hstay htype seq hseq hnonneg
    refine onSlot_keeps_noted ?_
    intro tally
    refine evaluateSequenced_keeps_noted F _ _ _ hsl ?_ hrebases
    rw [epochReset_checked]
    exact hreset

/-- An event of a known type with a number gets to the second stage of its slot. -/
theorem evaluate_post {Q : Option (MarketEvent V) → QualityEngine V → Prop} (now : V) {ev : MarketEvent V} (htype : ev.eventType.isSome)
    {seq : Int} (hseq : ev.sequenceNumber = some seq) (hnonneg : 0 ≤ seq) {e : QualityEngine V}
    (hslot : ∀ t : QualityEngine V, t.slots.get? (ev.source, ev.instrumentId) = some (e.slotFor F s ev) →
      Proc.Post Q (onSlot (ev.source, ev.instrumentId) (evaluateSequenced F (s.limits ev.instrumentId) s.userRules
        (checked F (s.limits ev.instrumentId) now ev) seq)) t) :
    Proc.Post Q (evaluate F s now ev) e := by
  rw [evaluate]
  refine .bind ?_
  intro u hok
  have hget := getSlot_get? F s e ev hok
  rw [if_neg (Option.isSome_iff_ne_none.mp htype)]
  refine .modify_bind ?_
  rw [hseq]
  dsimp only
  rw [if_pos hnonneg]
  exact hslot _ hget

theorem evaluate_noted (hn : 0 ≤ n) (now : V) {ev : MarketEvent V} {e : QualityEngine V}
    (hfirm : ev.sequenceNumber = some n → ev.eventType.isSome ∧
      ((e.slotFor F s ev).epochReset F (s.limits ev.instrumentId) ev n = false →
        (e.slotFor F s ev).strays F (s.limits ev.instrumentId) n = false)) :
    Proc.Post (fun r t => Bears n r.toList → t.At (ev.source, ev.instrumentId) (QualitySlot.Noted n)) (evaluate F s now ev) e := by
  by_cases hseq : ev.sequenceNumber = some n
  · obtain ⟨htype, hstray⟩ := hfirm hseq
    refine evaluate_post F s now htype hseq hn ?_
    intro t hget r hr hbears
    refine onSlot_at hget ?_
    rw [onSlot_apply _ hget] at hr
    have hsome : r.isSome := by
      rcases r with _ | ev'
      · exact absurd hbears (not_bears_nil n)
      · rfl
    refine evaluateSequenced_noted F _ _ _ ?_ r hr hsome
    rw [epochReset_checked]
    exact hstray
  · -- the event that is returned has the number it came with
    intro r hr hbears
    obtain ⟨ev', hev', hnumber⟩ := hbears
    have hunmarked := congrArg MarketEvent.sequenceNumber (evaluate_unmarked F s hr ev' (Option.mem_toList.mp hev'))
    exact absurd (Eq.trans hunmarked.symm hnumber) hseq

theorem evaluate_rejected (hn : 0 ≤ n) (now : V) {ev : MarketEvent V} (htype : ev.eventType.isSome)
    (hseq : ev.sequenceNumber = some n) {e : QualityEngine V} {sl : QualitySlot V}
    (hget : e.slots.get? (ev.source, ev.instrumentId) = some sl) (hsl : sl.Noted n)
    (hreset : sl.epochReset F (s.limits ev.instrumentId) ev n = false) (hle : n ≤ sl.lastSeq) (hwindow : sl.lastSeq - n < 64) :
    Proc.Post (fun r _ => ∃ ev' ∈ r, ev'.Rejected .duplicate) (evaluate F s now ev) e := by
  have hslot : e.slotFor F s ev = sl := by
    rw [slotFor, hget]
    rfl
  refine evaluate_post F s now htype hseq hn ?_
  intro t ht r hr
  rw [hslot] at ht
  rw [onSlot_apply _ ht] at hr
  refine evaluateSequenced_rejected F _ _ _ (w := ⟨sl, t.tally⟩) hsl ?_ hle hwindow r hr
  rw [epochReset_checked]
  exact hreset

/-! ### Draining -/

theorem drainSlots_oneSlot (now : V) (force : Bool) {keys : List (String × String)} (hkeys : ∀ k ∈ keys, k = key) :
    Proc.Leads (OneSlot key) (OneSlot key) (drainSlots F s now force keys) := by
  induction keys with
  | nil => exact .pure (fun _ he => he) _
  | cons k keys ih =>
    obtain rfl := hkeys k List.mem_cons_self
    rw [drainSlots]
    refine .seq (onSlot_oneSlot (drainSlot_sound F _ _ now force)) ?_
    intro evs
    exact .seq (ih (fun k' hk' => hkeys k' (List.mem_cons_of_mem _ hk'))) (fun _ => .pure (fun _ he => he) _)

theorem drainSlots_keeps_noted (now : V) (force : Bool) (keys : List (String × String)) :
    Proc.Leads (At key (QualitySlot.Noted n)) (At key (QualitySlot.Noted n)) (drainSlots F s now force keys) := by
  induction keys with
  | nil => exact .pure (fun _ he => he) _
  | cons key' keys ih =>
    rw [drainSlots]
    refine .seq ?_ (fun _ => .seq ih (fun _ => .pure (fun _ he => he) _))
    rintro e ⟨sl, hget, hsl⟩
    rcases hget' : e.slots.get? key' with _ | sl'
    · simp only [onSlot, hget']
      exact ⟨sl, hget, hsl⟩
    · by_cases hkey : key' = key
      · subst hkey
        exact onSlot_at hget (drainSlot_keeps_noted F _ _ now force ⟨sl, e.tally⟩ hsl)
      · rw [onSlot_apply _ hget']
        refine ⟨sl, ?_, hsl⟩
        rw [Dict.get?_set_ne _ (Ne.symm hkey)]
        exact hget

theorem drainExpired_noted (now : V) (force : Bool) {e : QualityEngine V} (he : e.OneSlot key) (hwhole : e.Whole)
    (hcan : ∀ sl, e.slots.get? key = some sl → (Bears n sl.ready → sl.Noted n) ∧
      (n ∈ sl.expired F (s.limits key.2) now force → sl.lastSeq < n ∨ sl.Noted n)) :
    Proc.Post (fun evs t => Bears n evs → t.At key (QualitySlot.Noted n)) (drainExpired F s now force) e := by
  rw [drainExpired]
  refine .read_bind ?_
  rcases he.items hwhole with hitems | ⟨sl, hitems⟩
  · rw [hitems]
    exact .pure (fun hbears => absurd hbears (not_bears_nil n))
  · have hget : e.slots.get? key = some sl := hwhole.distinct.get?_of_mem (by rw [hitems]; exact List.mem_cons_self)
    obtain ⟨hready, hpassed⟩ := hcan sl hget
    rw [hitems]
    refine .bind ?_
    intro evs hevs
    refine .bind ?_
    intro rest hrest
    cases hrest
    refine .pure ?_
    intro hbears
    rw [List.append_nil] at hbears
    refine onSlot_at hget ?_
    rw [onSlot_apply _ hget] at hevs
    exact drainSlot_noted F _ _ now force (w := ⟨sl, e.tally⟩) (he.at hget) hready hpassed evs hevs hbears

end QualityEngine

namespace QualityCall

open QualityEngine

variable (F : Floats V) (s : QualitySetup V) (key : String × String) (n : Int)

/-- The call moves the sequence of its slot. -/
def Rebases (e : QualityEngine V) : QualityCall V → Prop
  | .evaluate _ ev => ev.eventType.isSome ∧ ∃ seq ∈ ev.sequenceNumber, 0 ≤ seq ∧
      (e.slotFor F s ev).epochReset F (s.limits ev.instrumentId) ev seq = false ∧
      (e.slotFor F s ev).rebases F (s.limits ev.instrumentId) seq = true
  | .drainExpired _ _ => False

/-- The call begins an epoch. -/
def Begins (e : QualityEngine V) : QualityCall V → Prop
  | .evaluate _ ev => ev.eventType.isSome ∧ ∃ seq ∈ ev.sequenceNumber, 0 ≤ seq ∧
      (e.slotFor F s ev).epochReset F (s.limits ev.instrumentId) ev seq = true
  | .drainExpired _ _ => False

/-- The call notes the number if it hands it back: it is no first jump beyond the limit, and has not been passed by while it was held,
or while it was ready. -/
def Notes (e : QualityEngine V) : QualityCall V → Prop
  | .evaluate _ ev => ev.sequenceNumber = some n → ev.eventType.isSome ∧
      ((e.slotFor F s ev).epochReset F (s.limits ev.instrumentId) ev n = false →
        (e.slotFor F s ev).strays F (s.limits ev.instrumentId) n = false)
  | .drainExpired now force => ∀ sl, e.slots.get? key = some sl → (Bears n sl.ready → sl.Noted n) ∧
      (n ∈ sl.expired F (s.limits key.2) now force → sl.lastSeq < n ∨ sl.Noted n)

/-- In a run on one slot a call hands a number back, the sequence is not moved since, and the number comes again in the window. -/
structure Repeats (pre : List (QualityCall V)) (c : QualityCall V) (post : List (QualityCall V)) (ev : MarketEvent V) : Prop where
  number : 0 ≤ n
  oneSlot : ∀ c' ∈ pre ++ c :: post, ∀ ev' ∈ c'.passed, (ev'.source, ev'.instrumentId) = key
  back : Bears n (handedBack (step F s (runFrom (fun e c => (step F s e c).2) .new pre) c).1)
  since : Along (fun e c => (step F s e c).2) (fun e c => ¬c.Rebases F s e)
    (runFrom (fun e c => (step F s e c).2) .new (pre ++ [c])) post
  again : (ev.source, ev.instrumentId) = key ∧ ev.sequenceNumber = some n
  window : ∀ sl, (runFrom (fun e c => (step F s e c).2) .new (pre ++ c :: post)).slots.get? key = some sl →
    0 ≤ sl.lastSeq - n ∧ sl.lastSeq - n < 64

variable {F s key n}

theorem run_oneSlot {c : QualityCall V} (hc : ∀ ev ∈ c.passed, (ev.source, ev.instrumentId) = key) :
    Proc.Leads (OneSlot key) (OneSlot key) (c.run F s) := by
  cases c with
  | evaluate now ev =>
    exact .seq (evaluate_oneSlot F s now (hc ev List.mem_cons_self)) (fun _ => .pure (fun _ he => he) _)
  | drainExpired now force =>
    intro e he
    refine drainSlots_oneSlot F s now force ?_ e he
    intro k hk
    obtain ⟨kv, hkv, rfl⟩ := List.mem_map.mp hk
    exact he.key kv hkv

theorem runFrom_oneSlot {cs : List (QualityCall V)} (hcs : ∀ c ∈ cs, ∀ ev ∈ c.passed, (ev.source, ev.instrumentId) = key)
    {e : QualityEngine V} (he : e.OneSlot key) : (runFrom (fun e c => (step F s e c).2) e cs).OneSlot key := by
  induction cs generalizing e with
  | nil => exact he
  | cons c cs ih =>
    exact ih (fun c' hc' => hcs c' (List.mem_cons_of_mem _ hc')) (run_oneSlot (hcs c List.mem_cons_self) e he)

theorem run_keeps_noted {c : QualityCall V} (hc : ∀ ev ∈ c.passed, (ev.source, ev.instrumentId) = key) {e : QualityEngine V}
    (he : e.At key (QualitySlot.Noted n)) (hstay : ¬c.Rebases F s e) (hsame : ¬c.Begins F s e) :
    (c.run F s e).2.At key (QualitySlot.Noted n) := by
  cases c with
  | evaluate now ev =>
    obtain rfl := hc ev List.mem_cons_self
    obtain ⟨sl, hget, hsl⟩ := he
    have hslot : e.slotFor F s ev = sl := by
      rw [slotFor, hget]
      rfl
    have hevaluate : Proc.Leads (fun e => e.slots.get? (ev.source, ev.instrumentId) = some sl)
        (At (ev.source, ev.instrumentId) (QualitySlot.Noted n)) (QualityEngine.evaluate F s now ev) := by
      refine evaluate_keeps_noted F s now hsl ?_
      intro htype seq hseq hnonneg
      rw [← hslot]
      have hreset : (e.slotFor F s ev).epochReset F (s.limits ev.instrumentId) ev seq = false :=
        Bool.eq_false_iff.mpr fun hbegins => hsame ⟨htype, seq, hseq, hnonneg, hbegins⟩
      exact ⟨hreset, Bool.eq_false_iff.mpr fun hmoves => hstay ⟨htype, seq, hseq, hnonneg, hreset, hmoves⟩⟩
    have hrun : Proc.Leads (fun e => e.slots.get? (ev.source, ev.instrumentId) = some sl)
        (At (ev.source, ev.instrumentId) (QualitySlot.Noted n)) (QualityCall.run F s (.evaluate now ev)) :=
      .bind (Q := fun _ => True) hevaluate (fun _ _ _ => trivial) (fun _ h => h) (fun _ _ => .pure (fun _ h => h) _)
    exact hrun e hget
  | drainExpired now force => exact drainSlots_keeps_noted F s now force _ e he

theorem runFrom_keeps_noted {cs : List (QualityCall V)} (hcs : ∀ c ∈ cs, ∀ ev ∈ c.passed, (ev.source, ev.instrumentId) = key)
    {e : QualityEngine V} (he : e.At key (QualitySlot.Noted n))
    (hstay : Along (fun e c => (step F s e c).2) (fun e c => ¬c.Rebases F s e) e cs)
    (hsame : Along (fun e c => (step F s e c).2) (fun e c => ¬c.Begins F s e) e cs) :
    (runFrom (fun e c => (step F s e c).2) e cs).At key (QualitySlot.Noted n) := by
  induction cs generalizing e with
  | nil => exact he
  | cons c cs ih =>
    exact ih (fun c' hc' => hcs c' (List.mem_cons_of_mem _ hc'))
      (run_keeps_noted (hcs c List.mem_cons_self) he hstay.1 hsame.1) hstay.2 hsame.2

theorem run_noted (hn : 0 ≤ n) {c : QualityCall V} (hc : ∀ ev ∈ c.passed, (ev.source, ev.instrumentId) = key) {e : QualityEngine V}
    (he : e.OneSlot key) (hwhole : e.Whole) (hnotes : c.Notes F s key n e) :
    Proc.Post (fun evs t => Bears n evs → t.At key (QualitySlot.Noted n)) (c.run F s) e := by
  cases c with
  | evaluate now ev =>
    obtain rfl := hc ev List.mem_cons_self
    refine .bind ?_
    intro r hr
    exact .pure (evaluate_noted F s hn now hnotes r hr)
  | drainExpired now force => exact drainExpired_noted F s now force he hwhole hnotes

end QualityCall

open QualityCall in
/-- A number that comes again is caught, where the call that handed it back noted it, and no epoch has begun since. -/
theorem duplicates_caught (F : Floats V) (s : QualitySetup V) {key : String × String} {n : Int} {pre : List (QualityCall V)}
    {c : QualityCall V} {post : List (QualityCall V)} {ev : MarketEvent V} (h : Repeats F s key n pre c post ev)
    (hnotes : c.Notes F s key n (runFrom (fun e c => (QualityCall.step F s e c).2) .new pre)) (now : V)
    (hsame : Along (fun e c => (QualityCall.step F s e c).2) (fun e c => ¬c.Begins F s e)
      (runFrom (fun e c => (QualityCall.step F s e c).2) .new (pre ++ [c])) (post ++ [.evaluate now ev]))
    (htype : ev.eventType.isSome) {r : Option (MarketEvent V)}
    (hr : (QualityEngine.evaluate F s now ev (runFrom (fun e c => (QualityCall.step F s e c).2) .new (pre ++ c :: post))).1 = .ok r) :
    ∃ ev' ∈ r, ev'.qualityStatus = .invalid ∧ Reason.duplicate.value ∈ ev'.reasons := by
  have hpre : ∀ c' ∈ pre, ∀ ev' ∈ c'.passed, (ev'.source, ev'.instrumentId) = key := fun c' hc' =>
    h.oneSlot c' (List.mem_append_left _ hc')
  have hpost : ∀ c' ∈ post, ∀ ev' ∈ c'.passed, (ev'.source, ev'.instrumentId) = key := fun c' hc' =>
    h.oneSlot c' (List.mem_append_right _ (List.mem_cons_of_mem _ hc'))
  -- the call notes the number, and it stays noted
  have hnoted : (runFrom (fun e c => (QualityCall.step F s e c).2) .new (pre ++ [c])).At key (QualitySlot.Noted n) := by
    have hback := h.back
    rw [runFrom_append, runFrom_cons, runFrom_nil]
    rcases hrun : (QualityCall.step F s (runFrom (fun e c => (QualityCall.step F s e c).2) .new pre) c).1 with x | evs
    · rw [hrun] at hback
      exact absurd hback (not_bears_nil n)
    · rw [hrun] at hback
      exact run_noted h.number (h.oneSlot c (List.mem_append_right _ List.mem_cons_self)) (runFrom_oneSlot hpre .new)
        (runFrom_whole .new pre) hnotes evs hrun hback
  have hkept := runFrom_keeps_noted hpost hnoted h.since hsame.of_append
  have hlast := hsame.last
  have hwindow := h.window
  obtain ⟨hkey, hseq⟩ := h.again
  rw [← runFrom_append, List.append_assoc, List.singleton_append] at hkept hlast
  obtain ⟨sl, hget, hsl⟩ := hkept
  obtain ⟨hle, hlt⟩ := hwindow sl hget
  subst hkey
  have hslot : (runFrom (fun e c => (QualityCall.step F s e c).2) .new (pre ++ c :: post)).slotFor F s ev = sl := by
    rw [QualityEngine.slotFor, hget]
    rfl
  have hreset : sl.epochReset F (s.limits ev.instrumentId) ev n = false := by
    rw [← hslot]
    exact Bool.eq_false_iff.mpr fun hbegins => hlast ⟨htype, n, hseq, h.number, hbegins⟩
  exact QualityEngine.evaluate_rejected F s h.number now htype hseq hget hsl hreset (by omega) hlt r hr

theorem slot_of_run {e : QualityEngine V} {key : String × String} {sl : QualitySlot V} {last : Int} {k : Nat}
    (hsome : (e.slots.get? key).map (fun sl => (sl.lastSeq, sl.ready.length)) = some (last, k)) (hget : e.slots.get? key = some sl) :
    sl.lastSeq = last ∧ sl.ready.length = k := by
  rw [hget, Option.map_some, Option.some.injEq, Prod.mk.injEq] at hsome
  exact hsome

/-- A number that is held and drained is caught when it comes again. -/
theorem duplicates_caught_drained :
    ∃ r, (QualityEngine.evaluate exactNumbers reordering (some 0) (statusAt 2 3)
        (runFrom (fun e c => (QualityCall.step exactNumbers reordering e c).2) .new
          (evaluations [statusAt 0 1, statusAt 1 3] ++ [.drainExpired (some 0) true]))).1 = .ok r ∧
      ∃ ev' ∈ r, ev'.qualityStatus = .invalid ∧ Reason.duplicate.value ∈ ev'.reasons := by
  have hrepeats : QualityCall.Repeats exactNumbers reordering ("A", "X") 3 (evaluations [statusAt 0 1, statusAt 1 3])
      (.drainExpired (some 0) true) [] (statusAt 2 3) := by
    refine ⟨by decide, by decide, ?_, trivial, ⟨rfl, rfl⟩, ?_⟩
    · unfold Bears
      decide +kernel
    · intro sl hget
      rw [(@slot_of_run _ _ _ _ 3 0 (by decide +kernel) hget).1]
      decide
  obtain ⟨r, hr⟩ : ∃ r, (QualityEngine.evaluate exactNumbers reordering (some 0) (statusAt 2 3)
      (runFrom (fun e c => (QualityCall.step exactNumbers reordering e c).2) .new
        (evaluations [statusAt 0 1, statusAt 1 3] ++ [.drainExpired (some 0) true]))).1 = .ok r :=
    (QualityEngine.evaluate_tame reordering_tame (some 0) (fun _ _ => trivial) _
      (QualityCall.runFrom_tame reordering_tame (fun _ _ _ _ _ _ => trivial) .new)).1
  refine ⟨r, hr, duplicates_caught exactNumbers reordering hrepeats ?_ (some 0) ?_ rfl hr⟩
  · intro sl hget
    obtain ⟨hlast, hready⟩ := @slot_of_run _ _ _ _ 1 0 (by decide +kernel) hget
    refine ⟨?_, fun _ => .inl (by rw [hlast]; decide)⟩
    rw [List.length_eq_zero_iff.mp hready]
    exact fun hbears => absurd hbears (not_bears_nil 3)
  · refine ⟨?_, trivial⟩
    rintro ⟨-, seq, hseq, -, hbegins⟩
    cases hseq
    revert hbegins
    decide

/-- A number is held while the sequence passes it by, and drained: it is not caught when it comes again. -/
theorem duplicates_caught_false :
    ¬∀ (key : String × String) (n : Int) (pre : List (QualityCall (Option ℚ))) (c : QualityCall (Option ℚ))
        (post : List (QualityCall (Option ℚ))) (ev : MarketEvent (Option ℚ)),
      QualityCall.Repeats exactNumbers reordering key n pre c post ev → ∀ now r,
        (QualityEngine.evaluate exactNumbers reordering now ev
          (runFrom (fun e c => (QualityCall.step exactNumbers reordering e c).2) .new (pre ++ c :: post))).1 = .ok r →
        ∃ ev' ∈ r, ev'.qualityStatus = .invalid ∧ Reason.duplicate.value ∈ ev'.reasons := by
  intro h
  have hrepeats : QualityCall.Repeats exactNumbers reordering ("A", "X") 5
      (evaluations [statusAt 0 1, statusAt 1 5, statusAt 2 40]) (.drainExpired (some 0) true) [] (statusAt 3 5) := by
    refine ⟨by decide, by decide, ?_, trivial, ⟨rfl, rfl⟩, ?_⟩
    · unfold Bears
      decide +kernel
    · intro sl hget
      rw [(@slot_of_run _ _ _ _ 40 0 (by decide +kernel) hget).1]
      decide
  have hstatus : ((QualityEngine.evaluate exactNumbers reordering (some 0) (statusAt 3 5)
      (runFrom (fun e c => (QualityCall.step exactNumbers reordering e c).2) .new
        (evaluations [statusAt 0 1, statusAt 1 5, statusAt 2 40] ++ [.drainExpired (some 0) true]))).1).toOption.map
          (Option.map (·.qualityStatus)) = some (some .suspicious) := by decide +kernel
  have hcaught := h ("A", "X") 5 _ _ _ _ hrepeats (some 0)
  rcases hrun : (QualityEngine.evaluate exactNumbers reordering (some 0) (statusAt 3 5)
      (runFrom (fun e c => (QualityCall.step exactNumbers reordering e c).2) .new
        (evaluations [statusAt 0 1, statusAt 1 5, statusAt 2 40] ++ [.drainExpired (some 0) true]))).1 with x | r
  · rw [hrun] at hstatus
    cases hstatus
  · obtain ⟨ev', hev', hinvalid, -⟩ := hcaught r hrun
    rw [hrun, Option.mem_def.mp hev'] at hstatus
    have hsuspicious : ev'.qualityStatus = .suspicious := Option.some.inj (Option.some.inj hstatus)
    rw [hinvalid] at hsuspicious
    cases hsuspicious

end Mdrap
