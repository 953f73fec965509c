import Mdrap.Lib.SeenBits
import Mdrap.Quality.Engine
import Mdrap.Theorems.NativeSequence

/-!
# The native window of numbers is exact

A native slot keeps a word of sixty-four bits for the numbers up to the last one. Since the slot last began a sequence, the word has
the numbers that were counted, and it tells a duplicate from a late number. A jump past the limit that the next number does not
confirm is not counted.
-/

namespace Mdrap

open Lib

variable {V W : Type}

/-- What a number does to the sequence of a slot: a sequence begins with it, it is a candidate for a jump, or it counts. -/
inductive SeqMove where
  | rebase
  | candidate
  | counted
  deriving DecidableEq

/-- A sequence begins with the first number, with a jump past the limit that confirms the one before it, and with the second number in
a row that is far back and new. -/
def FastSlot.seqMove (limit : Int) (sl : FastSlot W) (seq : Int) : SeqMove :=
  if !sl.hasSeq then .rebase
  else if seq > sl.lastSeq then
    if seq - sl.lastSeq > limit then
      if sl.candPlus1 ≠ 0 ∧ seq > sl.candPlus1 - 1 ∧ seq - (sl.candPlus1 - 1) ≤ limit then .rebase else .candidate
    else .counted
  else if 64 ≤ sl.lastSeq - seq ∧ seq ∉ sl.staleSeen ∧ sl.lastSeq - seq > limit ∧ sl.regressCount ≠ 0 then .rebase
  else .counted

/-- The numbers since the sequence began, with the candidates or without them. -/
def SeqMove.note (candidates : Bool) (seq : Int) (ns : List Int) : SeqMove → List Int
  | .rebase => [seq]
  | .candidate => if candidates then seq :: ns else ns
  | .counted => seq :: ns

/-- A number is checked in C, whatever marks its event has by then, and noted. -/
def bitmapStep (candidates : Bool) (limit : Int64) (s : FastSlot W × List Int) (x : Fin (2 ^ 63 - 1) × FastResult) :
    FastSlot W × List Int :=
  ((s.1.seqCheck limit.toInt x.1.val x.2).2, (s.1.seqMove limit.toInt x.1.val).note candidates x.1.val s.2)

/-- The word of a slot has the numbers noted, and its fields are in range. -/
structure FastSlot.Notes (sl : FastSlot W) (ns : List Int) : Prop where
  last : 0 ≤ sl.lastSeq ∧ sl.lastSeq < 2 ^ 63 - 1
  cand : sl.candPlus1 < 2 ^ 63
  regress : sl.regressCount ≤ 1
  bits : SeenBits 64 sl.seen sl.lastSeq { n | n ∈ ns }

namespace FastSlot

variable {sl : FastSlot W} {ns : List Int}

theorem Notes.fresh (F : Floats W) (ring : List W) (epoch : Nat) : (FastSlot.fresh F ring epoch).Notes [] :=
  ⟨⟨le_refl (0 : Int), show (0 : Int) < 2 ^ 63 - 1 by decide⟩, Nat.two_pow_pos 63, Nat.zero_le 1, ⟨nofun, fun i _ => by simp [FastSlot.fresh, touch, zeroed]⟩⟩

theorem setOf_mem_cons (n : Int) (ns : List Int) : { m | m ∈ n :: ns } = insert n { m | m ∈ ns } := by
  ext m
  simp

theorem setOf_mem_singleton (n : Int) : { m | m ∈ [n] } = ({n} : Set Int) := by
  ext m
  simp

theorem Notes.ahead (h : sl.Notes ns) (hseq : sl.hasSeq = true) (limit : Int) {seq : Int} (hrange : 0 ≤ seq ∧ seq < 2 ^ 63 - 1)
    (hahead : seq > sl.lastSeq) (res : FastResult) :
    (sl.seqAhead limit seq res).2.Notes ((sl.seqMove limit seq).note false seq ns) := by
  obtain ⟨hnonneg, hbound⟩ := h.last
  have hjump : int64 (seq - sl.lastSeq) = seq - sl.lastSeq := int64_eq (by omega) (by omega)
  have hzero : (0 : Nat) < 2 ^ 63 := Nat.two_pow_pos 63
  simp only [seqAhead, seqMove, hseq, hjump, near_iff h.cand limit hrange, Bool.not_true, Bool.false_eq_true, if_false, hahead, if_true]
  by_cases hfar : seq - sl.lastSeq > limit
  · simp only [hfar, if_true]
    split
    · exact ⟨hrange, hzero, Nat.zero_le 1, setOf_mem_singleton seq ▸ .start seq⟩
    · have huint : uint 64 (uint 64 seq + 1) = seq.toNat + 1 := by
        obtain ⟨n, rfl⟩ := Int.eq_ofNat_of_zero_le hrange.1
        rw [uint_eq (by omega), show (n : Int) + 1 = ((n + 1 : Nat) : Int) by omega, Int.toNat_natCast]
        exact uint_eq (by omega)
      rw [huint]
      exact ⟨h.last, by dsimp only; omega, h.regress, h.bits⟩
  · simp only [hfar, if_false, shiftSeen_eq, shiftSeen_bits]
    refine ⟨hrange, hzero, Nat.zero_le 1, ?_⟩
    rw [SeqMove.note, setOf_mem_cons]
    exact h.bits.ahead hahead

/-- The marks of a number in the window, and the word after it. -/
theorem Notes.inWindow (h : sl.Notes ns) (limit : Int) {seq : Int} (hseq : 0 ≤ seq) (hle : seq ≤ sl.lastSeq)
    (hwindow : sl.lastSeq - seq < 64) (res : FastResult) :
    sl.seqBehind limit seq res =
      if seq ∈ ns then ((res.mark .invalid REASON_DUPLICATE).markIf (seq < sl.lastSeq) .invalid REASON_OUT_OF_ORDER, sl)
      else (res.mark .suspicious REASON_OUT_OF_ORDER, { sl with seen := sl.seen ||| 1 <<< (sl.lastSeq - seq).toNat }) := by
  have hbit : uint 64 (1 <<< (sl.lastSeq - seq).toNat : Nat) = 1 <<< (sl.lastSeq - seq).toNat := by
    apply uint_eq
    rw [Nat.one_shiftLeft]
    exact Nat.pow_lt_pow_right (by decide) (by omega)
  have hmem : sl.seen.testBit (sl.lastSeq - seq).toNat = true ↔ seq ∈ ns := h.bits.testBit_iff hle (by exact_mod_cast hwindow)
  have hpos : (sl.lastSeq - seq).toNat > 0 ↔ seq < sl.lastSeq := by omega
  unfold seqBehind
  simp only [distance hseq hle h.last.2, show (sl.lastSeq - seq).toNat < 64 by omega, if_true, hmem, hpos, hbit]

theorem Notes.behind (h : sl.Notes ns) (hseq : sl.hasSeq = true) {limit : Int64} (hlimit : 0 < limit) {seq : Int}
    (hrange : 0 ≤ seq ∧ seq < 2 ^ 63 - 1) (hle : seq ≤ sl.lastSeq) (res : FastResult) :
    (sl.seqBehind limit.toInt seq res).2.Notes ((sl.seqMove limit.toInt seq).note false seq ns) := by
  have hahead : ¬seq > sl.lastSeq := Int.not_lt.mpr hle
  simp only [seqMove, hseq, Bool.not_true, Bool.false_eq_true, if_false, hahead]
  by_cases hwindow : sl.lastSeq - seq < 64
  · rw [h.inWindow limit.toInt hrange.1 hle hwindow res]
    simp only [show ¬64 ≤ sl.lastSeq - seq by omega, false_and, if_false, SeqMove.note]
    split
    · rename_i hmem
      refine ⟨h.last, h.cand, h.regress, ?_⟩
      rw [setOf_mem_cons, Set.insert_eq_of_mem (show seq ∈ { m | m ∈ ns } from hmem)]
      exact h.bits
    · refine ⟨h.last, h.cand, h.regress, ?_⟩
      rw [setOf_mem_cons]
      exact h.bits.late hle
  · have hfarWindow : ¬(sl.lastSeq - seq).toNat < 64 := by omega
    have hbefore : SeenBits 64 sl.seen sl.lastSeq { n | n ∈ seq :: ns } := by
      rw [setOf_mem_cons]
      exact h.bits.before hle (by omega)
    have hregress : uint 32 (sl.regressCount + 1) = sl.regressCount + 1 := by
      rw [show (sl.regressCount : Int) + 1 = ((sl.regressCount + 1 : Nat) : Int) by omega]
      exact uint_eq (by have := h.regress; omega)
    have hone := h.regress
    unfold seqBehind
    simp only [distance hrange.1 hle h.last.2, hfarWindow, if_false, Follows.far_iff hlimit, hregress, Int.not_lt.mp hwindow,
      true_and]
    by_cases hstale : seq ∈ sl.staleSeen
    · simp only [hstale, if_true, not_true, false_and, if_false]
      exact ⟨h.last, h.cand, h.regress, hbefore⟩
    · simp only [hstale, if_false, not_false_eq_true, true_and]
      by_cases hfar : sl.lastSeq - seq > limit.toInt
      · simp only [hfar, if_true, true_and]
        by_cases htwice : sl.regressCount ≠ 0
        · rw [if_pos (by omega), if_pos htwice]
          exact ⟨hrange, Nat.two_pow_pos 63, Nat.zero_le 1, setOf_mem_singleton seq ▸ .start seq⟩
        · rw [if_neg (by omega), if_neg htwice]
          refine ⟨h.last, h.cand, ?_, hbefore⟩
          change sl.regressCount + 1 ≤ 1
          omega
      · simp only [hfar, if_false, false_and]
        exact ⟨h.last, h.cand, Nat.zero_le 1, hbefore⟩

/-- A number keeps the word right. -/
theorem Notes.step {limit : Int64} (hlimit : 0 < limit) {s : FastSlot W × List Int} (h : s.1.Notes s.2)
    (x : Fin (2 ^ 63 - 1) × FastResult) : (bitmapStep false limit s x).1.Notes (bitmapStep false limit s x).2 := by
  have hx := x.1.isLt
  have hrange : 0 ≤ (x.1.val : Int) ∧ (x.1.val : Int) < 2 ^ 63 - 1 := by omega
  unfold bitmapStep seqCheck
  rcases hseq : s.1.hasSeq with _ | _
  · simp only [seqMove, hseq, Bool.not_false, if_true]
    exact ⟨hrange, h.cand, Nat.zero_le 1, setOf_mem_singleton _ ▸ .start _⟩
  · simp only [Bool.not_true, Bool.false_eq_true, if_false]
    split
    · exact h.ahead hseq limit.toInt hrange (by assumption) x.2
    · exact h.behind hseq hlimit hrange (by omega) x.2

theorem Notes.run {limit : Int64} (hlimit : 0 < limit) {s : FastSlot W × List Int} (h : s.1.Notes s.2)
    (xs : List (Fin (2 ^ 63 - 1) × FastResult)) :
    (runFrom (bitmapStep false limit) s xs).1.Notes (runFrom (bitmapStep false limit) s xs).2 := by
  induction xs generalizing s with
  | nil => exact h
  | cons x xs ih => exact ih (h.step hlimit x)

end FastSlot

/-- After any numbers, the word of a slot says which numbers of the window were counted since the sequence began, and by it the next
number in the window is a duplicate, or late and nothing else. -/
theorem bitmap_exact (F : Floats W) (ring : List W) (epoch : Nat) {limit : Int64} (hlimit : 0 < limit)
    (xs : List (Fin (2 ^ 63 - 1) × FastResult)) (sl : FastSlot W) (ns : List Int)
    (hrun : runFrom (bitmapStep false limit) (.fresh F ring epoch, []) xs = (sl, ns)) :
    (∀ i < 64, sl.seen.testBit i = true ↔ sl.lastSeq - i ∈ ns) ∧
    ∀ (seq : Fin (2 ^ 63 - 1)) (res : FastResult), sl.hasSeq = true → 0 ≤ sl.lastSeq - seq.val → sl.lastSeq - seq.val < 64 →
      (sl.seqCheck limit.toInt seq.val res).1 =
        if (seq.val : Int) ∈ ns then (res.mark .invalid REASON_DUPLICATE).markIf (seq.val < sl.lastSeq) .invalid REASON_OUT_OF_ORDER
        else res.mark .suspicious REASON_OUT_OF_ORDER := by
  have h : sl.Notes ns := by
    have hall := FastSlot.Notes.run (s := (.fresh F ring epoch, [])) hlimit (.fresh F ring epoch) xs
    rwa [hrun] at hall
  refine ⟨h.bits.bits, ?_⟩
  intro seq res hseq hle hwindow
  have hbehind : ¬(seq.val : Int) > sl.lastSeq := by omega
  simp only [FastSlot.seqCheck, hseq, Bool.not_true, Bool.false_eq_true, if_false, hbehind]
  rw [h.inWindow limit.toInt (by omega) (by omega) hwindow res]
  split
  · rfl
  · rfl

theorem mod_maximum_lt (seq : Nat) : seq % (2 ^ 63 - 1) < 2 ^ 63 - 1 := Nat.mod_lt seq (by decide)

/-- Numbers on events without marks. -/
def unmarked (seqs : List Nat) : List (Fin (2 ^ 63 - 1) × FastResult) :=
  seqs.map (fun seq => (⟨seq % (2 ^ 63 - 1), mod_maximum_lt seq⟩, .none))

/-- With a limit of five, sixteen after ten is a candidate, and the word of seventeen is right without it. -/
theorem bitmap_exact_candidate :
    (0 : Int64) < 5 ∧ ∀ (sl : FastSlot (Option ℚ)) (ns : List Int),
      runFrom (bitmapStep false 5) (.fresh exactNumbers [] 0, []) (unmarked [10, 16, 13, 17]) = (sl, ns) →
        ∀ i < 64, sl.seen.testBit i = true ↔ sl.lastSeq - i ∈ ns :=
  ⟨by decide, fun sl ns hrun => (bitmap_exact exactNumbers [] 0 (by decide) _ sl ns hrun).1⟩

/-- A candidate that is not confirmed was processed, and is not in the word when the sequence comes near it: with a limit of five,
sixteen after ten is forgotten by the time of seventeen. -/
theorem bitmap_exact_false :
    ¬∀ (limit : Int64), 0 < limit → ∀ (xs : List (Fin (2 ^ 63 - 1) × FastResult)) (sl : FastSlot (Option ℚ)) (ns : List Int),
      runFrom (bitmapStep true limit) (.fresh exactNumbers [] 0, []) xs = (sl, ns) →
        ∀ i < 64, sl.seen.testBit i = true ↔ sl.lastSeq - i ∈ ns := by
  intro h
  have hbit := h 5 (by decide) (unmarked [10, 16, 13, 17])
    (runFrom (bitmapStep true 5) (.fresh exactNumbers [] 0, []) (unmarked [10, 16, 13, 17])).1
    (runFrom (bitmapStep true 5) (.fresh exactNumbers [] 0, []) (unmarked [10, 16, 13, 17])).2 rfl 1 (by decide)
  clear h
  revert hbit
  decide +kernel

end Mdrap
