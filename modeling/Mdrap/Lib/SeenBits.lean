import Mathlib.Algebra.Group.Nat.Defs
import Mathlib.Data.Set.Insert
import Mathlib.Tactic.Common

/-!
# Numbers seen, in a window of bits

Bit `i` of a word says whether the number `i` places before the last one was seen. The word moves along with the last number; a number
from before the window leaves no trace in it.
-/

namespace Lib

/-- The word after a number that many places ahead. -/
def shiftBits (width seen : Nat) (jump : Int) : Nat :=
  if jump < width then (seen <<< jump.toNat ||| 1) % 2 ^ width else 1

theorem testBit_shiftBits {width i : Nat} (hi : i < width) (seen : Nat) {jump : Int} (hjump : 0 < jump) :
    (shiftBits width seen jump).testBit i = true ↔ i = 0 ∨ jump ≤ i ∧ seen.testBit (i - jump.toNat) = true := by
  have hone : Nat.testBit 1 i = true ↔ i = 0 := by simp [Nat.testBit_one_eq_true_iff_self_eq_zero]
  unfold shiftBits
  split
  · have hle : jump.toNat ≤ i ↔ jump ≤ i := by omega
    rw [Nat.testBit_mod_two_pow, Nat.testBit_or, Nat.testBit_shiftLeft]
    simp only [hi, decide_true, Bool.true_and, Bool.or_eq_true, Bool.and_eq_true, decide_eq_true_eq, ge_iff_le, hle, hone]
    exact or_comm
  · rw [hone]
    constructor
    · exact .inl
    · rintro (hzero | ⟨hle, -⟩)
      · exact hzero
      · omega

/-- The word says which numbers of a set are in the window, and the last number is the greatest of the set. -/
structure SeenBits (width seen : Nat) (last : Int) (s : Set Int) : Prop where
  le_last : ∀ n ∈ s, n ≤ last
  bits : ∀ i < width, seen.testBit i = true ↔ last - i ∈ s

namespace SeenBits

variable {width seen : Nat} {last n : Int} {s : Set Int}

theorem start (n : Int) : SeenBits width 1 n {n} := by
  refine ⟨fun m hm => le_of_eq hm, ?_⟩
  intro i _
  rw [Nat.testBit_one_eq_true_iff_self_eq_zero, Set.mem_singleton_iff]
  omega

/-- The bit of a number in the window. -/
theorem testBit_iff (h : SeenBits width seen last s) (hle : n ≤ last) (hwindow : last - n < width) :
    seen.testBit (last - n).toNat = true ↔ n ∈ s := by
  rw [h.bits _ (by omega), show last - ((last - n).toNat : Int) = n by omega]

/-- A number ahead of the last one. -/
theorem ahead (h : SeenBits width seen last s) (hlt : last < n) : SeenBits width (shiftBits width seen (n - last)) n (insert n s) := by
  constructor
  · rintro m (rfl | hm)
    · exact le_rfl
    · exact (h.le_last m hm).trans hlt.le
  · intro i hi
    rw [testBit_shiftBits hi seen (by omega), Set.mem_insert_iff]
    constructor
    · rintro (rfl | ⟨hle, hbit⟩)
      · exact .inl (by omega)
      · refine .inr ?_
        rw [h.bits _ (by omega)] at hbit
        rwa [show last - ((i - (n - last).toNat : Nat) : Int) = n - i by omega] at hbit
    · rintro (hzero | hmem)
      · exact .inl (by omega)
      · have hle := h.le_last _ hmem
        refine .inr ⟨by omega, ?_⟩
        rw [h.bits _ (by omega)]
        rwa [show last - ((i - (n - last).toNat : Nat) : Int) = n - i by omega]

/-- A number in the window, behind the last one. -/
theorem late (h : SeenBits width seen last s) (hle : n ≤ last) :
    SeenBits width (seen ||| 1 <<< (last - n).toNat) last (insert n s) := by
  constructor
  · rintro m (rfl | hm)
    · exact hle
    · exact h.le_last m hm
  · intro i hi
    rw [Nat.testBit_or, Bool.or_eq_true, h.bits i hi, Nat.one_shiftLeft, Nat.testBit_two_pow, decide_eq_true_eq, Set.mem_insert_iff,
      or_comm]
    exact or_congr (by omega) Iff.rfl

/-- A number from before the window. -/
theorem before (h : SeenBits width seen last s) (hle : n ≤ last) (hbefore : width ≤ last - n) :
    SeenBits width seen last (insert n s) := by
  constructor
  · rintro m (rfl | hm)
    · exact hle
    · exact h.le_last m hm
  · intro i hi
    rw [h.bits i hi, Set.mem_insert_iff]
    constructor
    · exact .inr
    · rintro (heq | hmem)
      · omega
      · exact hmem

end SeenBits

/-- A number is not ahead of the last one, and where it is in the window, its bit is set. -/
structure NotedBit (width seen : Nat) (last n : Int) : Prop where
  le_last : n ≤ last
  bit : last - n < width → seen.testBit (last - n).toNat = true

namespace NotedBit

variable {width seen : Nat} {last n m : Int}

theorem start (n : Int) : NotedBit width 1 n n := by
  refine ⟨le_rfl, ?_⟩
  intro _
  rw [Int.sub_self]
  rfl

/-- The number that comes ahead is noted. -/
theorem self_ahead (hwidth : 0 < width) (seen : Nat) (hlt : last < n) : NotedBit width (shiftBits width seen (n - last)) n n := by
  refine ⟨le_rfl, ?_⟩
  intro _
  rw [Int.sub_self]
  exact (testBit_shiftBits hwidth seen (by omega)).mpr (.inl rfl)

/-- A number that comes ahead of the last one leaves the others noted. -/
theorem ahead (h : NotedBit width seen last n) (hlt : last < m) : NotedBit width (shiftBits width seen (m - last)) m n := by
  have hle := h.le_last
  refine ⟨by omega, ?_⟩
  intro hwindow
  rw [testBit_shiftBits (by omega) seen (by omega)]
  refine .inr ⟨by omega, ?_⟩
  rw [show (m - n).toNat - (m - last).toNat = (last - n).toNat by omega]
  exact h.bit (by omega)

/-- Bits that are set in addition leave the numbers noted. -/
theorem or (h : NotedBit width seen last n) (more : Nat) : NotedBit width (seen ||| more) last n := by
  refine ⟨h.le_last, ?_⟩
  intro hwindow
  rw [Nat.testBit_or, h.bit hwindow, Bool.true_or]

/-- A number in the window, behind the last one, is noted by its bit. -/
theorem self_late (seen : Nat) (hle : n ≤ last) : NotedBit width (seen ||| 1 <<< (last - n).toNat) last n := by
  refine ⟨hle, ?_⟩
  intro _
  rw [Nat.testBit_or, Nat.one_shiftLeft, Nat.testBit_two_pow_self, Bool.or_true]

end NotedBit

end Lib
