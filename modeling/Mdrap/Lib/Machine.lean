import Mathlib.Algebra.BigOperators.Group.List.Basic
import Mathlib.Algebra.Order.Field.Basic
import Mathlib.Tactic.Common

/-!
# Machine numbers

Integers of a fixed width, as C computes with them, and what programs do with floating-point numbers, without saying what these
numbers are. `Floats.exact` reads them as the elements of an ordered field.
-/

namespace Lib

/-! ## Integers -/

/-- The 64-bit signed integer that agrees with `n` modulo `2 ^ 64`. -/
def int64 (n : Int) : Int := n.bmod (2 ^ 64)

/-- The 128-bit signed integer that agrees with `n` modulo `2 ^ 128`. -/
def int128 (n : Int) : Int := n.bmod (2 ^ 128)

/-- The unsigned integer of so many bits that agrees with `n`. -/
def uint (bits : Nat) (n : Int) : Nat := (n % 2 ^ bits).toNat

theorem int64_eq {n : Int} (h : -2 ^ 63 ≤ n) (h' : n < 2 ^ 63) : int64 n = n := by
  rw [int64, Int.bmod_def]
  norm_num at *
  omega

theorem int128_eq {n : Int} (h : -2 ^ 127 ≤ n) (h' : n < 2 ^ 127) : int128 n = n := by
  rw [int128, Int.bmod_def]
  norm_num at *
  omega

theorem uint_eq {bits n : Nat} (h : n < 2 ^ bits) : uint bits n = n := by
  rw [uint, Int.emod_eq_of_lt (Int.natCast_nonneg n) (by exact_mod_cast h), Int.toNat_natCast]

/-! ## Floating-point numbers -/

/-- The operations of floating-point numbers. Only a power may raise, where it overflows; a number given in decimal is its digits
and its exponent. -/
structure Floats (V : Type) where
  dec : Int → Int → V
  nan : V
  add : V → V → V
  sub : V → V → V
  mul : V → V → V
  div : V → V → V
  abs : V → V
  sqrt : V → V
  square : V → Option V
  lt : V → V → Bool
  le : V → V → Bool
  eq : V → V → Bool
  isFinite : V → Bool
  bits : V → UInt64

namespace Floats

variable {V : Type} (F : Floats V)

/-- An integer. -/
def int (n : Int) : V := F.dec n 0

/-- The larger of two: the first one unless the second one is greater. -/
def max (a b : V) : V := if F.lt a b then b else a

/-- The sum of a list, from the left. -/
def sum (vs : List V) : V := vs.foldl F.add (F.int 0)

end Floats

/-- Exact numbers, and one more value for all that is not finite. -/
def Floats.exact {K : Type} [Field K] [LinearOrder K] (sqrt : K → K) (bits : Option K → UInt64) : Floats (Option K) where
  dec m e := some (m * 10 ^ e)
  nan := none
  add := Option.map₂ (· + ·)
  sub := Option.map₂ (· - ·)
  mul := Option.map₂ (· * ·)
  div := Option.map₂ (· / ·)
  abs := Option.map (fun a => if a < 0 then -a else a)
  sqrt := Option.map sqrt
  square := fun a => some (Option.map₂ (· * ·) a a)
  lt := fun a b => (Option.map₂ (fun a b => decide (a < b)) a b).getD false
  le := fun a b => (Option.map₂ (fun a b => decide (a ≤ b)) a b).getD false
  eq := fun a b => (Option.map₂ (fun a b => decide (a = b)) a b).getD false
  isFinite := Option.isSome
  bits := bits

/-! ## Exact numbers -/

namespace Floats

variable {K : Type} [Field K] [LinearOrder K] {sqrt : K → K} {bits : Option K → UInt64}

theorem exact_int (n : Int) : (Floats.exact sqrt bits).int n = some (n : K) := by
  simp [Floats.int, Floats.exact]

theorem exact_add (a b : K) : (Floats.exact sqrt bits).add (some a) (some b) = some (a + b) := rfl

theorem exact_sub (a b : K) : (Floats.exact sqrt bits).sub (some a) (some b) = some (a - b) := rfl

theorem exact_mul (a b : K) : (Floats.exact sqrt bits).mul (some a) (some b) = some (a * b) := rfl

theorem exact_div (a b : K) : (Floats.exact sqrt bits).div (some a) (some b) = some (a / b) := rfl

theorem exact_lt (a b : K) : (Floats.exact sqrt bits).lt (some a) (some b) = decide (a < b) := rfl

theorem exact_le (a b : K) : (Floats.exact sqrt bits).le (some a) (some b) = decide (a ≤ b) := rfl

theorem exact_square (a : K) : (Floats.exact sqrt bits).square (some a) = some (some (a * a)) := rfl

theorem exact_foldl_add (ys : List K) (a : K) : (ys.map some).foldl (Floats.exact sqrt bits).add (some a) = some (a + ys.sum) := by
  induction ys generalizing a with
  | nil => simp
  | cons y ys ih => rw [List.map_cons, List.foldl_cons, exact_add, ih, List.sum_cons, add_assoc]

theorem exact_sum (ys : List K) : (Floats.exact sqrt bits).sum (ys.map some) = some ys.sum := by
  rw [Floats.sum, exact_int, exact_foldl_add]
  simp

end Floats

end Lib
