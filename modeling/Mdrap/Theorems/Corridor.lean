import Mathlib.Tactic.Linarith
import Mathlib.Tactic.NormNum
import Mathlib.Tactic.Positivity
import Mathlib.Tactic.Ring
import Mdrap.Native.Engine

/-!
# The corridor of prices in 128 bits

The check in C gives the verdict of exact integers wherever the two sides of its comparison stay below `2 ^ 127`. The docstrings
promise it everywhere.
-/

namespace Mdrap

open Lib

namespace CorridorQuery

/-- No side of the comparison leaves 128 bits, where it is made at all. -/
def Fits (q : CorridorQuery) : Prop :=
  0 ≤ q.minSamples.toInt ∧ (q.minSamples.toInt ≤ q.countN →
    (q.countN * q.candidateScaled.toInt - q.sumX.toInt) ^ 2 * q.sigmaFloorDen.toInt ^ 2 < 2 ^ 127 ∧
    q.kStddev.toInt ^ 2 * ((q.countN * q.sumX2 - q.sumX.toInt ^ 2) * q.sigmaFloorDen.toInt ^ 2) < 2 ^ 127 ∧
    q.kStddev.toInt ^ 2 * (q.sumX.toInt ^ 2 * q.sigmaFloorNum.toInt ^ 2) < 2 ^ 127)

instance (q : CorridorQuery) : Decidable q.Fits := inferInstanceAs (Decidable (_ ∧ (_ → _)))

/-- The sum of squares is put together from its two words. -/
theorem sumX2_words (q : CorridorQuery) :
    int128 ((UInt64.ofNat (q.sumX2 >>> 64)).toNat <<< 64 ||| (UInt64.ofNat (q.sumX2 % 2 ^ 64)).toNat : Nat) = q.sumX2 := by
  have hlt := q.sumX2_lt
  have hshift : q.sumX2 >>> 64 < 2 ^ 64 := by
    rw [Nat.shiftRight_eq_div_pow]
    omega
  have hwords : (q.sumX2 >>> 64) <<< 64 ||| q.sumX2 % 2 ^ 64 = q.sumX2 := by
    rw [← Nat.shiftLeft_add_eq_or_of_lt (Nat.mod_lt _ (by decide)), Nat.shiftRight_eq_div_pow, Nat.shiftLeft_eq]
    omega
  have hlow : (UInt64.ofNat (q.sumX2 % 2 ^ 64)).toNat = q.sumX2 % 2 ^ 64 := UInt64.toNat_ofNat_of_lt' (Nat.mod_lt _ (by decide))
  rw [UInt64.toNat_ofNat_of_lt' hshift, hlow, hwords]
  exact int128_eq (by omega) (by omega)

/-- A product of wrapped integers is the product, wrapped. -/
theorem int128_mul (a b : Int) : int128 (int128 a * b) = int128 (a * b) := Int.bmod_mul_bmod

theorem int128_mul' (a b : Int) : int128 (a * int128 b) = int128 (a * b) := by
  rw [mul_comm, int128_mul, mul_comm]

theorem int128_sub (a b : Int) : int128 (int128 a - b) = int128 (a - b) := Int.bmod_sub_bmod

theorem int128_sub' (a b : Int) : int128 (a - int128 b) = int128 (a - b) := Int.sub_bmod_bmod

/-- What is not negative and below the limit is not wrapped. -/
theorem int128_of_nonneg {a : Int} (h : 0 ≤ a) (hlt : a < 2 ^ 127) : int128 a = a := int128_eq (by omega) hlt

variable {n x s1 s2 d f k : Int}

/-- The square of the deviation, times that of the denominator. -/
theorem int128_deviation (h : (n * x - s1) ^ 2 * d ^ 2 < 2 ^ 127) :
    int128 (int128 (int128 (int128 (int128 (n * x) - s1) * int128 (int128 (n * x) - s1)) * d) * d) =
      (n * x - s1) * (n * x - s1) * d * d := by
  simp only [int128_sub, int128_mul, int128_mul']
  have heq : (n * x - s1) * (n * x - s1) * d * d = (n * x - s1) ^ 2 * d ^ 2 := by ring
  rw [heq]
  exact int128_of_nonneg (by positivity) h

/-- The variance, times the square of the number of prices. -/
theorem int128_variance (hn : 0 ≤ n) (hs2 : 0 ≤ s2) (hs1 : s1 ^ 2 ≤ 2 ^ 126) (hd : 0 < d) (hk : 0 < k)
    (h : k ^ 2 * ((n * s2 - s1 ^ 2) * d ^ 2) < 2 ^ 127) :
    int128 (int128 (n * s2) - int128 (s1 * s1)) = n * s2 - s1 * s1 := by
  rw [int128_sub, int128_sub']
  have hpos : 0 ≤ n * s2 := mul_nonneg hn hs2
  rw [← sq]
  refine int128_eq (by omega) ?_
  by_contra hge
  have hone : 1 ≤ k ^ 2 * d ^ 2 := by
    have := mul_pos (pow_pos hk 2) (pow_pos hd 2)
    omega
  have hle : (n * s2 - s1 ^ 2) * 1 ≤ (n * s2 - s1 ^ 2) * (k ^ 2 * d ^ 2) := mul_le_mul_of_nonneg_left hone (by omega)
  have heq : (n * s2 - s1 ^ 2) * (k ^ 2 * d ^ 2) = k ^ 2 * ((n * s2 - s1 ^ 2) * d ^ 2) := by ring
  omega

/-- A term of the limit, which is not above the limit itself. -/
theorem int128_term {v : Int} (hv : 0 ≤ v) (hk : 0 < k) (h : k ^ 2 * (v * d ^ 2) < 2 ^ 127) :
    int128 (v * d * d) = v * d * d ∧ 0 ≤ v * d * d ∧ k * k * (v * d * d) < 2 ^ 127 := by
  have hnonneg : 0 ≤ v * d ^ 2 := by positivity
  have hone : 1 ≤ k ^ 2 := by
    have := pow_pos hk 2
    omega
  have hle : 1 * (v * d ^ 2) ≤ k ^ 2 * (v * d ^ 2) := mul_le_mul_of_nonneg_right hone hnonneg
  have heq : v * d * d = v * d ^ 2 := by ring
  have heq' : k * k * (v * d * d) = k ^ 2 * (v * d ^ 2) := by ring
  rw [heq', heq]
  exact ⟨int128_of_nonneg hnonneg (by omega), hnonneg, h⟩

/-- The greater of two terms, times the square of the number of deviations. -/
theorem int128_limit {a b : Int} (ha : 0 ≤ a) (hb : 0 ≤ b) (hka : k * k * a < 2 ^ 127) (hkb : k * k * b < 2 ^ 127) :
    int128 (k * k * (if a > b then a else b)) = k * k * (if a > b then a else b) := by
  have hk : 0 ≤ k * k := mul_self_nonneg k
  split
  · exact int128_of_nonneg (mul_nonneg hk ha) hka
  · exact int128_of_nonneg (mul_nonneg hk hb) hkb

end CorridorQuery

open CorridorQuery in
/-- Where no side of the comparison leaves 128 bits, C and Python give the same verdict. -/
theorem corridor_exact (q : CorridorQuery) (h : q.Fits) : q.native = if q.reference then 1 else 0 := by
  obtain ⟨hmin, hfits⟩ := h
  have hk : 0 < q.kStddev.toInt := Int32.lt_iff_toInt_lt.mp q.kStddev_pos
  have hden : 0 < q.sigmaFloorDen.toInt := Int64.lt_iff_toInt_lt.mp q.sigmaFloorDen_pos
  have hcount : (UInt64.ofNat q.countN).toNat = q.countN := UInt64.toNat_ofNat_of_lt' (q.countN_lt.trans (by decide))
  have hsamples : uint 64 q.minSamples.toInt = q.minSamples.toInt.toNat := by
    have hlt := q.minSamples.toInt_lt
    obtain ⟨m, hm⟩ := Int.eq_ofNat_of_zero_le hmin
    rw [hm, Int.toNat_natCast]
    exact uint_eq (by omega)
  unfold native reference fastpathExactIntCorridorCheck exactIntCorridorCheck
  rw [hcount, hsamples, q.sumX2_words]
  by_cases hfew : (q.countN : Int) < q.minSamples.toInt
  · have hfew' : q.countN < q.minSamples.toInt.toNat := by omega
    simp only [hfew, hfew', true_or, if_true, Bool.false_eq_true, if_false]
  · obtain ⟨hdev, hvar, hfloor⟩ := hfits (Int.not_lt.mp hfew)
    have hs1 : q.sumX.toInt ^ 2 ≤ 2 ^ 126 := by
      have hge := q.sumX.le_toInt
      have hlt := q.sumX.toInt_lt
      have hle : |q.sumX.toInt| ≤ 2 ^ 63 := abs_le.mpr ⟨by omega, by omega⟩
      calc q.sumX.toInt ^ 2 = |q.sumX.toInt| ^ 2 := (sq_abs _).symm
        _ ≤ (2 ^ 63) ^ 2 := pow_le_pow_left₀ (abs_nonneg _) hle 2
        _ = 2 ^ 126 := by norm_num
    have hcond : ¬(q.countN < q.minSamples.toInt.toNat ∨ q.sigmaFloorDen.toInt ≤ 0 ∨ q.kStddev.toInt ≤ 0) := by omega
    have hcond' : ¬((q.countN : Int) < q.minSamples.toInt ∨ q.sigmaFloorDen.toInt ≤ 0 ∨ q.kStddev.toInt ≤ 0) := by omega
    rw [if_neg hcond, if_neg hcond']
    dsimp only
    rw [int128_deviation hdev, int128_variance (by omega) (by omega) hs1 hden hk hvar]
    simp only [int128_mul]
    obtain ⟨hf, hfpos, hflt⟩ := int128_term (v := q.sumX.toInt * q.sumX.toInt) (mul_self_nonneg _) hk (by rw [← sq]; exact hfloor)
    rw [hf]
    have hvar' (v : Int) (hv : v = if (q.countN : Int) * q.sumX2 - q.sumX.toInt * q.sumX.toInt < 0 then 0
        else (q.countN : Int) * q.sumX2 - q.sumX.toInt * q.sumX.toInt) :
        0 ≤ v ∧ q.kStddev.toInt ^ 2 * (v * q.sigmaFloorDen.toInt ^ 2) < 2 ^ 127 := by
      subst hv
      split
      · simp
      · rename_i hpos
        rw [← sq] at hpos ⊢
        exact ⟨by omega, hvar⟩
    obtain ⟨hd, hdpos, hdlt⟩ := int128_term (hvar' _ rfl).1 hk (hvar' _ rfl).2
    rw [hd, int128_limit hdpos hfpos hdlt hflt]
    simp only [decide_eq_true_eq]

/-- Twenty prices that are all alike, and a candidate, with the limits that are the defaults. -/
def steadyQuery (price : Fin (2 ^ 50)) (candidate : Int64) : CorridorQuery where
  candidateScaled := candidate
  sumX := .ofNat (20 * price)
  countN := 20
  sumX2 := 20 * price ^ 2
  minSamples := 20
  kStddev := 4
  sigmaFloorNum := 1
  sigmaFloorDen := 5000
  countN_pos := by decide
  countN_lt := by decide
  sumX2_lt := by
    have hle : (price : Nat) ^ 2 ≤ (2 ^ 50) ^ 2 := Nat.pow_le_pow_left price.isLt.le 2
    omega
  kStddev_pos := by decide
  sigmaFloorDen_pos := by decide

theorem corridor_exact_near :
    (steadyQuery 1000000 1000800).Fits ∧
      (steadyQuery 1000000 1000800).native = if (steadyQuery 1000000 1000800).reference then 1 else 0 := by
  have hfits : (steadyQuery 1000000 1000800).Fits := by decide
  exact ⟨hfits, corridor_exact _ hfits⟩

/-- A price twice as high as the twenty before it, which C takes for normal: its deviation does not fit in 128 bits. -/
theorem corridor_exact_false : ¬∀ q : CorridorQuery, q.native = if q.reference then 1 else 0 := by
  intro h
  have hdouble := h (steadyQuery 600000000000000 1200000000000000)
  revert hdouble
  decide

end Mdrap
