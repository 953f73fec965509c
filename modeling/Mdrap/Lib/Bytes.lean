import Mathlib.Tactic.Common
import Mathlib.Algebra.Order.Ring.Int
import Mathlib.Algebra.BigOperators.Group.List.Basic
import Mathlib.Data.List.Induction

/-!
# Byte strings

Big-endian integers of a fixed width, a run of zero bytes, and the operations a file offers on its bytes: a cut, and a
truncation to a given size (which cuts a longer file and fills a shorter one with zeros).
-/

namespace Lib

/-- A byte string. -/
abbrev Bytes : Type := List UInt8

/-- The `w` low bytes of `n`, the most significant first. -/
def be : Nat → Nat → Bytes
  | 0, _ => []
  | w + 1, n => be w (n / 256) ++ [UInt8.ofNat (n % 256)]

/-- The number a byte string denotes, read with the most significant byte first. -/
def beNat (b : Bytes) : Nat := b.foldl (fun acc x => acc * 256 + x.toNat) 0

/-- A run of `n` zero bytes. -/
def zeros (n : Nat) : Bytes := List.replicate n 0

/-- A file of bytes `b` truncated to `n` bytes: cut when it is longer, filled with zeros when it is shorter. -/
def resize (n : Nat) (b : Bytes) : Bytes := b.take n ++ zeros (n - b.length)

/-! ## Big-endian integers -/

@[simp] theorem length_be (w n : Nat) : (be w n).length = w := by
  induction w generalizing n with
  | zero => rfl
  | succ w ih => simp [be, ih]

@[simp] theorem take_be_of_le {w n : Nat} (x : Nat) (h : w ≤ n) : (be w x).take n = be w x :=
  List.take_of_length_le (by simpa using h)

@[simp] theorem drop_be_of_le {w n : Nat} (x : Nat) (h : w ≤ n) : (be w x).drop n = [] :=
  List.drop_of_length_le (by simpa using h)

/-- Reading one more byte: the number read so far moves up by a byte. -/
theorem beNat_snoc (b : Bytes) (x : UInt8) : beNat (b ++ [x]) = beNat b * 256 + x.toNat := by
  simp [beNat]

/-- Reading back a packed number gives the number, up to the width. -/
theorem beNat_be (w n : Nat) : beNat (be w n) = n % 256 ^ w := by
  induction w generalizing n with
  | zero => simp [be, beNat, Nat.mod_one]
  | succ w ih =>
    have hlow : (UInt8.ofNat (n % 256)).toNat = n % 256 := by
      rw [UInt8.toNat_ofNat']
      exact Nat.mod_mod n 256
    have hsplit : n % 256 ^ (w + 1) = n % 256 + 256 * (n / 256 % 256 ^ w) := by
      rw [Nat.pow_succ', Nat.mod_mul]
    rw [be, beNat_snoc, ih, hlow, hsplit]
    omega

/-- A number that fits the width is read back unchanged. -/
theorem beNat_be_of_lt {w n : Nat} (h : n < 256 ^ w) : beNat (be w n) = n := by
  rw [beNat_be, Nat.mod_eq_of_lt h]

/-- Packing the number that a byte string denotes gives the byte string. -/
theorem be_beNat (b : Bytes) : be b.length (beNat b) = b := by
  induction b using List.reverseRecOn with
  | nil => rfl
  | append_singleton b x ih =>
    have hx : x.toNat < 256 := x.toNat_lt
    have hhigh : (beNat b * 256 + x.toNat) / 256 = beNat b := by omega
    have hlow : (beNat b * 256 + x.toNat) % 256 = x.toNat := by omega
    rw [List.length_append, List.length_singleton, be, beNat_snoc, hhigh, hlow, ih, UInt8.ofNat_toNat]

/-- The number read from a byte string is below the power of its length. -/
theorem beNat_lt (b : Bytes) : beNat b < 256 ^ b.length := by
  induction b using List.reverseRecOn with
  | nil => simp [beNat]
  | append_singleton b x ih =>
    have hx : x.toNat < 256 := x.toNat_lt
    rw [beNat_snoc, List.length_append, List.length_singleton, Nat.pow_succ]
    have : (beNat b + 1) * 256 ≤ 256 ^ b.length * 256 := Nat.mul_le_mul_right _ ih
    omega

/-! ## Zero bytes -/

@[simp] theorem length_zeros (n : Nat) : (zeros n).length = n := by simp [zeros]

theorem zeros_add (m n : Nat) : zeros (m + n) = zeros m ++ zeros n := by simp [zeros]

theorem mem_zeros {n : Nat} {x : UInt8} (h : x ∈ zeros n) : x = 0 := by
  simp only [zeros, List.mem_replicate] at h
  exact h.2

theorem take_zeros (k n : Nat) : (zeros n).take k = zeros (min k n) := by simp [zeros]

theorem drop_zeros (k n : Nat) : (zeros n).drop k = zeros (n - k) := by simp [zeros]

/-- A byte string all of whose bytes are zero is a run of zeros. -/
theorem eq_zeros_of_forall {b : Bytes} (h : ∀ x ∈ b, x = 0) : b = zeros b.length :=
  List.eq_replicate_of_mem h

theorem beNat_zeros (n : Nat) : beNat (zeros n) = 0 := by
  induction n with
  | zero => rfl
  | succ n ih =>
    rw [zeros_add, show zeros 1 = [0] from rfl, beNat_snoc, ih]
    rfl

/-! ## Truncation -/

@[simp] theorem length_resize (n : Nat) (b : Bytes) : (resize n b).length = n := by
  simp [resize]
  omega

/-- A file at least as long as the size is cut. -/
theorem resize_of_le {n : Nat} {b : Bytes} (h : n ≤ b.length) : resize n b = b.take n := by
  simp [resize, Nat.sub_eq_zero_of_le h, zeros]

/-- Zeros in place of the low bytes make a number no greater. -/
theorem beNat_resize_take_le (k : Nat) (b : Bytes) : beNat (resize b.length (b.take k)) ≤ beNat b := by
  induction b using List.reverseRecOn with
  | nil => simp [resize, zeros]
  | append_singleton b x ih =>
    by_cases hk : k ≤ b.length
    · have hlast : resize (b ++ [x]).length ((b ++ [x]).take k) = resize b.length (b.take k) ++ [0] := by
        have hsub : (b ++ [x]).length - (b.take k).length = (b.length - (b.take k).length) + 1 := by
          rw [List.length_append, List.length_take]
          simp only [List.length_singleton]
          omega
        have hfit : (b.take k).length ≤ b.length := List.length_take_le' k b
        rw [resize, resize, List.take_append_of_le_length hk, hsub, zeros_add, List.append_assoc,
          List.take_of_length_le hfit, List.take_of_length_le (by rw [List.length_append]; omega)]
        rfl
      rw [hlast, beNat_snoc, beNat_snoc]
      have : (0 : UInt8).toNat = 0 := rfl
      omega
    · have htake : (b ++ [x]).take k = b ++ [x] := List.take_of_length_le (by simp; omega)
      have hall : resize (b ++ [x]).length (b ++ [x]) = b ++ [x] := by
        rw [resize_of_le (Nat.le_refl _), List.take_of_length_le (Nat.le_refl _)]
      exact Nat.le_of_eq (by rw [htake, hall])

/-- A slice of the beginning of a byte string with zeros behind it is a slice of the byte string with zeros at its end. -/
theorem slice_take_zeros {b : Bytes} {r z a n : Nat} (hr : a + n ≤ r + z) (hb : a + n ≤ b.length) (hrb : r ≤ b.length) :
    ((b.take r ++ zeros z).drop a).take n = resize n (((b.drop a).take n).take (r - a)) := by
  have hlen : (b.take r).length = r := by rw [List.length_take, Nat.min_eq_left hrb]
  rw [List.drop_append, hlen, drop_zeros, List.drop_take, List.take_append, List.take_take, take_zeros, resize,
    List.take_take, List.take_take]
  simp only [List.length_take, List.length_drop]
  congr 2
  · omega
  · omega

/-! ## Bytes in their place -/

/-- The bytes `x` stand in a file so that they end at a position. -/
def EndsAt (x : Bytes) (n : Nat) (b : Bytes) : Prop := x <:+ b.take n ∧ n ≤ b.length

instance (x : Bytes) (n : Nat) (b : Bytes) : Decidable (EndsAt x n b) := inferInstanceAs (Decidable (_ ∧ _))

namespace EndsAt

variable {x b : Bytes} {n : Nat}

/-- What stands in a file stays when more is written behind it. -/
theorem append (h : EndsAt x n b) (y : Bytes) : EndsAt x n (b ++ y) := by
  refine ⟨?_, by rw [List.length_append]; exact Nat.le_add_right_of_le h.2⟩
  rw [List.take_append_of_le_length h.2]
  exact h.1

/-- What stands in the beginning of a file stands in the file. -/
theorem of_take {m : Nat} (h : EndsAt x n (b.take m)) : EndsAt x n b := by
  have happ := h.append (b.drop m)
  rwa [List.take_append_drop] at happ

/-- What ends before a cut stays. -/
theorem take {m : Nat} (h : EndsAt x n b) (hn : n ≤ m) : EndsAt x n (b.take m) := by
  refine ⟨?_, by rw [List.length_take]; exact Nat.le_min.mpr ⟨hn, h.2⟩⟩
  rw [List.take_take, Nat.min_eq_left hn]
  exact h.1

theorem resize {m : Nat} (h : EndsAt x n b) (hn : n ≤ m) : EndsAt x n (Lib.resize m b) := (h.take hn).append _

/-- Bytes written last stand at the end. -/
theorem self (b x : Bytes) : EndsAt x (b.length + x.length) (b ++ x) := by
  refine ⟨?_, by rw [List.length_append]⟩
  rw [List.take_of_length_le (by rw [List.length_append])]
  exact List.suffix_append b x

end EndsAt

end Lib
