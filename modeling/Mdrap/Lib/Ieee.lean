import Mdrap.Lib.Bytes
import Mdrap.Lib.Json

/-!
# Binary floating-point numbers in their bits

Little-endian integers, and the formats of 64 and of 32 bits: a sign, an exponent and a fraction. A number of 64 bits becomes one of
32 by rounding, to the even of two neighbours that are equally close.
-/

namespace Lib

/-- The `w` low bytes of `n`, the least significant first. -/
def le (w n : Nat) : Bytes := (be w n).reverse

/-- The number a byte string denotes, read with the least significant byte first. -/
def leNat (b : Bytes) : Nat := beNat b.reverse

@[simp] theorem length_le (w n : Nat) : (le w n).length = w := by simp [le]

/-- A number that fits the width is read back unchanged. -/
theorem leNat_le_of_lt {w n : Nat} (h : n < 256 ^ w) : leNat (le w n) = n := by
  rw [leNat, le, List.reverse_reverse, beNat_be_of_lt h]

/-- Packing the number that a byte string denotes gives the byte string. -/
theorem le_leNat (b : Bytes) : le b.length (leNat b) = b := by
  have h := be_beNat b.reverse
  rw [List.length_reverse] at h
  rw [le, leNat, h, List.reverse_reverse]

theorem leNat_lt (b : Bytes) : leNat b < 256 ^ b.length := by
  have h := beNat_lt b.reverse
  rwa [List.length_reverse] at h

/-- The parts of a number of 64 bits: sign, exponent and fraction. -/
def doubleParts (bits : UInt64) : Nat × Nat × Nat := (bits.toNat / 2 ^ 63, bits.toNat / 2 ^ 52 % 2048, bits.toNat % 2 ^ 52)

/-- Whether a number is zero, of either sign. -/
def isZero (bits : UInt64) : Bool := bits.toNat % 2 ^ 63 = 0

/-- `math.isfinite`. -/
def isFinite (bits : UInt64) : Bool := (doubleParts bits).2.1 ≠ 2047

/-- Greater than zero. -/
def isPositive (bits : UInt64) : Bool := (doubleParts bits).1 = 0 ∧ ¬isZero bits

/-- Not a number. -/
def isNan (bits : UInt64) : Bool := (doubleParts bits).2.1 = 2047 ∧ (doubleParts bits).2.2 ≠ 0

/-- The place of a number in the order of all: its bits without the sign, below zero where there is one. -/
def orderKey (bits : UInt64) : Int :=
  if (doubleParts bits).1 = 1 then -(bits.toNat % 2 ^ 63 : Nat) else (bits.toNat % 2 ^ 63 : Nat)

/-- The comparison of two numbers, which is false where one is none. -/
def ltDouble (a b : UInt64) : Bool := !isNan a && !isNan b && orderKey a < orderKey b

/-- A quotient, rounded to the nearest integer, and to the even one of two. -/
def roundHalfEven (n d : Nat) : Nat :=
  let q := n / d
  let r := n % d
  if d < 2 * r ∨ (2 * r = d ∧ q % 2 = 1) then q + 1 else q

/-- A number of 64 bits as one of 32; none where it is too large. -/
def toSingle (bits : UInt64) : Option UInt32 :=
  let (s, e, f) := doubleParts bits
  let signed (n : Nat) : UInt32 := UInt32.ofNat (s * 2 ^ 31 + n)
  if e = 2047 then some (signed (0x7F800000 + (if f = 0 then 0 else 2 ^ 22 + f / 2 ^ 29 % 2 ^ 22)))
  else if e = 0 then some (signed 0)
  else
    let m := 2 ^ 52 + f
    let n := if 897 ≤ e then (e - 897) * 2 ^ 23 + roundHalfEven m (2 ^ 29) else roundHalfEven m (2 ^ (29 + (897 - e)))
    if 0x7F800000 ≤ n then none else some (signed n)

/-- A number of 32 bits as one of 64. -/
def ofSingle (bits : UInt32) : UInt64 :=
  let s := bits.toNat / 2 ^ 31
  let e := bits.toNat / 2 ^ 23 % 256
  let f := bits.toNat % 2 ^ 23
  let signed (n : Nat) : UInt64 := UInt64.ofNat (s * 2 ^ 63 + n)
  if e = 255 then signed (2047 * 2 ^ 52 + f * 2 ^ 29)
  else if e = 0 then
    if f = 0 then signed 0
    else signed ((Nat.log2 f + 874) * 2 ^ 52 + (f - 2 ^ Nat.log2 f) * 2 ^ (52 - Nat.log2 f))
  else signed ((e + 896) * 2 ^ 52 + f * 2 ^ 29)

/-- One tenth is not a number of 32 bits. -/
example : (toSingle 0x3FB999999999999A).map ofSingle = some 0x3FB99999A0000000 := by decide +kernel

end Lib

/-!
## The decimal of a binary floating-point number

The 64 bits of a floating-point number, and the decimal it is printed with: the shortest one that is read back as the same
number, and the closest to it among the shortest.
-/

namespace Lib

/-- A multiple of a power of ten in an interval. Everything is in units of a quarter of the last binary place: `lo` and `hi`
bound the numbers read back as `v`, with the bounds themselves if `incl`, and `d` times the power of ten is `d * a / b`. -/
def nearDecimal (lo v hi : Nat) (incl : Bool) (a b : Nat) : Option Nat :=
  let d := v * b / a
  let inside (d : Nat) : Bool :=
    d ≠ 0 ∧ (lo * b < d * a ∨ (incl ∧ lo * b = d * a)) ∧ (d * a < hi * b ∨ (incl ∧ d * a = hi * b))
  let below := v * b - d * a
  let above := (d + 1) * a - v * b
  if inside d ∧ (¬inside (d + 1) ∨ below < above ∨ (below = above ∧ d % 2 = 0)) then some d
  else if inside (d + 1) then some (d + 1)
  else none

/-- The first power of ten, from `10 ^ p` down, with a multiple in the interval. -/
def shortestDecimal (lo v hi : Nat) (incl : Bool) (e : Int) : Nat → Int → Nat × Int
  | 0, _ => (0, 0)
  | n + 1, p =>
    let a := 10 ^ p.toNat * 2 ^ (-e).toNat
    let b := 2 ^ e.toNat * 10 ^ (-p).toNat
    match nearDecimal lo v hi incl a b with
    | some d => (d, p)
    | none => shortestDecimal lo v hi incl e n (p - 1)

/-- The number whose sign, exponent and fraction are the given bits. -/
def Float64.ofBits (bits : UInt64) : Float64 :=
  let neg := bits.toNat / 2 ^ 63 = 1
  let biased := bits.toNat / 2 ^ 52 % 2048
  let frac := bits.toNat % 2 ^ 52
  if biased = 2047 then (if frac = 0 then .inf neg else .nan)
  else
    let m := if biased = 0 then frac else 2 ^ 52 + frac
    let e : Int := ((if biased = 0 then 1 else biased : Nat) : Int) - 1075
    if m = 0 then .dec (Decimal.ofParts neg 0 0)
    else
      -- below a power of two the next number is only half a place away
      let lo := 4 * m - (if frac = 0 ∧ 1 < biased then 1 else 2)
      let (d, p) := shortestDecimal lo (4 * m) (4 * m + 2) (m % 2 = 0) (e - 2) 660 309
      .dec (Decimal.ofParts neg d p)

/-- One tenth, as it is stored. -/
example : (Float64.ofBits 0x3FB999999999999A).repr = ['0', '.', '1'] := by decide +kernel

end Lib
