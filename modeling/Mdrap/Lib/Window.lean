import Mathlib.Algebra.BigOperators.Group.List.Basic
import Mathlib.Algebra.Order.BigOperators.Group.List
import Mathlib.Algebra.Order.Field.Basic
import Mathlib.Tactic.FieldSimp
import Mathlib.Tactic.Linarith
import Mathlib.Tactic.Ring
import Mathlib.Tactic.Common
import Mathlib.Data.List.Rotate

/-!
# The mean of a window, and its spread

A window has the last items of a list. The mean of its items and the sum of the squares of their deviations from it can be kept up to
date when an item comes, and when it takes the place of the oldest one, without a look at the others.
-/

namespace Lib

/-! ## Windows -/

section Window

variable {α : Type*} {w : Nat}

/-- The last items of a list. -/
def lastItems (w : Nat) (l : List α) : List α := l.drop (l.length - w)

@[simp] theorem lastItems_nil (w : Nat) : lastItems w ([] : List α) = [] := List.drop_nil

theorem length_lastItems (w : Nat) (l : List α) : (lastItems w l).length = min l.length w := by
  rw [lastItems, List.length_drop]
  omega

/-- A window that is not full gets an item more. -/
theorem lastItems_grow {l : List α} (h : (lastItems w l).length < w) (x : α) : lastItems w (l ++ [x]) = lastItems w l ++ [x] := by
  rw [length_lastItems] at h
  rw [lastItems, lastItems, List.length_append, List.length_singleton, show l.length + 1 - w = 0 by omega,
    show l.length - w = 0 by omega]
  rfl

/-- In a full window the oldest item goes. -/
theorem lastItems_slide {l : List α} (hw : 0 < w) (h : (lastItems w l).length = w) (x : α) :
    lastItems w (l ++ [x]) = (lastItems w l).tail ++ [x] := by
  rw [length_lastItems] at h
  rw [lastItems, lastItems, List.length_append, List.length_singleton, List.tail_drop,
    show l.length + 1 - w = l.length - w + 1 by omega, List.drop_append_of_le_length (by omega)]

end Window

/-! ## The mean and the spread -/

section Spread

variable {K : Type*} [Field K]

/-- The mean of some numbers, zero for none. -/
def average (xs : List K) : K := xs.sum / xs.length

/-- The sum of the squares of their deviations from the mean. -/
def spread (xs : List K) : K := (xs.map (fun x => (x - average xs) ^ 2)).sum

theorem sum_deviations (xs : List K) (m : K) :
    (xs.map (fun x => (x - m) ^ 2)).sum = (xs.map (fun x => x ^ 2)).sum - 2 * m * xs.sum + xs.length * m ^ 2 := by
  induction xs with
  | nil => simp
  | cons x xs ih =>
    rw [List.map_cons, List.sum_cons, ih, List.map_cons, List.sum_cons, List.sum_cons, List.length_cons]
    push_cast
    ring

theorem average_perm {xs ys : List K} (h : xs.Perm ys) : average xs = average ys := by
  rw [average, average, h.sum_eq, h.length_eq]

theorem spread_perm {xs ys : List K} (h : xs.Perm ys) : spread xs = spread ys := by
  rw [spread, spread, average_perm h]
  exact (h.map _).sum_eq

variable [CharZero K]

theorem length_ne_zero {xs : List K} (h : xs ≠ []) : (xs.length : K) ≠ 0 := by
  rw [Nat.cast_ne_zero]
  exact fun hzero => h (List.length_eq_zero_iff.mp hzero)

theorem spread_eq (xs : List K) : spread xs = (xs.map (fun x => x ^ 2)).sum - xs.sum ^ 2 / xs.length := by
  rw [spread, sum_deviations, average]
  rcases eq_or_ne xs [] with rfl | hxs
  · simp
  · have hn := length_ne_zero hxs
    field_simp
    ring

/-- The mean after one number more. -/
theorem average_append (xs : List K) (x : K) : average (xs ++ [x]) = average xs + (x - average xs) / ((xs.length + 1 : Nat) : K) := by
  have hsucc : ((xs.length + 1 : Nat) : K) ≠ 0 := Nat.cast_ne_zero.mpr (Nat.succ_ne_zero _)
  rw [average, average, List.sum_append, List.sum_singleton, List.length_append, List.length_singleton]
  rcases eq_or_ne xs [] with rfl | hxs
  · simp
  · have hn := length_ne_zero hxs
    push_cast at hsucc ⊢
    field_simp
    ring

/-- The spread after one number more. -/
theorem spread_append (xs : List K) (x : K) :
    spread (xs ++ [x]) = spread xs + (x - average xs) * (x - average (xs ++ [x])) := by
  have hsucc : ((xs.length + 1 : Nat) : K) ≠ 0 := Nat.cast_ne_zero.mpr (Nat.succ_ne_zero _)
  rw [average_append, spread_eq, spread_eq, average, List.map_append, List.sum_append, List.sum_append, List.length_append,
    List.map_singleton, List.sum_singleton, List.sum_singleton, List.length_singleton]
  rcases eq_or_ne xs [] with rfl | hxs
  · simp
  · have hn := length_ne_zero hxs
    push_cast at hsucc ⊢
    field_simp
    ring

/-- The mean after a number in the place of the oldest one. -/
theorem average_slide (old : K) (xs : List K) (x : K) :
    average (xs ++ [x]) = average (old :: xs) + (x - old) / ((old :: xs).length : K) := by
  rw [average, average, List.sum_append, List.sum_singleton, List.sum_cons, List.length_append, List.length_singleton,
    List.length_cons]
  ring

/-- The spread after a number in the place of the oldest one. -/
theorem spread_slide (old : K) (xs : List K) (x : K) :
    spread (xs ++ [x]) =
      spread (old :: xs) + (x - old) * ((x - average (xs ++ [x])) + (old - average (old :: xs))) := by
  have hsucc : ((xs.length + 1 : Nat) : K) ≠ 0 := Nat.cast_ne_zero.mpr (Nat.succ_ne_zero _)
  rw [spread_eq, spread_eq, average, average, List.map_append, List.sum_append, List.sum_append, List.length_append,
    List.map_singleton, List.sum_singleton, List.sum_singleton, List.length_singleton, List.map_cons, List.sum_cons, List.sum_cons,
    List.length_cons]
  field_simp
  ring

end Spread

/-- The spread is not negative. -/
theorem spread_nonneg {K : Type*} [Field K] [LinearOrder K] [IsStrictOrderedRing K] (xs : List K) : 0 ≤ spread xs := by
  refine List.sum_nonneg ?_
  intro y hy
  obtain ⟨x, -, rfl⟩ := List.mem_map.mp hy
  exact sq_nonneg _

end Lib

/-!
## Rings

A list that is written round and round, each item over the oldest one. Read from the place that is written next, it has its items
in the order in which they came.
-/

namespace Lib

variable {α : Type*}

theorem rotate_of_length {l : List α} {k : Nat} (h : l.length = k) : l.rotate k = l := by
  rw [← h, List.rotate_length]

/-- An item written at the head moves the head one place on: the oldest item goes, the new one comes last. -/
theorem rotate_set_succ {ring : List α} (hpos : 0 < ring.length) (head : Nat) (x : α) :
    (ring.set (head % ring.length) x).rotate (head + 1) = (ring.rotate head).tail ++ [x] := by
  have hlt := Nat.mod_lt head hpos
  generalize hi : head % ring.length = i at hlt
  have hsplit : ring = ring.take i ++ ring.get ⟨i, hlt⟩ :: ring.drop (i + 1) := by simp
  have hlen : (ring.take i).length = i := by simp [Nat.le_of_lt hlt]
  have hrotate : ring.rotate head = (ring.get ⟨i, hlt⟩ :: ring.drop (i + 1)) ++ ring.take i := by
    rw [← List.rotate_mod, hi]
    conv => lhs; rw [hsplit]
    have := List.rotate_append_length_eq (ring.take i) (ring.get ⟨i, hlt⟩ :: ring.drop (i + 1))
    rwa [hlen] at this
  have hset : ring.set i x = (ring.take i ++ [x]) ++ ring.drop (i + 1) := by
    rw [List.set_eq_take_append_cons_drop, if_pos hlt]
    simp
  have hrotate' : (ring.set i x).rotate (head + 1) = ring.drop (i + 1) ++ (ring.take i ++ [x]) := by
    have hmod : (head + 1) % (ring.set i x).length = (i + 1) % (ring.set i x).length := by
      rw [List.length_set, ← hi, Nat.mod_add_mod]
    rw [← List.rotate_mod, hmod, List.rotate_mod, hset]
    have := List.rotate_append_length_eq (ring.take i ++ [x]) (ring.drop (i + 1))
    rwa [List.length_append, hlen, List.length_singleton] at this
  rw [hrotate', hrotate, List.cons_append, List.tail_cons, List.append_assoc]

end Lib
