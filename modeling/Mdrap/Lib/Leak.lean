import Mathlib.Algebra.BigOperators.Group.List.Basic
import Mathlib.Algebra.Order.Field.Basic
import Mathlib.Algebra.Order.Group.MinMax
import Mathlib.Tactic.Linarith
import Mathlib.Tactic.Ring

/-!
# Leaks

What is poured into a vessel runs out of it at some rate. Amounts are listed with their times, the last one first. Where the vessel never
holds more than some capacity, not more than this, and what can run out meanwhile, is poured in between two times.
-/

namespace Lib

variable {K : Type*} [Field K] [LinearOrder K]

/-- What is left at a time. -/
def leftAt (rate : K) : List (K × K) → K → K
  | [], _ => 0
  | (t, x) :: older, now => max 0 (leftAt rate older t + x - rate * (now - t))

/-- There is never more than the capacity in the vessel. -/
def Holds (rate capacity : K) : List (K × K) → Prop
  | [] => True
  | (t, x) :: older => leftAt rate older t + x ≤ capacity ∧ Holds rate capacity older

/-- What is poured in between two times. -/
def pouredIn (a b : K) (log : List (K × K)) : K := ((log.filter (fun e => a ≤ e.1 ∧ e.1 ≤ b)).map (·.2)).sum

variable {rate capacity : K} {log : List (K × K)}

theorem leftAt_nonneg (rate : K) (log : List (K × K)) (now : K) : 0 ≤ leftAt rate log now := by
  cases log with
  | nil => exact le_refl 0
  | cons e older => exact le_max_left ..

theorem pouredIn_cons_of_mem {a b : K} {e : K × K} (h : a ≤ e.1 ∧ e.1 ≤ b) : pouredIn a b (e :: log) = e.2 + pouredIn a b log := by
  rw [pouredIn, List.filter_cons_of_pos (by simpa using h), List.map_cons, List.sum_cons]
  rfl

theorem pouredIn_cons_of_not_mem {a b : K} {e : K × K} (h : ¬(a ≤ e.1 ∧ e.1 ≤ b)) : pouredIn a b (e :: log) = pouredIn a b log := by
  rw [pouredIn, List.filter_cons_of_neg (by simpa using h)]
  rfl

/-- Nothing was poured in after all that was poured in. -/
theorem pouredIn_eq_zero {a b : K} (h : ∀ e ∈ log, e.1 < a) : pouredIn a b log = 0 := by
  have hnone : log.filter (fun e => a ≤ e.1 ∧ e.1 ≤ b) = [] := by
    refine List.filter_eq_nil_iff.mpr (fun e he => ?_)
    have := h e he
    simpa using fun hle => absurd hle (not_le.mpr this)
  rw [pouredIn, hnone]
  rfl

/-- What is left just after an amount is poured in. -/
theorem leftAt_cons_self (t x : K) : leftAt rate ((t, x) :: log) t = max 0 (leftAt rate log t + x) := by
  rw [leftAt, sub_self, mul_zero, sub_zero]

variable [IsStrictOrderedRing K]

theorem leftAt_anti (hrate : 0 ≤ rate) {t now : K} (h : t ≤ now) : leftAt rate log now ≤ leftAt rate log t := by
  cases log with
  | nil => exact le_refl 0
  | cons e older => exact max_le_max_left 0 (sub_le_sub_left (mul_le_mul_of_nonneg_left (sub_le_sub_right h e.1) hrate) _)

/-- What is left later is what is left now, but for what runs out meanwhile. -/
theorem leftAt_later (hrate : 0 ≤ rate) {t now : K} (h : t ≤ now) :
    leftAt rate log now = max 0 (leftAt rate log t - rate * (now - t)) := by
  have hout := mul_nonneg hrate (sub_nonneg.mpr h)
  cases log with
  | nil => exact (max_eq_left (sub_nonpos.mpr hout)).symm
  | cons e older =>
    have hsplit : rate * (now - e.1) = rate * (t - e.1) + rate * (now - t) := by ring
    rw [leftAt, leftAt, hsplit, ← sub_sub, ← max_sub_sub_right, ← max_assoc, max_eq_left (sub_nonpos.mpr hout)]

/-- What was poured in since a time is left or has run out. -/
theorem pouredIn_le_leftAt (hrate : 0 ≤ rate) {a b now : K} (hlog : log.Pairwise (fun e e' => e'.1 ≤ e.1))
    (hbefore : ∀ e ∈ log, e.1 ≤ now) (hb : now ≤ b) (ha : a ≤ now) : pouredIn a b log ≤ leftAt rate log now + rate * (now - a) := by
  induction log generalizing now with
  | nil =>
    have := mul_nonneg hrate (sub_nonneg.mpr ha)
    simpa [pouredIn, leftAt] using this
  | cons e older ih =>
    obtain ⟨hle, holder⟩ := List.pairwise_cons.mp hlog
    have he := hbefore e List.mem_cons_self
    by_cases hin : a ≤ e.1
    · rw [pouredIn_cons_of_mem ⟨hin, he.trans hb⟩]
      have hrest := ih holder hle (he.trans hb) hin
      have hleft : leftAt rate older e.1 + e.2 - rate * (now - e.1) ≤ leftAt rate (e :: older) now := le_max_right ..
      have hsplit : rate * (now - a) = rate * (now - e.1) + rate * (e.1 - a) := by ring
      linarith
    · rw [pouredIn_eq_zero]
      · exact add_nonneg (leftAt_nonneg ..) (mul_nonneg hrate (sub_nonneg.mpr ha))
      · intro e' he'
        rcases List.mem_cons.mp he' with rfl | hmem
        · exact not_le.mp hin
        · exact (hle e' hmem).trans_lt (not_le.mp hin)

/-- Between two times, not more is poured in than the capacity and what can run out. -/
theorem pouredIn_le (hrate : 0 ≤ rate) (hcapacity : 0 ≤ capacity) {a b : K} (hab : a ≤ b)
    (hlog : log.Pairwise (fun e e' => e'.1 ≤ e.1)) (h : Holds rate capacity log) :
    pouredIn a b log ≤ capacity + rate * (b - a) := by
  have hroom := mul_nonneg hrate (sub_nonneg.mpr hab)
  induction log with
  | nil =>
    rw [pouredIn, List.filter_nil, List.map_nil, List.sum_nil]
    linarith
  | cons e older ih =>
    obtain ⟨hle, holder⟩ := List.pairwise_cons.mp hlog
    by_cases hin : a ≤ e.1 ∧ e.1 ≤ b
    · rw [pouredIn_cons_of_mem hin]
      have hrest := pouredIn_le_leftAt hrate holder hle hin.2 hin.1
      have hsplit : rate * (b - a) = rate * (b - e.1) + rate * (e.1 - a) := by ring
      have hmore := mul_nonneg hrate (sub_nonneg.mpr hin.2)
      linarith [h.1]
    · rw [pouredIn_cons_of_not_mem hin]
      exact ih holder h.2

end Lib
