import Mathlib.Algebra.BigOperators.Group.List.Basic
import Mathlib.Algebra.Field.Defs
import Mathlib.Algebra.Group.WithOne.Basic
import Mathlib.Order.Bounds.Basic
import Mathlib.Tactic.Ring

/-!
# Candles

What is kept of a sequence of trades when only the first price, the range and the sums are. Candles of adjacent sequences are put
together, and it does not matter how a sequence is cut; the unit that is added stands for the empty sequence.
-/

namespace Lib

/-- A trade: a price and a quantity. -/
structure Fill (K : Type*) where
  price : K
  quantity : K

/-- What is kept of some trades. -/
@[ext] structure Candle (K : Type*) where
  first : K
  high : K
  low : K
  volume : K
  count : Nat
  notional : K

namespace Candle

variable {K : Type*} [Field K] [LinearOrder K]

/-- The candle of one trade. -/
def ofFill (t : Fill K) : Candle K := ⟨t.price, t.price, t.price, t.quantity, 1, t.price * t.quantity⟩

instance : Mul (Candle K) where
  mul a b := ⟨a.first, max a.high b.high, min a.low b.low, a.volume + b.volume, a.count + b.count, a.notional + b.notional⟩

theorem mul_def (a b : Candle K) :
    a * b = ⟨a.first, max a.high b.high, min a.low b.low, a.volume + b.volume, a.count + b.count, a.notional + b.notional⟩ := rfl

instance : Semigroup (Candle K) where
  mul_assoc a b c := by
    simp only [mul_def, max_assoc, min_assoc, add_assoc]

/-- The candle of some trades. -/
def ofFills (ts : List (Fill K)) : WithOne (Candle K) := (ts.map (fun t => (ofFill t : WithOne (Candle K)))).prod

@[simp] theorem ofFills_nil : ofFills ([] : List (Fill K)) = 1 := rfl

theorem ofFills_append (ts us : List (Fill K)) : ofFills (ts ++ us) = ofFills ts * ofFills us := by
  rw [ofFills, List.map_append, List.prod_append]
  rfl

@[simp] theorem ofFills_singleton (t : Fill K) : ofFills [t] = (ofFill t : WithOne (Candle K)) := by simp [ofFills]

/-- What a candle says of the trades it was made of. -/
structure Tells (c : Candle K) (ts : List (Fill K)) : Prop where
  first : ts.head?.map (·.price) = some c.first
  high : IsGreatest { p | ∃ t ∈ ts, t.price = p } c.high
  low : IsLeast { p | ∃ t ∈ ts, t.price = p } c.low
  volume : c.volume = (ts.map (·.quantity)).sum
  count : c.count = ts.length
  notional : c.notional = (ts.map (fun t => t.price * t.quantity)).sum

theorem Tells.ofFill (t : Fill K) : (ofFill t).Tells [t] where
  first := rfl
  high := ⟨⟨t, List.mem_singleton_self t, rfl⟩, by rintro p ⟨u, hu, rfl⟩; rw [List.mem_singleton.mp hu]; exact le_refl _⟩
  low := ⟨⟨t, List.mem_singleton_self t, rfl⟩, by rintro p ⟨u, hu, rfl⟩; rw [List.mem_singleton.mp hu]; exact le_refl _⟩
  volume := by simp [Candle.ofFill]
  count := rfl
  notional := by simp [Candle.ofFill]

theorem Tells.cons {c : Candle K} {ts : List (Fill K)} (h : c.Tells ts) (t : Fill K) : (Candle.ofFill t * c).Tells (t :: ts) := by
  obtain ⟨⟨uh, huh, hhigh⟩, habove⟩ := h.high
  obtain ⟨⟨ul, hul, hlow⟩, hbelow⟩ := h.low
  refine ⟨rfl, ⟨?_, ?_⟩, ⟨?_, ?_⟩, ?_, ?_, ?_⟩
  · show ∃ u ∈ t :: ts, u.price = max t.price c.high
    rcases max_choice t.price c.high with hmax | hmax
    · exact ⟨t, List.mem_cons_self, hmax.symm⟩
    · exact ⟨uh, List.mem_cons_of_mem _ huh, hhigh.trans hmax.symm⟩
  · rintro p ⟨u, hu, rfl⟩
    show u.price ≤ max t.price c.high
    rcases List.mem_cons.mp hu with rfl | hmem
    · exact le_max_left ..
    · exact (habove ⟨u, hmem, rfl⟩).trans (le_max_right ..)
  · show ∃ u ∈ t :: ts, u.price = min t.price c.low
    rcases min_choice t.price c.low with hmin | hmin
    · exact ⟨t, List.mem_cons_self, hmin.symm⟩
    · exact ⟨ul, List.mem_cons_of_mem _ hul, hlow.trans hmin.symm⟩
  · rintro p ⟨u, hu, rfl⟩
    show min t.price c.low ≤ u.price
    rcases List.mem_cons.mp hu with rfl | hmem
    · exact min_le_left ..
    · exact (min_le_right ..).trans (hbelow ⟨u, hmem, rfl⟩)
  · show t.quantity + c.volume = _
    rw [h.volume, List.map_cons, List.sum_cons]
  · show 1 + c.count = _
    rw [h.count, List.length_cons, Nat.add_comm]
  · show t.price * t.quantity + c.notional = _
    rw [h.notional, List.map_cons, List.sum_cons]

/-- The candle of some trades tells of them, and no trades have no candle. -/
theorem ofFills_eq (ts : List (Fill K)) : ts = [] ∧ ofFills ts = 1 ∨ ∃ c : Candle K, ofFills ts = c ∧ c.Tells ts := by
  induction ts with
  | nil => exact .inl ⟨rfl, rfl⟩
  | cons t ts ih =>
    have hcons : ofFills (t :: ts) = (ofFill t : WithOne (Candle K)) * ofFills ts := by
      rw [← ofFills_singleton, ← ofFills_append]
      rfl
    rcases ih with ⟨rfl, hone⟩ | ⟨c, hc, htells⟩
    · exact .inr ⟨ofFill t, ofFills_singleton t, .ofFill t⟩
    · refine .inr ⟨ofFill t * c, ?_, htells.cons t⟩
      rw [hcons, hc, WithOne.coe_mul]

end Candle

end Lib
