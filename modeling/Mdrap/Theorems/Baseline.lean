import Mdrap.Lib.Window
import Mdrap.Lib.Runs
import Mdrap.Native.Engine
import Mdrap.Lemmas.Tame

/-!
# The rolling baseline is exact

Both engines keep the prices of a slot in a ring, and with them the mean and the sum of the squared deviations, which a price changes
without a look at the other prices. Over exact rationals these are, at any time, what the window itself says.
-/

namespace Mdrap

open Lib

/-- What may become of a baseline: a price is folded into it, it starts anew with a price, or an outlier is only counted. -/
inductive BaselineCall where
  | fold (x : ℚ)
  | reseed (x : ℚ)
  | count (n : Nat) (x : Option ℚ)

namespace BaselineCall

/-- The prices folded since the baseline last started anew, the oldest first. -/
def folded (xs : List ℚ) : BaselineCall → List ℚ
  | fold x => xs ++ [x]
  | reseed x => [x]
  | count _ _ => xs

def sinceReseed (calls : List BaselineCall) : List ℚ := calls.foldl folded []

/-- A call of `fold_price`, or a step of `_finish_evaluation` that leads to one. -/
def onPrices (F : Floats (Option ℚ)) (window : Nat) (p : Prices (Option ℚ)) :
    BaselineCall → Except PyError Unit × Prices (Option ℚ)
  | fold x => p.foldPrice F window (some x)
  | reseed x =>
    { p with n := 0, head := 0, mean := F.int 0, m2 := F.int 0, anomCount := 0, foldCount := 0, anomLast := some x }.foldPrice
      F window (some x)
  | count n x => (.ok (), { p with anomCount := n, anomLast := x })

/-- The same on a native slot. -/
def onSlot (F : Floats (Option ℚ)) (window : Nat) (sl : FastSlot (Option ℚ)) : BaselineCall → FastSlot (Option ℚ)
  | fold x => sl.foldPrice F window (some x)
  | reseed x =>
    { sl with anomLast := some x, n := 0, head := 0, mean := F.int 0, m2 := F.int 0, foldCount := 0, anomCount := 0 }.foldPrice
      F window (some x)
  | count n x => { sl with anomCount := n, anomLast := x }

end BaselineCall

/-- The deviations after a price in the place of the oldest one, before they are cut off at zero. -/
def Prices.replacedM2 (F : Floats (Option ℚ)) (window : Nat) (x old : Option ℚ) (p : Prices (Option ℚ)) : Option ℚ :=
  let d := F.sub x old
  let nm := F.add p.mean (F.div d (F.int window))
  F.add p.m2 (F.mul d (F.add (F.sub x nm) (F.sub old p.mean)))

/-- The same on a native slot. -/
def FastSlot.replacedM2 (F : Floats (Option ℚ)) (window : Nat) (x old : Option ℚ) (sl : FastSlot (Option ℚ)) : Option ℚ :=
  let d := F.sub x old
  let nm := F.add sl.mean (F.mul d (FastSlot.invN F window))
  F.add sl.m2 (F.mul d (F.add (F.sub x nm) (F.sub old sl.mean)))

/-- A baseline says of a window what it is: the ring has its prices, the oldest at the head, and the rest are their number, their mean
and the sum of the squared deviations from it. -/
structure BaselineOf (xs : List ℚ) (ring : List (Option ℚ)) (n head : Nat) (mean m2 : Option ℚ) : Prop where
  prices : (ring.take n).rotate head = xs.map some
  length : n = xs.length
  average : mean = some (average xs)
  spread : m2 = some (spread xs)

/-- The fifth stage of an event makes some of these calls on the baseline, and no other change. -/
theorem Prices.stage_calls (F : Floats (Option ℚ)) (cfg : QualityLimits (Option ℚ)) (venue : String) (x : ℚ) (window : Nat)
    (hwindow : cfg.priceWindow = window) (p : Prices (Option ℚ)) :
    ∃ calls, (p.stage F cfg venue (some x)).2.2 = runFrom (fun p c => (BaselineCall.onPrices F window p c).2) p calls := by
  unfold Prices.stage
  split
  · unfold Prices.outlier
    dsimp only
    rw [hwindow]
    generalize (if p.anomCount > 0 ∧ F.le (F.abs (F.sub (some x) p.anomLast)) (p.clusterTol F cfg (some x)) then p.anomCount + 1
      else 1) = count
    split
    · exact ⟨[.reseed x], rfl⟩
    · exact ⟨[.count count (some x)], rfl⟩
  · refine ⟨[.count 0 p.anomLast, .fold x], ?_⟩
    rw [hwindow]
    rfl

/-- So does the fifth stage of an event in C. -/
theorem FastSlot.stagePrice_calls (F : Floats (Option ℚ)) (c : FastConfig (Option ℚ)) (x : ℚ) (sl : FastSlot (Option ℚ))
    (res : FastResult) : ∃ calls, (sl.stagePrice F c (some x) res).2 = runFrom (BaselineCall.onSlot F c.priceWindow) sl calls := by
  unfold FastSlot.stagePrice
  split
  · unfold FastSlot.outlier
    dsimp only
    generalize (if sl.anomCount > 0 ∧ F.le (F.abs (F.sub (some x) sl.anomLast)) (sl.band F c (some x)) then sl.anomCount + 1
      else 1) = count
    split
    · exact ⟨[.reseed x], rfl⟩
    · exact ⟨[.count count (some x)], rfl⟩
  · exact ⟨[.count 0 sl.anomLast, .fold x], rfl⟩

namespace Baseline

open Floats

/-! ## Exact numbers -/

section Exact

variable {sqrt : ℚ → ℚ} {bits : Option ℚ → UInt64}

theorem exact_invN (n : Nat) : FastSlot.invN (Floats.exact sqrt bits) n = some (1 / (n : ℚ)) := by
  rw [FastSlot.invN, exact_int, exact_int, exact_div, Int.cast_one, Int.cast_natCast]

/-- What is not negative is not cut off at zero. -/
theorem exact_cut {a : ℚ} (h : 0 ≤ a) :
    (if (Floats.exact sqrt bits).lt (some a) ((Floats.exact sqrt bits).int 0) then (Floats.exact sqrt bits).int 0 else some a) = some a := by
  rw [exact_int, exact_lt, if_neg]
  simpa using h

theorem exact_sumSquares (m : ℚ) (ys : List ℚ) :
    Prices.sumSquares (Floats.exact sqrt bits) (some m) (ys.map some) = some (some ((ys.map (fun y => (y - m) ^ 2)).sum)) := by
  have hfold (a : ℚ) : (ys.map some).foldl (fun acc v => do
      return (Floats.exact sqrt bits).add (← acc) (← (Floats.exact sqrt bits).square ((Floats.exact sqrt bits).sub v (some m))))
      (some (some a)) = some (some (a + (ys.map (fun y => (y - m) ^ 2)).sum)) := by
    induction ys generalizing a with
    | nil => simp
    | cons y ys ih =>
      rw [List.map_cons, List.foldl_cons, exact_sub, exact_square]
      refine (ih _).trans ?_
      rw [List.map_cons, List.sum_cons, ← add_assoc, sq]
  rw [Prices.sumSquares, exact_int]
  refine (hfold _).trans ?_
  simp

end Exact

/-! ## The window -/

/-- A baseline of a window of at most so many prices, with the ring it is written to. -/
structure Tracks (window : Nat) (ring : List (Option ℚ)) (n head : Nat) (mean m2 : Option ℚ) (xs : List ℚ) : Prop where
  room : window ≤ ring.length
  most : n ≤ window
  inside : head < window
  filling : n < window → head = n
  exact : BaselineOf xs ring n head mean m2

theorem Tracks.empty {window : Nat} (hwindow : 1 ≤ window) {ring : List (Option ℚ)} (hroom : window ≤ ring.length) :
    Tracks window ring 0 0 (some 0) (some 0) [] := by
  refine ⟨hroom, by omega, by omega, fun _ => rfl, ⟨rfl, rfl, ?_, ?_⟩⟩
  · simp [average]
  · simp [spread]

variable {window n head : Nat} {ring : List (Option ℚ)} {mean m2 : Option ℚ} {xs : List ℚ}

/-- The used part of the ring has the prices of the window, in some order. -/
theorem Tracks.used (h : Tracks window ring n head mean m2 xs) : ∃ ys : List ℚ, ring.take n = ys.map some ∧ ys.Perm xs := by
  have hrotated : ring.take n ~r xs.map some := ⟨head, h.exact.prices⟩
  obtain ⟨k, hk⟩ := hrotated.symm
  refine ⟨xs.rotate k, ?_, List.rotate_perm ..⟩
  rw [← hk, List.map_rotate]

/-- The mean found anew from the ring is the one that is kept. -/
theorem Tracks.meanOfRing (h : Tracks window ring n head mean m2 xs) (sqrt : ℚ → ℚ) (bits : Option ℚ → UInt64) :
    Floats.div (.exact sqrt bits) (Floats.sum (.exact sqrt bits) (ring.take n)) (Floats.int (.exact sqrt bits) n) = mean := by
  obtain ⟨ys, hys, hperm⟩ := h.used
  rw [hys, exact_sum, exact_int, exact_div, h.exact.average, ← average_perm hperm, average, hperm.length_eq, ← h.exact.length]
  rfl

/-- While the window fills, the ring has its prices from the front. -/
theorem Tracks.front (h : Tracks window ring n head mean m2 xs) (hn : n < window) : ring.take n = xs.map some := by
  have hprices := h.exact.prices
  rwa [h.filling hn, rotate_of_length (List.length_take_of_le (hn.le.trans h.room))] at hprices

/-- A price more, while the window fills. -/
theorem Tracks.grow (h : Tracks window ring n head mean m2 xs) (hn : n < window) (x : ℚ) :
    Tracks window (ring.set n (some x)) (n + 1) (if n + 1 ≥ window then 0 else n + 1)
      (some (average xs + (x - average xs) / ((n + 1 : Nat) : ℚ)))
      (some (spread xs + (x - average xs) * (x - (average xs + (x - average xs) / ((n + 1 : Nat) : ℚ))))) (xs ++ [x]) := by
  have hroom := h.room
  have hlength := h.exact.length
  have hmean : average xs + (x - average xs) / ((n + 1 : Nat) : ℚ) = average (xs ++ [x]) := by rw [average_append, hlength]
  rw [hmean, ← spread_append]
  refine ⟨?_, hn, ?_, ?_, ⟨?_, ?_, rfl, rfl⟩⟩
  · rw [List.length_set]
    exact hroom
  · split <;> omega
  · intro hlt
    rw [if_neg (by omega)]
  · rw [Prices.take_set_succ (by omega), h.front hn, List.map_append, List.map_singleton]
    split
    · exact List.rotate_zero _
    · exact rotate_of_length (by simp [hlength])
  · rw [List.length_append, List.length_singleton, hlength]

/-- A price in the place of the oldest one, where the window is full. -/
theorem Tracks.slide (h : Tracks window ring n head mean m2 xs) (hn : window ≤ n) (x : ℚ) :
    ∃ old, ring[head]? = some (some old) ∧
      0 ≤ spread xs + (x - old) * ((x - (average xs + (x - old) / (window : ℚ))) + (old - average xs)) ∧
      Tracks window (ring.set head (some x)) n (if head + 1 ≥ window then 0 else head + 1)
        (some (average xs + (x - old) / (window : ℚ)))
        (some (spread xs + (x - old) * ((x - (average xs + (x - old) / (window : ℚ))) + (old - average xs)))) (xs.tail ++ [x]) := by
  have hroom := h.room
  have hinside := h.inside
  obtain rfl : n = window := le_antisymm h.most hn
  have hlength : (ring.take n).length = n := List.length_take_of_le hroom
  have hprices := h.exact.prices
  have hcount := h.exact.length
  obtain ⟨old, rest, rfl⟩ : ∃ old rest, xs = old :: rest := List.exists_cons_of_length_pos (by omega)
  have hold : ring[head]? = some (some old) := by
    have hhead := congrArg List.head? hprices
    rw [List.head?_rotate (by omega), List.getElem?_take_of_lt hinside] at hhead
    exact hhead
  have hmean : average (old :: rest) + (x - old) / (n : ℚ) = average (rest ++ [x]) := by rw [average_slide, hcount]
  rw [List.tail_cons]
  refine ⟨old, hold, ?_⟩
  rw [hmean, ← spread_slide]
  refine ⟨spread_nonneg _, ?_, le_rfl, ?_, fun hlt => absurd hlt (lt_irrefl _), ⟨?_, ?_, rfl, rfl⟩⟩
  · rw [List.length_set]
    exact hroom
  · split <;> omega
  · -- the ring is written at its head, and the head goes on by one
    have hset := @rotate_set_succ _ (ring.take n) (by omega) head (some x)
    rw [hlength, Nat.mod_eq_of_lt hinside, hprices, List.map_cons, List.tail_cons] at hset
    rw [List.take_set, List.map_append, List.map_singleton, ← hset]
    split
    · rw [List.rotate_zero, rotate_of_length]
      rw [List.length_set, hlength]
      omega
    · rfl
  · simpa using hcount

/-- The last prices of a longer list: the price before them goes, where the window is full. -/
theorem Tracks.push {l : List ℚ} (hwindow : 1 ≤ window) (h : Tracks window ring n head mean m2 (lastItems window l)) (x : ℚ) :
    lastItems window (l ++ [x]) = (if n < window then lastItems window l else (lastItems window l).tail) ++ [x] := by
  have hlength := h.exact.length
  have hmost := h.most
  split
  · exact lastItems_grow (by omega) x
  · exact lastItems_slide hwindow (by omega) x

/-! ## The Python baseline -/

section Python

variable {sqrt : ℚ → ℚ} {bits : Option ℚ → UInt64} {p : Prices (Option ℚ)} {l : List ℚ}

/-- The baseline of the last prices of a list. -/
def OfPrices (window : Nat) (p : Prices (Option ℚ)) (l : List ℚ) : Prop :=
  Tracks window p.ring p.n p.head p.mean p.m2 (lastItems window l)

theorem OfPrices.replacedM2 (h : OfPrices window p l) (x old : ℚ) :
    p.replacedM2 (.exact sqrt bits) window (some x) (some old) =
      some (spread (lastItems window l) + (x - old) *
        ((x - (average (lastItems window l) + (x - old) / (window : ℚ))) + (old - average (lastItems window l)))) := by
  rw [Prices.replacedM2, h.exact.average, h.exact.spread, exact_int, exact_sub, exact_div]
  rfl

/-- The deviations are never cut off at zero. -/
theorem OfPrices.uncut (h : OfPrices window p l) (hn : window ≤ p.n) (x : ℚ) :
    ∃ old m2 : ℚ, p.ring[p.head]? = some (some old) ∧ p.replacedM2 (.exact sqrt bits) window (some x) (some old) = some m2 ∧
      0 ≤ m2 ∧ (p.insert (.exact sqrt bits) window (some x)).map Prices.m2 = .ok (some m2) := by
  obtain ⟨old, hold, hpos, -⟩ := Tracks.slide h hn x
  refine ⟨old, _, hold, h.replacedM2 x old, hpos, ?_⟩
  unfold Prices.insert
  rw [if_pos (Int.ofNat_le.mpr hn), hold]
  change Except.ok (if Floats.lt (.exact sqrt bits) (p.replacedM2 (.exact sqrt bits) window (some x) (some old))
    (Floats.int (.exact sqrt bits) 0) then Floats.int (.exact sqrt bits) 0
      else p.replacedM2 (.exact sqrt bits) window (some x) (some old)) = _
  rw [h.replacedM2, exact_cut hpos]

theorem OfPrices.insert (hwindow : 1 ≤ window) (h : OfPrices window p l) (x : ℚ) :
    ∃ p', p.insert (.exact sqrt bits) window (some x) = .ok p' ∧ OfPrices window p' (l ++ [x]) := by
  unfold Prices.insert OfPrices
  rw [h.push hwindow x]
  by_cases hfull : window ≤ p.n
  · obtain ⟨old, hold, hpos, hslide⟩ := Tracks.slide h hfull x
    rw [if_pos (Int.ofNat_le.mpr hfull), hold, if_neg (Nat.not_lt.mpr hfull)]
    refine ⟨_, rfl, ?_⟩
    change Tracks window (p.ring.set p.head (some x)) p.n (if ((p.head + 1 : Nat) : Int) ≥ window then 0 else p.head + 1)
      (Floats.add (.exact sqrt bits) p.mean (Floats.div (.exact sqrt bits) (some (x - old)) (Floats.int (.exact sqrt bits) window)))
      (if Floats.lt (.exact sqrt bits) (p.replacedM2 (.exact sqrt bits) window (some x) (some old)) (Floats.int (.exact sqrt bits) 0) then
        Floats.int (.exact sqrt bits) 0 else p.replacedM2 (.exact sqrt bits) window (some x) (some old)) _
    rw [h.replacedM2, exact_cut hpos, h.exact.average, exact_int]
    simp only [ge_iff_le, Nat.cast_le]
    exact hslide
  · have hroom : p.n < window := Nat.not_le.mp hfull
    rw [if_neg (fun hle => hfull (Int.ofNat_le.mp hle)), if_pos hroom]
    refine ⟨_, rfl, ?_⟩
    dsimp only
    rw [h.exact.average, h.exact.spread, exact_int]
    simp only [ge_iff_le, Nat.cast_le]
    exact Tracks.grow h hroom x

/-- The mean and the deviations found anew from the window are those that were kept. -/
theorem OfPrices.recenter (h : OfPrices window p l) :
    p.recenter (.exact sqrt bits) = (.ok (), { p with foldCount := 0 }) := by
  have hmean := Tracks.meanOfRing h sqrt bits
  obtain ⟨ys, hys, hperm⟩ := Tracks.used h
  have hm2 : Prices.sumSquares (.exact sqrt bits) p.mean (p.ring.take p.n) = some p.m2 := by
    rw [hys, h.exact.average, exact_sumSquares, h.exact.spread, ← spread_perm hperm, spread, average_perm hperm]
  unfold Prices.recenter
  simp only [hmean, hm2]

theorem OfPrices.foldPrice (hwindow : 1 ≤ window) (h : OfPrices window p l) (x : ℚ) :
    (p.foldPrice (.exact sqrt bits) window (some x)).1 = .ok () ∧
      OfPrices window (p.foldPrice (.exact sqrt bits) window (some x)).2 (l ++ [x]) := by
  obtain ⟨p', hinsert, h'⟩ := @OfPrices.insert _ sqrt bits _ _ hwindow h x
  unfold Prices.foldPrice
  rw [hinsert]
  dsimp only
  split
  · have hcount : OfPrices window { p' with foldCount := p'.foldCount + 1 } (l ++ [x]) := h'
    rw [hcount.recenter]
    exact ⟨rfl, h'⟩
  · exact ⟨rfl, h'⟩

theorem OfPrices.call (hwindow : 1 ≤ window) {calls : List BaselineCall} (h : OfPrices window p (BaselineCall.sinceReseed calls))
    (c : BaselineCall) :
    (c.onPrices (.exact sqrt bits) window p).1 = .ok () ∧
      OfPrices window (c.onPrices (.exact sqrt bits) window p).2 (BaselineCall.sinceReseed (calls ++ [c])) := by
  rw [BaselineCall.sinceReseed, List.foldl_append]
  cases c with
  | fold x => exact h.foldPrice hwindow x
  | count n x => exact ⟨rfl, h⟩
  | reseed x =>
    refine OfPrices.foldPrice (l := []) hwindow ?_ x
    rw [OfPrices, lastItems_nil, exact_int, Int.cast_zero]
    exact .empty hwindow (Tracks.room h)

end Python

/-! ## The native baseline -/

section Native

variable {sqrt : ℚ → ℚ} {bits : Option ℚ → UInt64} {sl : FastSlot (Option ℚ)} {l : List ℚ}

/-- The baseline of the last prices of a list, on a native slot. -/
def OfSlot (window : Nat) (sl : FastSlot (Option ℚ)) (l : List ℚ) : Prop :=
  Tracks window sl.ring sl.n sl.head sl.mean sl.m2 (lastItems window l)

theorem OfSlot.replacedM2 (h : OfSlot window sl l) (x old : ℚ) :
    sl.replacedM2 (.exact sqrt bits) window (some x) (some old) =
      some (spread (lastItems window l) + (x - old) *
        ((x - (average (lastItems window l) + (x - old) / (window : ℚ))) + (old - average (lastItems window l)))) := by
  rw [FastSlot.replacedM2, h.exact.average, h.exact.spread, exact_invN, exact_sub, exact_mul, mul_one_div]
  rfl

theorem OfSlot.uncut (h : OfSlot window sl l) (hn : window ≤ sl.n) (x : ℚ) :
    ∃ old m2 : ℚ, sl.ring[sl.head]? = some (some old) ∧ sl.replacedM2 (.exact sqrt bits) window (some x) (some old) = some m2 ∧
      0 ≤ m2 ∧ (sl.insertPrice (.exact sqrt bits) window (some x)).m2 = some m2 := by
  obtain ⟨old, hold, hpos, -⟩ := Tracks.slide h hn x
  refine ⟨old, _, hold, h.replacedM2 x old, hpos, ?_⟩
  unfold FastSlot.insertPrice
  rw [if_pos hn, List.getD_eq_getElem?_getD, hold, Option.getD_some]
  change (if Floats.lt (.exact sqrt bits) (sl.replacedM2 (.exact sqrt bits) window (some x) (some old))
    (Floats.int (.exact sqrt bits) 0) then Floats.int (.exact sqrt bits) 0
      else sl.replacedM2 (.exact sqrt bits) window (some x) (some old)) = _
  rw [h.replacedM2, exact_cut hpos]

theorem OfSlot.insertPrice (hwindow : 1 ≤ window) (h : OfSlot window sl l) (x : ℚ) :
    OfSlot window (sl.insertPrice (.exact sqrt bits) window (some x)) (l ++ [x]) := by
  unfold FastSlot.insertPrice OfSlot
  rw [h.push hwindow x]
  by_cases hfull : window ≤ sl.n
  · obtain ⟨old, hold, hpos, hslide⟩ := Tracks.slide h hfull x
    rw [if_pos hfull, if_neg (Nat.not_lt.mpr hfull), List.getD_eq_getElem?_getD, hold, Option.getD_some]
    change Tracks window (sl.ring.set sl.head (some x)) sl.n (if sl.head + 1 ≥ window then 0 else sl.head + 1)
      (Floats.add (.exact sqrt bits) sl.mean (Floats.mul (.exact sqrt bits) (some (x - old)) (FastSlot.invN (.exact sqrt bits) window)))
      (if Floats.lt (.exact sqrt bits) (sl.replacedM2 (.exact sqrt bits) window (some x) (some old)) (Floats.int (.exact sqrt bits) 0) then
        Floats.int (.exact sqrt bits) 0 else sl.replacedM2 (.exact sqrt bits) window (some x) (some old)) _
    rw [h.replacedM2, exact_cut hpos, h.exact.average, exact_invN, exact_mul, mul_one_div]
    exact hslide
  · have hroom : sl.n < window := Nat.not_le.mp hfull
    rw [if_neg hfull, if_pos hroom]
    dsimp only
    rw [h.exact.average, h.exact.spread, exact_invN, exact_sub, exact_mul, mul_one_div]
    exact Tracks.grow h hroom x

/-- The mean and the deviations found anew from the window are those that were kept. -/
theorem OfSlot.recomputeStats (h : OfSlot window sl l) : sl.recomputeStats (.exact sqrt bits) = sl := by
  have hmean := Tracks.meanOfRing h sqrt bits
  obtain ⟨ys, hys, hperm⟩ := Tracks.used h
  have hm2 : Floats.sum (.exact sqrt bits) ((sl.ring.take sl.n).map (fun v =>
      Floats.mul (.exact sqrt bits) (Floats.sub (.exact sqrt bits) v sl.mean) (Floats.sub (.exact sqrt bits) v sl.mean))) = sl.m2 := by
    have hsquares : (ys.map some).map (fun v => Floats.mul (.exact sqrt bits) (Floats.sub (.exact sqrt bits) v sl.mean)
        (Floats.sub (.exact sqrt bits) v sl.mean)) = (ys.map (fun y => (y - average ys) ^ 2)).map some := by
      rw [h.exact.average, ← average_perm hperm, List.map_map, List.map_map]
      refine List.map_congr_left ?_
      intro y _
      rw [Function.comp_apply, Function.comp_apply, exact_sub, exact_mul, sq]
    rw [hys, hsquares, exact_sum, h.exact.spread, ← spread_perm hperm, spread]
  unfold FastSlot.recomputeStats
  split
  · rename_i hzero
    have hempty : lastItems window l = [] := List.eq_nil_of_length_eq_zero (h.exact.length.symm.trans hzero)
    have haverage : sl.mean = some 0 := by simpa [hempty, average] using h.exact.average
    have hspread : sl.m2 = some 0 := by simpa [hempty, spread] using h.exact.spread
    have hkept {mean m2 : Option ℚ} (hmean : sl.mean = mean) (hm2 : sl.m2 = m2) : { sl with mean := mean, m2 := m2 } = sl := by
      subst hmean hm2
      rfl
    rw [exact_int, Int.cast_zero]
    exact hkept haverage hspread
  · simp only [hmean, hm2]

theorem OfSlot.foldPrice (hwindow : 1 ≤ window) (h : OfSlot window sl l) (x : ℚ) :
    OfSlot window (sl.foldPrice (.exact sqrt bits) window (some x)) (l ++ [x]) := by
  have hinsert := @OfSlot.insertPrice _ sqrt bits _ _ hwindow h x
  unfold FastSlot.foldPrice
  dsimp only
  split
  · have hcount : OfSlot window { sl.insertPrice (.exact sqrt bits) window (some x) with foldCount := 0 } (l ++ [x]) := hinsert
    rw [hcount.recomputeStats]
    exact hinsert
  · exact hinsert

theorem OfSlot.call (hwindow : 1 ≤ window) {calls : List BaselineCall} (h : OfSlot window sl (BaselineCall.sinceReseed calls))
    (c : BaselineCall) : OfSlot window (c.onSlot (.exact sqrt bits) window sl) (BaselineCall.sinceReseed (calls ++ [c])) := by
  rw [BaselineCall.sinceReseed, List.foldl_append]
  cases c with
  | fold x => exact h.foldPrice hwindow x
  | count n x => exact h
  | reseed x =>
    refine OfSlot.foldPrice (l := []) hwindow ?_ x
    rw [OfSlot, lastItems_nil, exact_int, Int.cast_zero]
    exact .empty hwindow (Tracks.room h)

end Native

end Baseline

/-! ## Every run -/

/-- The Python baseline after some calls. -/
def BaselineCall.prices (F : Floats (Option ℚ)) (window : Nat) (calls : List BaselineCall) : Prices (Option ℚ) :=
  runFrom (fun p c => (c.onPrices F window p).2) (.new F window) calls

/-- The native baseline after some calls, of a slot with a ring that holds anything. -/
def BaselineCall.slot (F : Floats (Option ℚ)) (window : Nat) (ring : List (Option ℚ)) (calls : List BaselineCall) :
    FastSlot (Option ℚ) :=
  runFrom (BaselineCall.onSlot F window) (.zeroed F ring) calls

namespace Baseline

variable {window : Nat} {sqrt : ℚ → ℚ} {bits : Option ℚ → UInt64}

theorem ofPrices_run (hwindow : 1 ≤ window) (calls : List BaselineCall) :
    OfPrices window (BaselineCall.prices (.exact sqrt bits) window calls) (BaselineCall.sinceReseed calls) := by
  induction calls using List.reverseRecOn with
  | nil =>
    rw [OfPrices, BaselineCall.sinceReseed, List.foldl_nil, lastItems_nil, BaselineCall.prices, runFrom_nil, Prices.new, Floats.exact_int,
      Int.cast_zero]
    exact .empty hwindow (by simp)
  | append_singleton calls c ih =>
    rw [BaselineCall.prices, runFrom_append]
    exact (ih.call hwindow c).2

theorem ofSlot_run (hwindow : 1 ≤ window) {ring : List (Option ℚ)} (hring : window ≤ ring.length) (calls : List BaselineCall) :
    OfSlot window (BaselineCall.slot (.exact sqrt bits) window ring calls) (BaselineCall.sinceReseed calls) := by
  induction calls using List.reverseRecOn with
  | nil =>
    rw [OfSlot, BaselineCall.sinceReseed, List.foldl_nil, lastItems_nil, BaselineCall.slot, runFrom_nil, FastSlot.zeroed, Floats.exact_int,
      Int.cast_zero]
    exact .empty hwindow hring
  | append_singleton calls c ih =>
    rw [BaselineCall.slot, runFrom_append]
    exact ih.call hwindow c

end Baseline

/-- Both baselines have the last prices folded since they last started anew, as many as the window takes, with their mean and the sum
of the squared deviations from it. No call raises, a sum of squares is never below zero where it would be cut off there, and to find
the mean and the sum anew from the ring changes nothing. -/
theorem baseline_exact (sqrt : ℚ → ℚ) (bits : Option ℚ → UInt64) (window : Nat) (hwindow : 1 ≤ window) (calls : List BaselineCall) :
    (lastItems window (BaselineCall.sinceReseed calls)).length = min (BaselineCall.sinceReseed calls).length window ∧
    (∀ p, p = BaselineCall.prices (.exact sqrt bits) window calls →
      BaselineOf (lastItems window (BaselineCall.sinceReseed calls)) p.ring p.n p.head p.mean p.m2 ∧
      (∀ c : BaselineCall, (c.onPrices (.exact sqrt bits) window p).1 = .ok ()) ∧
      (∀ x : ℚ, window ≤ p.n → ∃ old m2 : ℚ, p.ring[p.head]? = some (some old) ∧
        p.replacedM2 (.exact sqrt bits) window (some x) (some old) = some m2 ∧ 0 ≤ m2 ∧
          (p.insert (.exact sqrt bits) window (some x)).map Prices.m2 = .ok (some m2)) ∧
      p.recenter (.exact sqrt bits) = (.ok (), { p with foldCount := 0 })) ∧
    (∀ ring : List (Option ℚ), window ≤ ring.length → ∀ sl, sl = BaselineCall.slot (.exact sqrt bits) window ring calls →
      BaselineOf (lastItems window (BaselineCall.sinceReseed calls)) sl.ring sl.n sl.head sl.mean sl.m2 ∧
      (∀ x : ℚ, window ≤ sl.n → ∃ old m2 : ℚ, sl.ring[sl.head]? = some (some old) ∧
        sl.replacedM2 (.exact sqrt bits) window (some x) (some old) = some m2 ∧ 0 ≤ m2 ∧
          (sl.insertPrice (.exact sqrt bits) window (some x)).m2 = some m2) ∧
      sl.recomputeStats (.exact sqrt bits) = sl) := by
  refine ⟨length_lastItems .., ?_, ?_⟩
  · rintro p rfl
    have h := @Baseline.ofPrices_run _ sqrt bits hwindow calls
    exact ⟨h.exact, fun c => (h.call hwindow c).1, fun x hn => h.uncut hn x, h.recenter⟩
  · rintro ring hring sl rfl
    have h := @Baseline.ofSlot_run _ sqrt bits hwindow _ hring calls
    exact ⟨h.exact, fun x hn => h.uncut hn x, h.recomputeStats⟩

/-- A window of two: of the prices one to four, with a new start at the second one, the last two are there. -/
theorem baseline_exact_four :
    BaselineOf [3, 4] [some 4, some 3] 2 1 (some (7 / 2)) (some (1 / 2)) ∧
      BaselineOf [3, 4] (BaselineCall.prices exactNumbers 2 [.fold 1, .reseed 2, .fold 3, .fold 4]).ring
        (BaselineCall.prices exactNumbers 2 [.fold 1, .reseed 2, .fold 3, .fold 4]).n
        (BaselineCall.prices exactNumbers 2 [.fold 1, .reseed 2, .fold 3, .fold 4]).head
        (BaselineCall.prices exactNumbers 2 [.fold 1, .reseed 2, .fold 3, .fold 4]).mean
        (BaselineCall.prices exactNumbers 2 [.fold 1, .reseed 2, .fold 3, .fold 4]).m2 := by
  have h := ((baseline_exact id (fun _ => 0) 2 (by decide) [.fold 1, .reseed 2, .fold 3, .fold 4]).2.1 _ rfl).1
  exact ⟨⟨by decide, rfl, by norm_num [average], by norm_num [spread, average]⟩, h⟩

end Mdrap
