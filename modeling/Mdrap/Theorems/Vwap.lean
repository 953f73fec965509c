import Mdrap.Book.Depth
import Mdrap.Lemmas.Depth
import Mdrap.Lib.Sweep

/-!
# The price of an order

Over exact numbers, walking the book is a sweep of the lots of one side.
-/

namespace Mdrap

open Lib Floats

variable {sqrt : ℚ → ℚ} {bits : Option ℚ → UInt64}

/-! ## Levels as lots -/

/-- The price and the size of each level. -/
def lotsOf (levels : List (DepthLevel (Option ℚ))) : List (ℚ × ℚ) := levels.map (fun l => (l.price.getD 0, l.size.getD 0))

/-- The tolerance of a fill. -/
def fillEpsilon : ℚ := 1 * 10 ^ (-9 : ℤ)

theorem fillEpsilon_nonneg : 0 ≤ fillEpsilon := by
  unfold fillEpsilon
  positivity

theorem fillTolerance_exact : fillTolerance (Floats.exact sqrt bits) = some fillEpsilon := by
  simp [fillTolerance, fillEpsilon, Floats.exact]

/-- A level that was read has a price and a size above zero. -/
theorem DepthLevel.IsRead.exact {l : DepthLevel (Option ℚ)} (h : l.IsRead (Floats.exact sqrt bits)) :
    ∃ p s, l.price = some p ∧ l.size = some s ∧ 0 < p ∧ 0 < s := by
  obtain ⟨hprice, hsize, hp, hs⟩ := h
  obtain ⟨p, hpriceEq⟩ := Option.isSome_iff_exists.mp hprice
  obtain ⟨s, hsizeEq⟩ := Option.isSome_iff_exists.mp hsize
  rw [hpriceEq, exact_int, exact_lt, decide_eq_true_eq, Int.cast_zero] at hp
  rw [hsizeEq, exact_int, exact_lt, decide_eq_true_eq, Int.cast_zero] at hs
  exact ⟨p, s, hpriceEq, hsizeEq, hp, hs⟩

section Levels

variable {levels : List (DepthLevel (Option ℚ))} (h : ∀ l ∈ levels, l.IsRead (Floats.exact sqrt bits))

include h

theorem lotsOf_pos : ∀ lot ∈ lotsOf levels, 0 < lot.1 ∧ 0 < lot.2 := by
  intro lot hlot
  obtain ⟨l, hl, rfl⟩ := List.mem_map.mp hlot
  obtain ⟨p, s, hp, hs, hpos⟩ := (h l hl).exact
  rw [hp, hs]
  exact hpos

/-- The lots of sorted levels are sorted. -/
theorem lotsOf_sortLevels (isDescending : Bool) :
    (lotsOf (sortLevels (Floats.exact sqrt bits) isDescending levels)).Pairwise
      (fun a b => if isDescending then b.1 ≤ a.1 else a.1 ≤ b.1) := by
  have hlt : ∀ a ∈ levels, ∀ b ∈ levels,
      ((Floats.exact sqrt bits).lt a.price b.price = false ↔ b.price.getD 0 ≤ a.price.getD 0) := by
    intro a ha b hb
    obtain ⟨p, -, hp, -⟩ := (h a ha).exact
    obtain ⟨q, -, hq, -⟩ := (h b hb).exact
    rw [hp, hq, exact_lt, decide_eq_false_iff_not, not_lt]
    rfl
  have htotal : Std.Total (fun a b : ℚ × ℚ => if isDescending then b.1 ≤ a.1 else a.1 ≤ b.1) := by
    refine ⟨fun a b => ?_⟩
    cases isDescending with
    | false => exact le_total a.1 b.1
    | true => exact le_total b.1 a.1
  have htrans : IsTrans (ℚ × ℚ) (fun a b : ℚ × ℚ => if isDescending then b.1 ≤ a.1 else a.1 ≤ b.1) := by
    refine ⟨fun a b c hab hbc => ?_⟩
    cases isDescending with
    | false => exact le_trans hab hbc
    | true => exact le_trans hbc hab
  have hrel : ∀ a ∈ levels, ∀ b ∈ levels, ((if isDescending then (Floats.exact sqrt bits).lt a.price b.price = false
      else (Floats.exact sqrt bits).lt b.price a.price = false) ↔
        if isDescending then b.price.getD 0 ≤ a.price.getD 0 else a.price.getD 0 ≤ b.price.getD 0) := by
    intro a ha b hb
    cases isDescending with
    | false => exact hlt b hb a ha
    | true => exact hlt a ha b hb
  have hmap := List.map_insertionSort _ (fun a b : ℚ × ℚ => if isDescending then b.1 ≤ a.1 else a.1 ≤ b.1)
    (fun l : DepthLevel (Option ℚ) => (l.price.getD 0, l.size.getD 0)) levels hrel
  unfold lotsOf sortLevels
  rw [hmap]
  exact List.pairwise_insertionSort _ _

end Levels

/-! ## The walk -/

/-- Some sizes of venues, and their sum. -/
def SumsTo (venues : Dict String (Option ℚ)) (total : ℚ) : Prop :=
  venues.Distinct ∧ ∃ sizes : List ℚ, venues.values = sizes.map some ∧ sizes.sum = total

theorem SumsTo.set {venues : Dict String (Option ℚ)} {total : ℚ} (h : SumsTo venues total) (venue : String) (fill : ℚ) :
    SumsTo (venues.set venue ((Floats.exact sqrt bits).add
      ((venues.get? venue).getD ((Floats.exact sqrt bits).int 0)) (some fill))) (total + fill) := by
  obtain ⟨hd, sizes, hsizes, hsum⟩ := h
  refine ⟨hd.set _ _, ?_⟩
  rcases hold : venues.get? venue with _ | size
  · refine ⟨sizes ++ [fill], ?_, by simp [hsum]⟩
    rw [Dict.values, Dict.items_set_of_none hold, List.map_append, List.map_append, ← hsizes, Option.getD_none, exact_int, exact_add]
    simp [Dict.values]
  · obtain ⟨l, r, hitems, hset, -⟩ := hd.split hold
    rw [Dict.values, hitems, List.map_append, List.map_cons] at hsizes
    obtain ⟨ls, rest, hsplit, hl, hrest⟩ := List.map_eq_append_iff.mp hsizes.symm
    obtain ⟨x, rs, hcons, hx, hr⟩ := List.map_eq_cons_iff.mp hrest
    subst hsplit hcons
    refine ⟨ls ++ (x + fill) :: rs, ?_, ?_⟩
    · have hsize : size = some x := hx.symm
      rw [Dict.values, hset, List.map_append, List.map_cons, List.map_append, List.map_cons, hl, hr, Option.getD_some, hsize,
        exact_add]
    · rw [← hsum]
      simp only [List.sum_append, List.sum_cons]
      ring

/-- Walking levels is sweeping their lots. -/
theorem walkBook_exact {levels : List (DepthLevel (Option ℚ))} (h : ∀ l ∈ levels, l.IsRead (Floats.exact sqrt bits)) (left c : ℚ)
    {venues : Dict String (Option ℚ)} {total : ℚ} (hvenues : SumsTo venues total) :
    ∃ venues', walkBook (Floats.exact sqrt bits) ⟨some left, some c, venues⟩ levels =
        ⟨some (left - amount (sweep fillEpsilon left (lotsOf levels))),
          some (c + cost (sweep fillEpsilon left (lotsOf levels))), venues'⟩ ∧
      SumsTo venues' (total + amount (sweep fillEpsilon left (lotsOf levels))) := by
  induction levels generalizing left c venues total with
  | nil => exact ⟨venues, by simp [walkBook, lotsOf], by simpa [lotsOf] using hvenues⟩
  | cons l levels ih =>
    obtain ⟨p, s, hp, hs, -⟩ := (h l List.mem_cons_self).exact
    have hlots : lotsOf (l :: levels) = (p, s) :: lotsOf levels := by
      rw [lotsOf, List.map_cons, hp, hs]
      rfl
    have hle : (Floats.exact sqrt bits).le (some left) (some fillEpsilon) = true ↔ left ≤ fillEpsilon := by
      rw [exact_le, decide_eq_true_eq]
    rw [hlots, walkBook, fillTolerance_exact]
    by_cases hstop : left ≤ fillEpsilon
    · rw [if_pos (hle.mpr hstop), sweep_of_le hstop]
      exact ⟨venues, by simp, by simpa using hvenues⟩
    · have hfill : (if (Floats.exact sqrt bits).lt l.size (some left) = true then l.size else some left) = some (min left s) := by
        have hlt : (Floats.exact sqrt bits).lt (some s) (some left) = true ↔ s < left := by rw [exact_lt, decide_eq_true_eq]
        rw [hs]
        by_cases hwhole : s < left
        · rw [if_pos (hlt.mpr hwhole), min_eq_right hwhole.le]
        · rw [if_neg (mt hlt.mp hwhole), min_eq_left (not_lt.mp hwhole)]
      rw [if_neg (mt hle.mp hstop), sweep_cons_of_lt (not_le.mp hstop)]
      dsimp only
      rw [hfill, hp, exact_sub, exact_mul, exact_add]
      obtain ⟨venues', hwalk, hsums⟩ := ih (fun x hx => h x (List.mem_cons_of_mem _ hx)) (left - min left s)
        (c + p * min left s) (hvenues.set l.venue (min left s))
      refine ⟨venues', ?_, ?_⟩
      · rw [hwalk, amount_cons, cost_cons, sub_sub, add_assoc]
      · rw [amount_cons, ← add_assoc]
        exact hsums

/-! ## The slice -/

/-- A slice fills an order from lots, up to the tolerance, at a price on average between the best lot and the last one that is used, and
says what comes from each venue. -/
structure VWAPSlice.Fills (F : Floats (Option ℚ)) (lots : List (ℚ × ℚ)) (target filled vwap : ℚ) (s : VWAPSlice (Option ℚ)) : Prop where
  filledSize : s.filledSize = some filled
  vwapPrice : s.vwapPrice = some vwap
  filled_le : filled ≤ min target (amount lots)
  le_filled : min target (amount lots) - fillEpsilon ≤ filled
  venues : F.sum s.venueBreakdown.values = some filled
  notional : s.totalNotional = some (vwap * filled)
  between : ∃ used, used <+: lots ∧ filled ≤ amount used ∧ (used ≠ [] → amount used.dropLast < filled) ∧
    ∀ best ∈ lots.head?, (used = [] → vwap = best.1) ∧
      ∀ worst ∈ used.getLast?, min best.1 worst.1 ≤ vwap ∧ vwap ≤ max best.1 worst.1

/-- The elements of a sorted list lie between its ends. -/
theorem between_ends {xs : List (ℚ × ℚ)} {isDescending : Bool}
    (h : xs.Pairwise (fun a b => if isDescending then b.1 ≤ a.1 else a.1 ≤ b.1)) {first last : ℚ × ℚ}
    (hfirst : first ∈ xs.head?) (hlast : last ∈ xs.getLast?) :
    ∀ x ∈ xs, min first.1 last.1 ≤ x.1 ∧ x.1 ≤ max first.1 last.1 := by
  intro x hx
  obtain ⟨tail, htail⟩ := List.head?_eq_some_iff.mp hfirst
  obtain ⟨front, hfront⟩ := List.getLast?_eq_some_iff.mp hlast
  have hlow : x = first ∨ (if isDescending then x.1 ≤ first.1 else first.1 ≤ x.1) := by
    rw [htail] at hx h
    exact (List.mem_cons.mp hx).imp_right (fun hmem => (List.pairwise_cons.mp h).1 x hmem)
  have hhigh : x = last ∨ (if isDescending then last.1 ≤ x.1 else x.1 ≤ last.1) := by
    rw [hfront] at hx h
    rcases List.mem_append.mp hx with hmem | hmem
    · exact .inr ((List.pairwise_append.mp h).2.2 x hmem last List.mem_cons_self)
    · exact .inl (List.mem_singleton.mp hmem)
  rcases hlow with rfl | hlow
  · exact ⟨min_le_left .., le_max_left ..⟩
  · rcases hhigh with rfl | hhigh
    · exact ⟨min_le_right .., le_max_right ..⟩
    · cases isDescending with
      | false => exact ⟨(min_le_left ..).trans hlow, hhigh.trans (le_max_right ..)⟩
      | true => exact ⟨(min_le_right ..).trans hhigh, hlow.trans (le_max_left ..)⟩

section Compute

variable {upper : String → String} {side : String} {l : ConsolidatedLadder (Option ℚ)} {levels : List (DepthLevel (Option ℚ))}

/-- What is computed for an order of some size. -/
theorem computeVwap_fills (hside : upper side = "BUY" ∨ upper side = "SELL")
    (hlevels : (if upper side = "BUY" then l.asks else l.bids) = levels)
    (hread : ∀ x ∈ levels, x.IsRead (Floats.exact sqrt bits)) {isDescending : Bool}
    (hsorted : (lotsOf levels).Pairwise (fun a b => if isDescending then b.1 ≤ a.1 else a.1 ≤ b.1)) {best : ℚ × ℚ}
    (hbest : best ∈ (lotsOf levels).head?) {t : ℚ} (ht : 0 < t) :
    ∃ slice, l.computeVwap (Floats.exact sqrt bits) upper side (some t) = .ok slice ∧
      slice.Fills (Floats.exact sqrt bits) (lotsOf levels) t (amount (sweep fillEpsilon t (lotsOf levels)))
        (meanPrice best.1 (sweep fillEpsilon t (lotsOf levels))) := by
  have hpos : ∀ lot ∈ lotsOf levels, 0 < lot.2 := fun lot hlot => (lotsOf_pos hread lot hlot).2
  have htarget : ¬(¬(Floats.exact sqrt bits).isFinite (some t) = true ∨
      (Floats.exact sqrt bits).le (some t) ((Floats.exact sqrt bits).int 0) = true) := by
    rw [exact_int, exact_le, decide_eq_true_eq, Int.cast_zero]
    rintro (hfinite | hle)
    · exact hfinite rfl
    · exact absurd ht (not_lt.mpr hle)
  have hsideOk : ¬(upper side ≠ "BUY" ∧ upper side ≠ "SELL") := fun hno => hside.elim hno.1 hno.2
  obtain ⟨venues, hwalk, hvenues, sizes, hsizes, hsum⟩ := @walkBook_exact _ _ _ hread t 0 .empty 0
    ⟨Dict.distinct_empty, [], rfl, rfl⟩
  have hbestPrice : bestPrice (Floats.exact sqrt bits) levels = some best.1 := by
    unfold lotsOf at hbest
    rw [List.head?_map] at hbest
    obtain ⟨x, hx, rfl⟩ := Option.map_eq_some_iff.mp hbest
    obtain ⟨p, s, hp, hs, -⟩ := (hread x (List.mem_of_mem_head? hx)).exact
    rw [bestPrice, hx, Option.map_some, Option.getD_some, hp]
    rfl
  have hzero : (Floats.exact sqrt bits).int 0 = some 0 := by rw [exact_int, Int.cast_zero]
  have hfilled : (Floats.exact sqrt bits).sub (some t) (some (t - amount (sweep fillEpsilon t (lotsOf levels)))) =
      some (amount (sweep fillEpsilon t (lotsOf levels))) := by
    rw [exact_sub, sub_sub_cancel]
  unfold ConsolidatedLadder.computeVwap
  dsimp only
  rw [if_neg hsideOk, if_neg htarget, hlevels, hzero, hwalk, hbestPrice]
  dsimp only
  rw [hfilled]
  refine ⟨_, rfl, rfl, ?_, amount_sweep_le hpos ht.le, le_amount_sweep fillEpsilon_nonneg hpos, ?_, ?_, ?_⟩
  · -- the price on average
    have hlt : (Floats.exact sqrt bits).lt (some 0) (some (amount (sweep fillEpsilon t (lotsOf levels)))) = true ↔
        0 < amount (sweep fillEpsilon t (lotsOf levels)) := by rw [exact_lt, decide_eq_true_eq]
    unfold meanPrice
    by_cases hsome : 0 < amount (sweep fillEpsilon t (lotsOf levels))
    · rw [if_pos (hlt.mpr hsome), if_pos hsome, exact_div, zero_add]
    · rw [if_neg (mt hlt.mp hsome), if_neg hsome]
  · rw [hsizes, exact_sum, hsum, zero_add]
  · rw [zero_add, meanPrice_mul_amount fillEpsilon_nonneg hpos]
  · obtain ⟨hle, hwhole⟩ := @amount_swept _ _ _ _ t _ _ fillEpsilon_nonneg hpos ht.le
    refine ⟨swept fillEpsilon t (lotsOf levels), List.take_prefix .., hle, fun hne => hwhole ?_, ?_⟩
    · rintro hnil
      exact hne (by rw [swept, hnil]; rfl)
    · intro best' hbest'
      obtain rfl := Option.some.inj (hbest.symm.trans hbest')
      constructor
      · intro hnone
        have hlots : lotsOf levels ≠ [] := fun hnil => by rw [hnil] at hbest; cases hbest
        have hnil := List.eq_nil_of_length_eq_zero ((List.take_eq_nil_iff.mp hnone).resolve_right hlots)
        rw [hnil]
        exact if_neg (lt_irrefl 0)
      · intro worst hworst
        have hsublist : (swept fillEpsilon t (lotsOf levels)).Sublist (lotsOf levels) := List.take_sublist ..
        have hfirst : best ∈ (swept fillEpsilon t (lotsOf levels)).head? := by
          obtain ⟨tail, htail⟩ := List.head?_eq_some_iff.mp hbest
          have hused := List.ne_nil_of_mem (List.mem_of_getLast? hworst)
          rw [swept, htail] at hused ⊢
          rcases hn : (sweep fillEpsilon t (best :: tail)).length with _ | n
          · exact absurd (by rw [hn, List.take_zero]) hused
          · rw [List.take_succ_cons]
            rfl
        have hbetween := between_ends (hsorted.sublist hsublist) hfirst hworst
        exact meanPrice_bounds fillEpsilon_nonneg hpos (fun x hx => (hbetween x hx).1) (fun x hx => (hbetween x hx).2)
          ⟨min_le_left .., le_max_left ..⟩

/-- What is computed for orders of two sizes: the price on average moves away from the best one. -/
theorem computeVwap_pair (hside : upper side = "BUY" ∨ upper side = "SELL")
    (hlevels : (if upper side = "BUY" then l.asks else l.bids) = levels)
    (hread : ∀ x ∈ levels, x.IsRead (Floats.exact sqrt bits))
    (hsorted : (lotsOf levels).Pairwise (fun a b => if !decide (upper side = "BUY") then b.1 ≤ a.1 else a.1 ≤ b.1))
    (hne : levels ≠ []) {s t : ℚ} (hs : 0 < s) (hst : s ≤ t) :
    ∃ a filledA vwapA b filledB vwapB,
      l.computeVwap (Floats.exact sqrt bits) upper side (some s) = .ok a ∧
        a.Fills (Floats.exact sqrt bits) (lotsOf levels) s filledA vwapA ∧
        l.computeVwap (Floats.exact sqrt bits) upper side (some t) = .ok b ∧
        b.Fills (Floats.exact sqrt bits) (lotsOf levels) t filledB vwapB ∧
        if upper side = "BUY" then vwapA ≤ vwapB else vwapB ≤ vwapA := by
  have hpos : ∀ lot ∈ lotsOf levels, 0 < lot.2 := fun lot hlot => (lotsOf_pos hread lot hlot).2
  obtain ⟨best, tail, hlots⟩ := List.exists_cons_of_ne_nil (mt List.map_eq_nil_iff.mp hne : lotsOf levels ≠ [])
  have hbest : best ∈ (lotsOf levels).head? := by
    rw [hlots]
    rfl
  obtain ⟨a, ha, hfillsA⟩ := computeVwap_fills hside hlevels hread hsorted hbest hs
  obtain ⟨b, hb, hfillsB⟩ := computeVwap_fills hside hlevels hread hsorted hbest (hs.trans_le hst)
  refine ⟨a, _, _, b, _, _, ha, hfillsA, hb, hfillsB, ?_⟩
  have hfirst : ∀ lot ∈ lotsOf levels, lot = best ∨ (if !decide (upper side = "BUY") then lot.1 ≤ best.1 else best.1 ≤ lot.1) := by
    intro lot hlot
    rw [hlots] at hlot hsorted
    exact (List.mem_cons.mp hlot).imp_right (fun hmem => (List.pairwise_cons.mp hsorted).1 lot hmem)
  by_cases hbuy : upper side = "BUY"
  · simp only [hbuy, decide_true, Bool.not_true, Bool.false_eq_true, if_false] at hsorted hfirst
    rw [if_pos hbuy]
    refine meanPrice_mono fillEpsilon_nonneg hpos hsorted ?_ hst
    intro lot hlot
    rcases hfirst lot hlot with rfl | hle
    · exact le_refl _
    · exact hle
  · simp only [hbuy, decide_false, Bool.not_false, if_true] at hsorted hfirst
    rw [if_neg hbuy]
    refine meanPrice_anti fillEpsilon_nonneg hpos hsorted ?_ hst
    intro lot hlot
    rcases hfirst lot hlot with rfl | hle
    · exact le_refl _
    · exact hle

end Compute

open DepthEngine in
/-- The best levels of a side that was read are read and sorted. -/
theorem topLevels_exact {n : Nat} {isDescending : Bool} {levels : List (DepthLevel (Option ℚ))}
    (h : ∀ x ∈ levels, x.IsRead (Floats.exact sqrt bits)) :
    (∀ x ∈ (topLevels (Floats.exact sqrt bits) n isDescending levels).2, x.IsRead (Floats.exact sqrt bits)) ∧
      (lotsOf (topLevels (Floats.exact sqrt bits) n isDescending levels).2).Pairwise
        (fun a b => if isDescending then b.1 ≤ a.1 else a.1 ≤ b.1) :=
  ⟨fun x hx => h x (mem_topLevels hx), lotsOf_sortLevels (fun x hx => h x (List.mem_of_mem_filter hx)) isDescending⟩

/-- What orders of two sizes come to on a ladder that the engine returns: each is filled from the lots of its side, and the larger one
at a price that is no better. -/
theorem vwap_walks_book (sqrt : ℚ → ℚ) (bits : Option ℚ → UInt64) (upper : String → String) (e : DepthEngine (Option ℚ))
    (event : DepthInput (Option ℚ)) (active : Bool) (stillActive : String → Bool) (l : ConsolidatedLadder (Option ℚ))
    (hl : (e.observe (.exact sqrt bits) upper event active stillActive).1 = .ladder l) (side : String)
    (hside : upper side = "BUY" ∨ upper side = "SELL") (s t : ℚ) (hs : 0 < s) (hst : s ≤ t) :
    ∃ lots : List (ℚ × ℚ),
      (if upper side = "BUY" then l.asks else l.bids).map (fun x => (x.price, x.size)) = lots.map (fun x => (some x.1, some x.2)) ∧
        ∃ a filledA vwapA b filledB vwapB,
          l.computeVwap (.exact sqrt bits) upper side (some s) = .ok a ∧ a.Fills (.exact sqrt bits) lots s filledA vwapA ∧
            l.computeVwap (.exact sqrt bits) upper side (some t) = .ok b ∧ b.Fills (.exact sqrt bits) lots t filledB vwapB ∧
            if upper side = "BUY" then vwapA ≤ vwapB else vwapB ≤ vwapA := by
  obtain ⟨n, allBids, allAsks, hbidsRead, hasksRead, hbids, hasks, hbidsNe, hasksNe⟩ := observe_ladder hl
  obtain ⟨levels, hlevels⟩ : ∃ levels, (if upper side = "BUY" then l.asks else l.bids) = levels := ⟨_, rfl⟩
  have hside' : (∀ x ∈ levels, x.IsRead (Floats.exact sqrt bits)) ∧
      (lotsOf levels).Pairwise (fun a b => if !decide (upper side = "BUY") then b.1 ≤ a.1 else a.1 ≤ b.1) ∧ levels ≠ [] := by
    by_cases hbuy : upper side = "BUY"
    · rw [if_pos hbuy] at hlevels
      obtain ⟨hread, hsorted⟩ := @topLevels_exact _ _ n false _ hasksRead
      rw [← hlevels, decide_eq_true hbuy]
      exact ⟨hasks ▸ hread, hasks ▸ hsorted, hasksNe⟩
    · rw [if_neg hbuy] at hlevels
      obtain ⟨hread, hsorted⟩ := @topLevels_exact _ _ n true _ hbidsRead
      rw [← hlevels, decide_eq_false hbuy]
      exact ⟨hbids ▸ hread, hbids ▸ hsorted, hbidsNe⟩
  obtain ⟨hread, hsorted, hne⟩ := hside'
  refine ⟨lotsOf levels, ?_, computeVwap_pair hside hlevels hread hsorted hne hs hst⟩
  rw [hlevels, lotsOf, List.map_map]
  refine List.map_congr_left (fun x hx => ?_)
  obtain ⟨p, q, hp, hq, -⟩ := (hread x hx).exact
  rw [Function.comp_apply, hp, hq]
  rfl

/-- Orders of one and of two units on the ladder of a single quote. -/
theorem vwap_walks_book_quote :
    ∃ l a filledA vwapA b filledB vwapB,
      ((DepthEngine.new (some 3) 10 2000).observe depthFloats id (depthQuoteAt 1 "X" (some 101)).event true
          (fun _ => true)).1 = .ladder l ∧
        l.computeVwap depthFloats id "BUY" (some 1) = .ok a ∧ a.vwapPrice = some vwapA ∧ a.filledSize = some filledA ∧
        l.computeVwap depthFloats id "BUY" (some 2) = .ok b ∧ b.vwapPrice = some vwapB ∧ b.filledSize = some filledB ∧
        vwapA ≤ vwapB := by
  have hsome : (match ((DepthEngine.new (some 3) 10 2000).observe depthFloats id (depthQuoteAt 1 "X" (some 101)).event true
      (fun _ => true)).1 with
    | .ladder _ => true
    | _ => false) = true := by decide +kernel
  rcases hl : ((DepthEngine.new (some 3) 10 2000).observe depthFloats id (depthQuoteAt 1 "X" (some 101)).event true
      (fun _ => true)).1 with _ | _ | l
  · rw [hl] at hsome
    cases hsome
  · rw [hl] at hsome
    cases hsome
  · obtain ⟨lots, -, a, filledA, vwapA, b, filledB, vwapB, ha, hfillsA, hb, hfillsB, hle⟩ :=
      vwap_walks_book id (fun _ => 0) id _ _ true (fun _ => true) l hl "BUY" (.inl rfl) 1 2 (by decide) (by decide)
    exact ⟨l, a, filledA, vwapA, b, filledB, vwapB, rfl, ha, hfillsA.vwapPrice, hfillsA.filledSize, hb, hfillsB.vwapPrice,
      hfillsB.filledSize, hle⟩

end Mdrap
