import Mathlib.Algebra.BigOperators.Group.List.Basic
import Mathlib.Algebra.Order.BigOperators.Group.List
import Mathlib.Algebra.Order.Field.Basic
import Mathlib.Tactic.Linarith
import Mathlib.Tactic.Ring

/-!
# Sweeping lots

Lots have a price and a size. An amount is taken from them in their order, the first ones whole, until no more of it is left than some
tolerance. What is paid for a unit on average does not fall when more is taken from lots whose prices do not fall.
-/

namespace Lib

variable {K : Type*} [Field K] [LinearOrder K]

/-- What is taken of each lot: its price and the amount. -/
def sweep (tolerance : K) : K → List (K × K) → List (K × K)
  | _, [] => []
  | left, (price, size) :: lots =>
    if left ≤ tolerance then [] else (price, min left size) :: sweep tolerance (left - min left size) lots

/-- The sizes of lots together. -/
def amount (lots : List (K × K)) : K := (lots.map (·.2)).sum

/-- What lots cost together. -/
def cost (lots : List (K × K)) : K := (lots.map (fun lot => lot.1 * lot.2)).sum

/-- The lots that something is taken of. -/
def swept (tolerance left : K) (lots : List (K × K)) : List (K × K) := lots.take (sweep tolerance left lots).length

omit [LinearOrder K] in
@[simp] theorem amount_nil : amount ([] : List (K × K)) = 0 := rfl

omit [LinearOrder K] in
@[simp] theorem amount_cons (lot : K × K) (lots : List (K × K)) : amount (lot :: lots) = lot.2 + amount lots := List.sum_cons

omit [LinearOrder K] in
@[simp] theorem cost_nil : cost ([] : List (K × K)) = 0 := rfl

omit [LinearOrder K] in
@[simp] theorem cost_cons (lot : K × K) (lots : List (K × K)) : cost (lot :: lots) = lot.1 * lot.2 + cost lots := List.sum_cons

variable {tolerance left left' : K} {lots : List (K × K)}

@[simp] theorem sweep_nil : sweep tolerance left [] = [] := rfl

theorem sweep_of_le (h : left ≤ tolerance) : sweep tolerance left lots = [] := by
  cases lots with
  | nil => rfl
  | cons lot lots => exact if_pos h

theorem sweep_cons_of_lt (h : tolerance < left) (lot : K × K) :
    sweep tolerance left (lot :: lots) = (lot.1, min left lot.2) :: sweep tolerance (left - min left lot.2) lots :=
  if_neg (not_le.mpr h)

theorem swept_of_le (h : left ≤ tolerance) : swept tolerance left lots = [] := by
  rw [swept, sweep_of_le h]
  rfl

theorem swept_cons_of_lt (h : tolerance < left) (lot : K × K) :
    swept tolerance left (lot :: lots) = lot :: swept tolerance (left - min left lot.2) lots := by
  rw [swept, sweep_cons_of_lt h, List.length_cons, List.take_succ_cons]
  rfl

variable [IsStrictOrderedRing K]

theorem amount_nonneg (h : ∀ lot ∈ lots, 0 < lot.2) : 0 ≤ amount lots :=
  List.sum_nonneg (fun x hx => by
    obtain ⟨lot, hlot, rfl⟩ := List.mem_map.mp hx
    exact (h lot hlot).le)

omit [IsStrictOrderedRing K] in
/-- Something is taken of each lot that is swept. -/
theorem sweep_pos (htol : 0 ≤ tolerance) (hpos : ∀ lot ∈ lots, 0 < lot.2) : ∀ x ∈ sweep tolerance left lots, 0 < x.2 := by
  induction lots generalizing left with
  | nil => exact nofun
  | cons lot lots ih =>
    by_cases hstop : left ≤ tolerance
    · rw [sweep_of_le hstop]
      exact nofun
    · rw [sweep_cons_of_lt (not_le.mp hstop)]
      intro x hx
      rcases List.mem_cons.mp hx with rfl | hmem
      · exact lt_min (htol.trans_lt (not_le.mp hstop)) (hpos lot List.mem_cons_self)
      · exact ih (fun l hl => hpos l (List.mem_cons_of_mem _ hl)) x hmem

theorem amount_sweep_nonneg (htol : 0 ≤ tolerance) (hpos : ∀ lot ∈ lots, 0 < lot.2) : 0 ≤ amount (sweep tolerance left lots) := amount_nonneg (sweep_pos htol hpos)

/-- Not more is taken than there is, nor than is asked for. -/
theorem amount_sweep_le (hpos : ∀ lot ∈ lots, 0 < lot.2) (hleft : 0 ≤ left) :
    amount (sweep tolerance left lots) ≤ min left (amount lots) := by
  induction lots generalizing left with
  | nil => simpa using hleft
  | cons lot lots ih =>
    have hrest := fun l hl => hpos l (List.mem_cons_of_mem lot hl)
    by_cases hstop : left ≤ tolerance
    · rw [sweep_of_le hstop]
      exact le_min hleft (amount_nonneg hpos)
    · rw [sweep_cons_of_lt (not_le.mp hstop), amount_cons, amount_cons]
      have htail := le_min_iff.mp (ih hrest (sub_nonneg.mpr (min_le_left left lot.2)))
      refine le_min ?_ ?_
      · linarith [htail.1]
      · linarith [htail.2, min_le_right left lot.2]

/-- What is asked for is taken up to the tolerance, or everything is. -/
theorem le_amount_sweep (htol : 0 ≤ tolerance) (hpos : ∀ lot ∈ lots, 0 < lot.2) :
    min left (amount lots) - tolerance ≤ amount (sweep tolerance left lots) := by
  induction lots generalizing left with
  | nil =>
    have := min_le_right left (0 : K)
    simp only [amount_nil, sweep_nil]
    linarith
  | cons lot lots ih =>
    have hrest := fun l hl => hpos l (List.mem_cons_of_mem lot hl)
    by_cases hstop : left ≤ tolerance
    · rw [sweep_of_le hstop, amount_nil]
      linarith [min_le_left left (amount (lot :: lots))]
    · rw [sweep_cons_of_lt (not_le.mp hstop), amount_cons, amount_cons]
      have htail := @ih (left - min left lot.2) hrest
      have hmin : min left (lot.2 + amount lots) ≤ min left lot.2 + min (left - min left lot.2) (amount lots) := by
        rw [min_def left lot.2]
        split
        · rename_i hle
          rw [sub_self, min_eq_left (amount_nonneg hrest), add_zero]
          exact min_le_left ..
        · refine le_of_eq ?_
          rw [← min_add_add_left, add_sub_cancel]
      linarith

/-- Lots that are swept, apart from the last one, are taken whole, and what is taken comes from these. -/
theorem amount_swept (htol : 0 ≤ tolerance) (hpos : ∀ lot ∈ lots, 0 < lot.2) (hleft : 0 ≤ left) :
    amount (sweep tolerance left lots) ≤ amount (swept tolerance left lots) ∧
    (sweep tolerance left lots ≠ [] → amount (swept tolerance left lots).dropLast < amount (sweep tolerance left lots)) := by
  induction lots generalizing left with
  | nil => exact ⟨le_refl _, fun h => absurd rfl h⟩
  | cons lot lots ih =>
    have hrest := fun l hl => hpos l (List.mem_cons_of_mem lot hl)
    by_cases hstop : left ≤ tolerance
    · rw [sweep_of_le hstop, swept_of_le hstop]
      exact ⟨le_refl _, fun h => absurd rfl h⟩
    · have hlt := not_le.mp hstop
      obtain ⟨hle, hwhole⟩ := ih hrest (sub_nonneg.mpr (min_le_left left lot.2))
      rw [sweep_cons_of_lt hlt, swept_cons_of_lt hlt]
      refine ⟨?_, fun _ => ?_⟩
      · rw [amount_cons, amount_cons]
        exact add_le_add (min_le_right ..) hle
      · rw [amount_cons]
        by_cases hnone : sweep tolerance (left - min left lot.2) lots = []
        · rw [swept, hnone, amount_nil, add_zero]
          exact lt_min (htol.trans_lt hlt) (hpos lot List.mem_cons_self)
        · -- the first lot is taken whole, or nothing would be left for others
          have hall : min left lot.2 = lot.2 := by
            by_contra hpart
            refine hnone (sweep_of_le ?_)
            rw [(min_choice left lot.2).resolve_right hpart, sub_self]
            exact htol
          have hne : swept tolerance (left - min left lot.2) lots ≠ [] := by
            rw [swept]
            intro hnil
            rcases List.take_eq_nil_iff.mp hnil with hzero | hlots
            · exact hnone (List.eq_nil_of_length_eq_zero hzero)
            · exact hnone (by rw [hlots, sweep_nil])
          rw [List.dropLast_cons_of_ne_nil hne, amount_cons, hall]
          rw [hall] at hwhole hnone
          exact add_lt_add_right (hwhole hnone) _

/-! ## What it costs -/

/-- What is taken costs at least as much as at a price that no lot is below. -/
theorem le_cost {q : K} (hpos : ∀ lot ∈ lots, 0 < lot.2) (hq : ∀ lot ∈ lots, q ≤ lot.1) : q * amount lots ≤ cost lots := by
  induction lots with
  | nil => simp
  | cons lot lots ih =>
    rw [amount_cons, cost_cons, mul_add]
    exact add_le_add (mul_le_mul_of_nonneg_right (hq lot List.mem_cons_self) (hpos lot List.mem_cons_self).le)
      (ih (fun l hl => hpos l (List.mem_cons_of_mem _ hl)) (fun l hl => hq l (List.mem_cons_of_mem _ hl)))

/-- What is taken costs at most as much as at a price that no lot is above. -/
theorem cost_le {q : K} (hpos : ∀ lot ∈ lots, 0 < lot.2) (hq : ∀ lot ∈ lots, lot.1 ≤ q) : cost lots ≤ q * amount lots := by
  induction lots with
  | nil => simp
  | cons lot lots ih =>
    rw [amount_cons, cost_cons, mul_add]
    exact add_le_add (mul_le_mul_of_nonneg_right (hq lot List.mem_cons_self) (hpos lot List.mem_cons_self).le)
      (ih (fun l hl => hpos l (List.mem_cons_of_mem _ hl)) (fun l hl => hq l (List.mem_cons_of_mem _ hl)))

omit [IsStrictOrderedRing K] in
/-- The prices are those of the lots that are swept. -/
theorem prices_sweep (left : K) (lots : List (K × K)) :
    (sweep tolerance left lots).map (·.1) = (swept tolerance left lots).map (·.1) := by
  induction lots generalizing left with
  | nil => rfl
  | cons lot lots ih =>
    by_cases hstop : left ≤ tolerance
    · rw [sweep_of_le hstop, swept_of_le hstop]
    · rw [sweep_cons_of_lt (not_le.mp hstop), swept_cons_of_lt (not_le.mp hstop), List.map_cons, List.map_cons, ih]

omit [IsStrictOrderedRing K] in
theorem price_of_mem_sweep {x : K × K} (hx : x ∈ sweep tolerance left lots) :
    ∃ lot ∈ swept tolerance left lots, lot.1 = x.1 :=
  List.mem_map.mp (prices_sweep left lots ▸ List.mem_map_of_mem hx)

/-- There is a price between what was taken first and what is taken besides. -/
theorem exists_price_between (htol : 0 ≤ tolerance) (hpos : ∀ lot ∈ lots, 0 < lot.2)
    (hsorted : lots.Pairwise (fun a b => a.1 ≤ b.1)) {q : K} (hq : ∀ lot ∈ lots, q ≤ lot.1) (h : left ≤ left') :
    ∃ p, q ≤ p ∧ cost (sweep tolerance left lots) ≤ p * amount (sweep tolerance left lots) ∧
      p * (amount (sweep tolerance left' lots) - amount (sweep tolerance left lots)) ≤
        cost (sweep tolerance left' lots) - cost (sweep tolerance left lots) ∧
      amount (sweep tolerance left lots) ≤ amount (sweep tolerance left' lots) := by
  induction lots generalizing left left' q with
  | nil => exact ⟨q, le_refl _, by simp, by simp, le_refl _⟩
  | cons lot lots ih =>
    obtain ⟨hfirst, hrest⟩ := List.pairwise_cons.mp hsorted
    have hpos' := fun l hl => hpos l (List.mem_cons_of_mem lot hl)
    have hfloor : ∀ {r : K}, ∀ x ∈ sweep tolerance r lots, lot.1 ≤ x.1 := by
      intro r x hx
      obtain ⟨l, hl, hprice⟩ := price_of_mem_sweep hx
      exact hprice ▸ hfirst l (List.mem_of_mem_take hl)
    have hqlot := hq lot List.mem_cons_self
    by_cases hstop : left ≤ tolerance
    · -- nothing was taken first
      have hall : ∀ x ∈ sweep tolerance left' (lot :: lots), q ≤ x.1 := by
        intro x hx
        obtain ⟨l, hl, hprice⟩ := price_of_mem_sweep hx
        exact hprice ▸ hq l (List.mem_of_mem_take hl)
      refine ⟨q, le_refl _, ?_, ?_, ?_⟩
      · simp [sweep_of_le hstop]
      · simpa [sweep_of_le hstop] using le_cost (sweep_pos htol hpos) hall
      · simpa [sweep_of_le hstop] using amount_sweep_nonneg htol hpos
    · have hlt := not_le.mp hstop
      have hlt' := hlt.trans_le h
      simp only [sweep_cons_of_lt hlt, sweep_cons_of_lt hlt', amount_cons, cost_cons]
      have hmin : min left lot.2 ≤ min left' lot.2 := min_le_min_right _ h
      rcases le_total left lot.2 with hpart | hwhole
      · -- the first lot is enough
        have hnone : sweep tolerance (left - min left lot.2) lots = [] := by
          refine sweep_of_le ?_
          rw [min_eq_left hpart, sub_self]
          exact htol
        have hmore := le_cost (@sweep_pos K _ _ _ (left' - min left' lot.2) _ htol hpos') hfloor
        have hmoreNonneg := @amount_sweep_nonneg K _ _ _ (left' - min left' lot.2) _ _ htol hpos'
        rw [hnone, amount_nil, cost_nil]
        refine ⟨lot.1, hqlot, by linarith, by linarith, by linarith⟩
      · -- the first lot is taken whole, both times
        rw [min_eq_right hwhole, min_eq_right (hwhole.trans h)]
        obtain ⟨p, hp, hcost, hmore, hle⟩ := ih hpos' hrest (q := lot.1) hfirst (sub_le_sub_right h lot.2)
        have hsize := mul_le_mul_of_nonneg_right hp (hpos lot List.mem_cons_self).le
        refine ⟨p, hqlot.trans hp, by linarith, by linarith, by linarith⟩

/-- The price of a unit on average; a given one where nothing is taken. -/
def meanPrice (otherwise : K) (taken : List (K × K)) : K := if 0 < amount taken then cost taken / amount taken else otherwise

theorem meanPrice_mul_amount (htol : 0 ≤ tolerance) (hpos : ∀ lot ∈ lots, 0 < lot.2) (q : K) :
    meanPrice q (sweep tolerance left lots) * amount (sweep tolerance left lots) = cost (sweep tolerance left lots) := by
  unfold meanPrice
  split
  · rename_i hsome
    exact div_mul_cancel₀ _ hsome.ne'
  · rename_i hnone
    have hpositive := @sweep_pos K _ _ _ left _ htol hpos
    rcases hsweep : sweep tolerance left lots with _ | ⟨x, xs⟩
    · simp
    · rw [hsweep] at hnone hpositive
      have hxs := @amount_nonneg K _ _ xs _ (fun l hl => hpositive l (List.mem_cons_of_mem _ hl))
      rw [amount_cons] at hnone
      exact absurd (add_pos_of_pos_of_nonneg (hpositive x List.mem_cons_self) hxs) hnone

/-- The average price lies between the prices of the lots. -/
theorem meanPrice_bounds (htol : 0 ≤ tolerance) (hpos : ∀ lot ∈ lots, 0 < lot.2) {q r other : K}
    (hq : ∀ lot ∈ swept tolerance left lots, q ≤ lot.1) (hr : ∀ lot ∈ swept tolerance left lots, lot.1 ≤ r)
    (hother : q ≤ other ∧ other ≤ r) :
    q ≤ meanPrice other (sweep tolerance left lots) ∧ meanPrice other (sweep tolerance left lots) ≤ r := by
  unfold meanPrice
  split
  · rename_i hsome
    have hpositive := @sweep_pos K _ _ _ left _ htol hpos
    refine ⟨(le_div_iff₀ hsome).mpr (le_cost hpositive ?_), (div_le_iff₀ hsome).mpr (cost_le hpositive ?_)⟩
    · intro x hx
      obtain ⟨lot, hlot, hprice⟩ := price_of_mem_sweep hx
      exact hprice ▸ hq lot hlot
    · intro x hx
      obtain ⟨lot, hlot, hprice⟩ := price_of_mem_sweep hx
      exact hprice ▸ hr lot hlot
  · exact hother

/-- The average price does not fall when more is taken of lots whose prices do not fall. -/
theorem meanPrice_mono (htol : 0 ≤ tolerance) (hpos : ∀ lot ∈ lots, 0 < lot.2) (hsorted : lots.Pairwise (fun a b => a.1 ≤ b.1))
    {q : K} (hq : ∀ lot ∈ lots, q ≤ lot.1) (h : left ≤ left') :
    meanPrice q (sweep tolerance left lots) ≤ meanPrice q (sweep tolerance left' lots) := by
  obtain ⟨p, hp, hcost, hmore, hle⟩ := exists_price_between htol hpos hsorted hq h
  by_cases hsome : 0 < amount (sweep tolerance left lots)
  · have hsome' := hsome.trans_le hle
    unfold meanPrice
    rw [if_pos hsome, if_pos hsome', div_le_div_iff₀ hsome hsome']
    have hsub := sub_nonneg.mpr hle
    have hfirst := mul_le_mul_of_nonneg_right hcost hsub
    have hsecond := mul_le_mul_of_nonneg_left hmore hsome.le
    linarith
  · have hnone : meanPrice q (sweep tolerance left lots) = q := if_neg hsome
    rw [hnone]
    unfold meanPrice
    split
    · rename_i hsome'
      refine (le_div_iff₀ hsome').mpr (le_cost (sweep_pos htol hpos) ?_)
      intro x hx
      obtain ⟨lot, hlot, hprice⟩ := price_of_mem_sweep hx
      exact hprice ▸ hq lot (List.mem_of_mem_take hlot)
    · exact le_refl _

/-! ## The other way round -/

/-- Lots whose prices have the other sign. -/
def mirror (lots : List (K × K)) : List (K × K) := lots.map (fun lot => (-lot.1, lot.2))

omit [LinearOrder K] [IsStrictOrderedRing K] in
@[simp] theorem amount_mirror (lots : List (K × K)) : amount (mirror lots) = amount lots := by
  rw [amount, mirror, List.map_map]
  rfl

omit [LinearOrder K] [IsStrictOrderedRing K] in
@[simp] theorem cost_mirror (lots : List (K × K)) : cost (mirror lots) = -cost lots := by
  induction lots with
  | nil => simp [mirror]
  | cons lot lots ih =>
    rw [mirror, List.map_cons, cost_cons, cost_cons, neg_add, neg_mul]
    exact congrArg _ ih

omit [IsStrictOrderedRing K] in
theorem sweep_mirror (left : K) (lots : List (K × K)) : sweep tolerance left (mirror lots) = mirror (sweep tolerance left lots) := by
  induction lots generalizing left with
  | nil => rfl
  | cons lot lots ih =>
    have hcons : mirror (lot :: lots) = (-lot.1, lot.2) :: mirror lots := rfl
    by_cases hstop : left ≤ tolerance
    · rw [sweep_of_le hstop, sweep_of_le hstop]
      rfl
    · rw [hcons, sweep_cons_of_lt (not_le.mp hstop), sweep_cons_of_lt (not_le.mp hstop), ih]
      rfl

omit [IsStrictOrderedRing K] in
theorem meanPrice_mirror (other : K) (taken : List (K × K)) : meanPrice (-other) (mirror taken) = -meanPrice other taken := by
  unfold meanPrice
  rw [amount_mirror, cost_mirror]
  split
  · exact neg_div ..
  · rfl

/-- The average price does not rise when more is taken of lots whose prices do not rise. -/
theorem meanPrice_anti (htol : 0 ≤ tolerance) (hpos : ∀ lot ∈ lots, 0 < lot.2) (hsorted : lots.Pairwise (fun a b => b.1 ≤ a.1))
    {q : K} (hq : ∀ lot ∈ lots, lot.1 ≤ q) (h : left ≤ left') :
    meanPrice q (sweep tolerance left' lots) ≤ meanPrice q (sweep tolerance left lots) := by
  have hmirror := @meanPrice_mono K _ _ _ _ _ (mirror lots) _ htol ?_ ?_ (-q) ?_ h
  · rw [sweep_mirror, sweep_mirror, meanPrice_mirror, meanPrice_mirror] at hmirror
    exact neg_le_neg_iff.mp hmirror
  · intro lot hlot
    obtain ⟨x, hx, rfl⟩ := List.mem_map.mp hlot
    exact hpos x hx
  · exact List.pairwise_map.mpr (hsorted.imp (fun hle => neg_le_neg hle))
  · intro lot hlot
    obtain ⟨x, hx, rfl⟩ := List.mem_map.mp hlot
    exact neg_le_neg (hq x hx)

end Lib
