import Mdrap.Theorems.Mbo

/-!
# Resting orders have a size and a price

`order_add` looks at what it is given before it rounds, and `order_modify` does not look at a price. Apart from that a resting order
keeps a size and a price above zero: an execution takes an order out when next to nothing remains.
-/

namespace Mdrap

open Lib

/-- An order with a size and a price. -/
def RestingOrder.Positive (o : RestingOrder) : Prop := 0 < o.size ∧ 0 < o.price

theorem forall_update_iff {P : RestingOrder → Prop} {get : Lookup} {id : String} {o : Option RestingOrder}
    (h : ∀ id o, get id = some o → P o) :
    (∀ id' o', Function.update get id o id' = some o' → P o') ↔ ∀ o' ∈ o, P o' := by
  constructor
  · intro hall o' ho'
    exact hall id o' (by rw [Function.update_self]; exact ho')
  · intro hone id' o' hget
    by_cases hid : id' = id
    · subst hid
      rw [Function.update_self] at hget
      exact hone o' hget
    · rw [Function.update_of_ne hid] at hget
      exact h id' o' hget

namespace OrderBookMBO

/-- Every resting order has a size and a price, and every queue a price. -/
structure WellFormed (b : OrderBookMBO) : Prop where
  orders : ∀ id o, b.orders.get? id = some o → o.Positive
  levels : ∀ bid price q, (b.book bid).get? price = some q → 0 < price

/-- What is left of a call's numbers when they are rounded is above zero: of the price and the size of a new order, and of the price
that an order is moved to. -/
def StaysPositive (b : OrderBookMBO) : MboCall → Prop
  | .add orderId _ price size _ => ¬b.orders.contains orderId → 0 < price → 0 < size → 0 < round4 price ∧ 0 < round4 size
  | .modify orderId newSize newPrice => b.orders.contains orderId → 0 < round4 newSize → ∀ price ∈ newPrice, 0 < round4 price
  | .cancel _ => True
  | .execute _ _ => True

/-- The book agrees with itself, and the prices are on the grid. -/
def SoundOnGrid (b : OrderBookMBO) : Prop := b.Sound ∧ ∀ id o, b.orders.get? id = some o → OnGrid o.price

variable {b : OrderBookMBO}

/-- The queues have prices when their orders do. -/
theorem Sound.wellFormed_iff (h : b.Sound) : b.WellFormed ↔ ∀ id o, b.orders.get? id = some o → o.Positive := by
  refine ⟨WellFormed.orders, fun horders => ⟨horders, ?_⟩⟩
  intro bid price q hq
  obtain ⟨hqueue, hne⟩ := h.agree.levels (bid, price) q hq
  obtain ⟨id, hid⟩ := List.exists_mem_of_ne_nil _ hne
  obtain ⟨o, ho, -, hprice⟩ := hqueue.own id hid
  have hpos := (horders id o ho).2
  rwa [hprice] at hpos

theorem modified_price_onGrid {o o' : RestingOrder} (ho : OnGrid o.price) {newSize : ℚ} {newPrice : Option ℚ}
    (h : b.modified o newSize newPrice = some o') : OnGrid o'.price := by
  unfold modified at h
  split at h
  · cases h
  · split at h
    · cases h
      exact ho
    · cases h
      cases newPrice with
      | none => exact ho
      | some price => exact .round4 price

theorem SoundOnGrid.step (upper : String → String) (h : b.SoundOnGrid) (c : MboCall) : (b.step upper c).SoundOnGrid := by
  refine ⟨h.1.step upper c, ?_⟩
  cases c with
  | add orderId side price size venue =>
    simp only [OrderBookMBO.step, get?_orderAdd]
    split
    · exact h.2
    · exact (forall_update_iff h.2).mpr (fun o' ho' => Option.some.inj ho' ▸ OnGrid.round4 price)
  | modify orderId newSize newPrice =>
    rcases ho : b.orders.get? orderId with _ | o
    · simp only [OrderBookMBO.step, orderModify_of_none ho]
      exact h.2
    · simp only [OrderBookMBO.step, get?_orderModify ho]
      exact (forall_update_iff h.2).mpr (fun o' ho' => modified_price_onGrid (h.2 orderId o ho) ho')
  | cancel orderId =>
    simp only [OrderBookMBO.step, get?_orderCancel]
    exact (forall_update_iff h.2).mpr (fun _ hnone => by cases hnone)
  | execute orderId filledSize =>
    rcases ho : b.orders.get? orderId with _ | o
    · simp only [OrderBookMBO.step, orderExecute_of_none ho]
      exact h.2
    · simp only [OrderBookMBO.step, get?_orderExecute ho]
      split
      · exact h.2
      · refine (forall_update_iff h.2).mpr (fun o' ho' => ?_)
        rw [(executed_size_pos ho').2]
        exact h.2 orderId o ho

/-- A modified order has a size and a price exactly when the price that it is given is one. -/
theorem modified_positive_iff {o : RestingOrder} (ho : o.Positive) (hgrid : OnGrid o.price) (newSize : ℚ) (newPrice : Option ℚ) :
    (∀ o' ∈ b.modified o newSize newPrice, o'.Positive) ↔ (0 < round4 newSize → ∀ price ∈ newPrice, 0 < round4 price) := by
  unfold modified
  split
  · rename_i hgone
    exact iff_of_true (fun _ hnone => by cases hnone) (fun hpos => absurd hpos (not_lt_of_ge hgone))
  · rename_i hpos
    rw [not_le] at hpos
    split
    · rename_i hsame
      refine iff_of_true (fun o' ho' => Option.some.inj ho' ▸ ⟨hpos, ho.2⟩) ?_
      rintro - price rfl
      have hnear : |round4 price - o.price| ≤ 1 / 10 ^ 6 := le_of_not_gt hsame.1
      rw [(OnGrid.round4 price).eq_of_near hgrid hnear]
      exact ho.2
    · simp only [Option.mem_def, Option.some.injEq, forall_eq', RestingOrder.Positive]
      cases newPrice with
      | none => exact iff_of_true ⟨hpos, ho.2⟩ (fun _ _ hnone => by cases hnone)
      | some price => exact ⟨fun h _ p hp => Option.some.inj hp ▸ h.2, fun h => ⟨hpos, h hpos price rfl⟩⟩

theorem step_wellFormed_iff (upper : String → String) (h : b.SoundOnGrid) (hb : b.WellFormed) (c : MboCall) :
    (b.step upper c).WellFormed ↔ b.StaysPositive c := by
  rw [(h.1.step upper c).wellFormed_iff]
  cases c with
  | add orderId side price size venue =>
    simp only [OrderBookMBO.step, get?_orderAdd, StaysPositive]
    split
    · rename_i hrefused
      refine iff_of_true hb.orders ?_
      rintro hnew hprice hsize
      rcases hrefused with hold | hle | hle
      · exact absurd hold hnew
      · exact absurd hprice (not_lt_of_ge hle)
      · exact absurd hsize (not_lt_of_ge hle)
    · rename_i hok
      simp only [not_or, not_le] at hok
      rw [forall_update_iff hb.orders]
      simp only [Option.mem_def, Option.some.injEq, forall_eq', RestingOrder.Positive, added]
      exact ⟨fun hpos _ _ _ => hpos.symm, fun hpos => (hpos hok.1 hok.2.1 hok.2.2).symm⟩
  | modify orderId newSize newPrice =>
    simp only [OrderBookMBO.step, StaysPositive]
    rcases ho : b.orders.get? orderId with _ | o
    · rw [orderModify_of_none ho]
      exact iff_of_true hb.orders (fun hin => absurd hin (by rw [Dict.contains, ho]; decide))
    · rw [get?_orderModify ho, forall_update_iff hb.orders, modified_positive_iff (hb.orders _ o ho) (h.2 _ o ho)]
      exact ⟨fun h _ => h, fun h => h (Dict.contains_eq_true_iff.mpr ⟨o, ho⟩)⟩
  | cancel orderId =>
    simp only [OrderBookMBO.step, get?_orderCancel, StaysPositive]
    exact iff_of_true ((forall_update_iff hb.orders).mpr (fun _ hnone => by cases hnone)) trivial
  | execute orderId filledSize =>
    refine iff_of_true ?_ trivial
    simp only [OrderBookMBO.step]
    rcases ho : b.orders.get? orderId with _ | o
    · rw [orderExecute_of_none ho]
      exact hb.orders
    · rw [get?_orderExecute ho]
      split
      · exact hb.orders
      · refine (forall_update_iff hb.orders).mpr (fun o' ho' => ?_)
        obtain ⟨hsize, hsame⟩ := executed_size_pos ho'
        rw [hsame]
        exact ⟨hsize, (hb.orders _ o ho).2⟩

end OrderBookMBO

end Mdrap
