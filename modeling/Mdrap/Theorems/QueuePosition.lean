import Mathlib.Algebra.Order.BigOperators.Group.List
import Mdrap.Theorems.Mbo

/-!
# The place of an order in its queue

A queue holds its orders by priority, so that what stands before an order are the orders of its side and price with a smaller one. A
new priority is greater than all that were given out: in a step that does not move the order, no other order comes to stand before it.
-/

namespace Mdrap

open Lib

theorem roundHalfEven_int (n : ℤ) : roundHalfEven n = n := by
  unfold roundHalfEven
  rw [Rat.floor_intCast]
  simp

/-- Rounding to the grid changes nothing on the grid. -/
theorem round4_of_onGrid {x : ℚ} (h : OnGrid x) : round4 x = x := by
  obtain ⟨n, rfl⟩ := h
  have hn : (n : ℚ) / 10000 * 10000 = n := by ring
  rw [round4, hn, roundHalfEven_int]

namespace OrderBookMBO

/-- The resting orders of the side and the price of an order that came before it. -/
def before (b : OrderBookMBO) (o : RestingOrder) : List RestingOrder :=
  b.orders.values.filter (fun x => isBid x.side = isBid o.side ∧ x.price = o.price ∧ x.priority < o.priority)

/-- What they weigh together. -/
def sizeBefore (b : OrderBookMBO) (o : RestingOrder) : ℚ := ((b.before o).map (·.size)).sum

variable {b : OrderBookMBO} {o : RestingOrder} {orderId : String}

theorem mem_before {x : RestingOrder} (h : b.Sound) :
    x ∈ b.before o ↔ b.orders.get? x.orderId = some x ∧ x.place = o.place ∧ x.priority < o.priority := by
  have hplace : x.place = o.place ↔ isBid x.side = isBid o.side ∧ x.price = o.price := Prod.ext_iff
  rw [before, List.mem_filter, decide_eq_true_eq, hplace, and_assoc]
  refine and_congr_left (fun _ => ?_)
  constructor
  · intro hmem
    obtain ⟨⟨id, x'⟩, hitem, rfl⟩ := List.mem_map.mp hmem
    have hget := h.distinct.get?_of_mem hitem
    rwa [(h.agree.placed id x' hget).1]
  · intro hget
    exact List.mem_map_of_mem (Dict.mem_of_get? hget)

/-- The numbers of these orders are distinct. -/
theorem before_nodup (h : b.Sound) (o : RestingOrder) : ((b.before o).map (·.orderId)).Nodup := by
  have hkeys : b.orders.values.map (·.orderId) = b.orders.items.map (·.1) := by
    rw [Dict.values, List.map_map]
    refine List.map_congr_left (fun kv hkv => ?_)
    exact (h.agree.placed kv.1 kv.2 (h.distinct.get?_of_mem hkv)).1
  have hall : (b.orders.values.map (·.orderId)).Nodup := by
    rw [hkeys]
    exact h.distinct
  exact hall.sublist (List.filter_sublist.map _)

/-- The loop counts the orders up to the one it looks for. -/
theorem aheadLoop_eq (orders : Dict String RestingOrder) {l r : List String} (hout : orderId ∉ l)
    (hown : ∀ id ∈ l, ∃ x, orders.get? id = some x) (n k : Nat) (s : ℚ) :
    aheadLoop orders orderId (l ++ orderId :: r) (n, s, k) =
      (n + l.length, s + weigh orders.get? (·.size) l, k + l.length) := by
  induction l generalizing n s k with
  | nil => simp [aheadLoop, weigh]
  | cons id l ih =>
    obtain ⟨x, hx⟩ := hown id List.mem_cons_self
    have hne : id ≠ orderId := fun heq => hout (heq ▸ List.mem_cons_self)
    rw [List.cons_append, aheadLoop, if_neg hne, hx]
    dsimp only
    rw [ih (fun hmem => hout (List.mem_cons_of_mem _ hmem)) (fun id' hid' => hown id' (List.mem_cons_of_mem _ hid'))]
    have hweigh : weigh orders.get? (·.size) (id :: l) = x.size + weigh orders.get? (·.size) l := by simp [weigh, hx]
    rw [hweigh, List.length_cons]
    refine Prod.ext ?_ (Prod.ext ?_ ?_)
    · dsimp only
      omega
    · dsimp only
      ring
    · dsimp only
      omega

/-- What stands before an order in its queue. -/
theorem queue_before (h : b.Sound) (ho : b.orders.get? orderId = some o) :
    ∃ q l r, b.level o.place = some q ∧ q.orderIds = l ++ orderId :: r ∧ orderId ∉ l ∧
      (∀ id ∈ l, ∃ x, b.orders.get? id = some x) ∧ l.Perm ((b.before o).map (·.orderId)) := by
  obtain ⟨hid, q, hq, hmem⟩ := h.agree.placed orderId o ho
  obtain ⟨l, r, hsplit⟩ := List.append_of_mem hmem
  have hok := (h.agree.levels _ q hq).1
  have hnodup := hok.nodup
  have hordered := hok.ordered
  rw [hsplit] at hnodup hordered
  obtain ⟨hl, hr, hdisjoint⟩ := List.nodup_append.mp hnodup
  obtain ⟨-, hright, hleft⟩ := List.pairwise_append.mp hordered
  have hout : orderId ∉ l := fun hin => hdisjoint _ hin _ List.mem_cons_self rfl
  have hown : ∀ id ∈ l, ∃ x, b.orders.get? id = some x := by
    intro id hin
    obtain ⟨x, hx, -⟩ := hok.own id (hsplit ▸ List.mem_append_left _ hin)
    exact ⟨x, hx⟩
  refine ⟨q, l, r, hq, hsplit, hout, hown, (List.perm_ext_iff_of_nodup hl (before_nodup h o)).mpr ?_⟩
  intro id
  rw [List.mem_map]
  constructor
  · intro hin
    obtain ⟨x, hx, hside, hprice⟩ := hok.own id (hsplit ▸ List.mem_append_left _ hin)
    have hname := (h.agree.placed id x hx).1
    refine ⟨x, (mem_before h).mpr ⟨hname ▸ hx, Prod.ext hside hprice, ?_⟩, hname⟩
    exact hleft id hin orderId List.mem_cons_self x o hx ho
  · rintro ⟨x, hx, rfl⟩
    obtain ⟨hget, hplace, hlt⟩ := (mem_before h).mp hx
    obtain ⟨-, q', hq', hin⟩ := h.agree.placed _ x hget
    rw [hplace, hq] at hq'
    cases hq'
    rw [hsplit] at hin
    rcases List.mem_append.mp hin with hin | hin
    · exact hin
    · rcases List.mem_cons.mp hin with heq | hin
      · rw [heq, ho] at hget
        cases hget
        exact absurd hlt (lt_irrefl _)
      · have hgt := (List.pairwise_cons.mp hright).1 _ hin o x ho hget
        exact absurd hlt (lt_asymm hgt)

theorem sizeBefore_eq (h : b.Sound) (o : RestingOrder) : b.sizeBefore o = weigh b.orders.get? (·.size) ((b.before o).map (·.orderId)) := by
  rw [sizeBefore, weigh, List.map_map]
  refine congrArg List.sum (List.map_congr_left (fun x hx => ?_))
  rw [Function.comp_apply, ((mem_before h).mp hx).1]
  rfl

theorem weigh_perm {get : Lookup} {w : RestingOrder → ℚ} {l r : List String} (h : l.Perm r) : weigh get w l = weigh get w r :=
  (h.map _).sum_eq

theorem sizeBefore_onGrid (h : b.Sound) (o : RestingOrder) : OnGrid (b.sizeBefore o) := by
  rw [sizeBefore_eq h]
  exact weigh_onGrid (fun id _ x hx => (h.sized id x hx).2)

/-- The place of a resting order is reported. -/
theorem getQueuePosition_spec (h : b.Sound) (ho : b.orders.get? orderId = some o) :
    ∃ info, b.getQueuePosition orderId = some info ∧ info.ordersAhead = (b.before o).length ∧ info.sizeAhead = round4 (b.sizeBefore o) ∧
      info.queueRank = info.ordersAhead + 1 := by
  obtain ⟨q, l, r, hq, hsplit, hout, hown, hperm⟩ := queue_before h ho
  have hbook : (b.book (isBid o.side)).get? o.price = some q := hq
  have hlength : l.length = (b.before o).length := hperm.length_eq.trans (List.length_map _)
  have hsize : weigh b.orders.get? (·.size) l = b.sizeBefore o := (weigh_perm hperm).trans (sizeBefore_eq h o).symm
  unfold getQueuePosition
  simp only [ho, hbook, hsplit, aheadLoop_eq b.orders hout hown, zero_add]
  refine ⟨_, rfl, hlength, congrArg round4 hsize, ?_⟩
  exact Nat.add_comm 1 l.length

/-! ## Steps -/

/-- An order that is where it was, when it came in, and not larger. -/
def Stands (x x' : RestingOrder) : Prop :=
  x'.place = x.place ∧ x'.priority = x.priority ∧ x'.size ≤ x.size

/-- A call moves an order: it gives it another price or a greater size. -/
def Moves (orderId : String) (o : RestingOrder) : MboCall → Prop
  | .modify orderId' newSize newPrice =>
    orderId' = orderId ∧ (o.size < round4 newSize ∨ ∃ price ∈ newPrice, round4 price ≠ o.price)
  | _ => False

/-- An order that rests after a call stands as it did, or came in with the call: it is new, or was moved. -/
def Explains (b : OrderBookMBO) (c : MboCall) (id : String) (x' : RestingOrder) : Prop :=
  (∃ x, b.orders.get? id = some x ∧ Stands x x') ∨
    (b.prioritySeq < x'.priority ∧ ∀ x, b.orders.get? id = some x → Moves id x c)

theorem explains_same {c : MboCall} {id : String} {x : RestingOrder} (hx : b.orders.get? id = some x) : b.Explains c id x :=
  .inl ⟨x, hx, rfl, rfl, le_rfl⟩

theorem explains_update {c : MboCall} {x : Option RestingOrder} (h : ∀ x' ∈ x, b.Explains c orderId x') {id : String}
    {x' : RestingOrder} (hx' : Function.update b.orders.get? orderId x id = some x') : b.Explains c id x' := by
  by_cases hid : id = orderId
  · subst hid
    rw [Function.update_self] at hx'
    exact h x' hx'
  · rw [Function.update_of_ne hid] at hx'
    exact explains_same hx'

theorem explains_modified {newSize : ℚ} {newPrice : Option ℚ} (ho : b.orders.get? orderId = some o) {x' : RestingOrder}
    (hx' : b.modified o newSize newPrice = some x') : b.Explains (.modify orderId newSize newPrice) orderId x' := by
  unfold modified at hx'
  split at hx'
  · cases hx'
  · split at hx'
    · rename_i hsame
      cases hx'
      exact .inl ⟨o, ho, rfl, rfl, le_of_not_gt hsame.2⟩
    · rename_i hmoved
      cases hx'
      refine .inr ⟨Nat.lt_succ_self _, ?_⟩
      intro x hx
      rw [ho] at hx
      cases hx
      refine ⟨rfl, ?_⟩
      by_contra hnot
      simp only [not_or, not_exists, not_and, not_not] at hnot
      have hprice : (newPrice.map round4).getD o.price = o.price := by
        cases newPrice with
        | none => rfl
        | some price => exact hnot.2 price rfl
      refine hmoved ⟨?_, hnot.1⟩
      rw [hprice, sub_self, abs_zero]
      norm_num

theorem explains_executed (h : b.Sound) (ho : b.orders.get? orderId = some o) {filledSize : ℚ} (hfilled : ¬filledSize ≤ 0)
    {x' : RestingOrder} (hx' : executed o filledSize = some x') : b.Explains (.execute orderId filledSize) orderId x' := by
  unfold executed at hx'
  split at hx'
  · cases hx'
  · cases hx'
    refine .inl ⟨o, ho, rfl, rfl, max_le (h.sized _ o ho).1 (sub_le_self _ ?_)⟩
    exact le_min (h.sized _ o ho).1 (round4_nonneg (lt_of_not_ge hfilled))

theorem step_explains (upper : String → String) (h : b.Sound) (c : MboCall) {id : String} {x' : RestingOrder}
    (hx' : (b.step upper c).orders.get? id = some x') : b.Explains c id x' := by
  cases c with
  | add orderId side price size venue =>
    simp only [step, get?_orderAdd] at hx'
    split at hx'
    · exact explains_same hx'
    · rename_i hok
      refine explains_update ?_ hx'
      intro x' hx'
      cases hx'
      refine .inr ⟨Nat.lt_succ_self _, fun x hx => ?_⟩
      exact absurd (Or.inl (Dict.contains_eq_true_iff.mpr ⟨x, hx⟩)) hok
  | modify orderId newSize newPrice =>
    simp only [step] at hx'
    rcases ho : b.orders.get? orderId with _ | o
    · rw [orderModify_of_none ho] at hx'
      exact explains_same hx'
    · rw [get?_orderModify ho] at hx'
      exact explains_update (fun x hx => explains_modified ho hx) hx'
  | cancel orderId =>
    simp only [step, get?_orderCancel] at hx'
    exact explains_update (x := none) (by rintro _ ⟨⟩) hx'
  | execute orderId filledSize =>
    simp only [step] at hx'
    rcases ho : b.orders.get? orderId with _ | o
    · rw [orderExecute_of_none ho] at hx'
      exact explains_same hx'
    · rw [get?_orderExecute ho] at hx'
      split at hx'
      · exact explains_same hx'
      · rename_i hfilled
        exact explains_update (fun x hx => explains_executed h ho hfilled hx) hx'

/-- An order that is not moved stands as it did, and only orders that stood before it, none of them larger, stand before it. -/
theorem step_before (upper : String → String) (h : b.Sound) {c : MboCall} (ho : b.orders.get? orderId = some o)
    (hmoves : ¬Moves orderId o c) {o' : RestingOrder} (ho' : (b.step upper c).orders.get? orderId = some o') :
    ∀ x' ∈ (b.step upper c).before o', ∃ x ∈ b.before o, x.orderId = x'.orderId ∧ x'.size ≤ x.size := by
  obtain ⟨o₁, ho₁, hplace, hpriority, -⟩ | ⟨-, hmoved⟩ := step_explains upper h c ho'
  · rw [ho] at ho₁
    cases ho₁
    intro x' hx'
    obtain ⟨hget', hplace', hlt⟩ := (mem_before (h.step upper c)).mp hx'
    rw [hpriority] at hlt
    obtain ⟨x, hget, hstands⟩ | ⟨hlate, -⟩ := step_explains upper h c hget'
    · have hname := (h.agree.placed _ x hget).1
      refine ⟨x, (mem_before h).mpr ⟨hname ▸ hget, ?_, ?_⟩, hname, hstands.2.2⟩
      · exact hstands.1.symm.trans (hplace'.trans hplace)
      · rw [← hstands.2.1]
        exact hlt
    · have := h.came _ o ho
      omega
  · exact absurd (hmoved o ho) hmoves

theorem weigh_le_of_subset {get : Lookup} {w : RestingOrder → ℚ} {l r : List String} (hl : l.Nodup) (hsub : l ⊆ r)
    (hw : ∀ id o, get id = some o → 0 ≤ w o) : weigh get w l ≤ weigh get w r := by
  obtain ⟨l', hperm, hsublist⟩ := List.subperm_of_subset hl hsub
  rw [← weigh_perm hperm]
  refine (hsublist.map _).sum_le_sum ?_
  intro x hx
  obtain ⟨id, -, rfl⟩ := List.mem_map.mp hx
  rcases hget : get id with _ | o
  · exact le_rfl
  · exact hw id o hget

theorem step_position (upper : String → String) (h : b.Sound) {c : MboCall} (ho : b.orders.get? orderId = some o)
    (hmoves : ¬Moves orderId o c) {o' : RestingOrder} (ho' : (b.step upper c).orders.get? orderId = some o') :
    ((b.step upper c).before o').length ≤ (b.before o).length ∧ (b.step upper c).sizeBefore o' ≤ b.sizeBefore o := by
  have h' := h.step upper c
  have hbefore := step_before upper h ho hmoves ho'
  have hsub : ((b.step upper c).before o').map (·.orderId) ⊆ (b.before o).map (·.orderId) := by
    intro id hid
    obtain ⟨x', hx', rfl⟩ := List.mem_map.mp hid
    obtain ⟨x, hx, hname, -⟩ := hbefore x' hx'
    exact List.mem_map.mpr ⟨x, hx, hname⟩
  have hnodup := before_nodup h' o'
  constructor
  · simpa using (List.subperm_of_subset hnodup hsub).length_le
  · calc (b.step upper c).sizeBefore o'
        ≤ weigh b.orders.get? (·.size) (((b.step upper c).before o').map (·.orderId)) := by
          rw [sizeBefore, weigh, List.map_map]
          refine List.sum_le_sum (fun x' hx' => ?_)
          obtain ⟨x, hx, hname, hle⟩ := hbefore x' hx'
          rw [Function.comp_apply, ← hname, ((mem_before h).mp hx).1]
          exact hle
      _ ≤ weigh b.orders.get? (·.size) ((b.before o).map (·.orderId)) :=
          weigh_le_of_subset hnodup hsub (fun id x hx => (h.sized id x hx).1)
      _ = b.sizeBefore o := (sizeBefore_eq h o).symm

/-- An order rests when a call is done, which did not move it. -/
def Waits (upper : String → String) (orderId : String) (b : OrderBookMBO) (c : MboCall) : Prop :=
  (b.step upper c).orders.contains orderId ∧ ∀ o ∈ b.orders.get? orderId, ¬Moves orderId o c

end OrderBookMBO

/-- In every book, the place of a resting order counts the orders of its side and price with a smaller priority, and their size; as
long as the order rests and is not moved, neither gets larger. -/
theorem queue_position (upper : String → String) (cs : List MboCall) (orderId : String) (o : RestingOrder)
    (ho : (runFrom (OrderBookMBO.step upper) .new cs).orders.get? orderId = some o) :
    let b := runFrom (OrderBookMBO.step upper) .new cs
    ∃ info, b.getQueuePosition orderId = some info ∧ info.ordersAhead = (b.before o).length ∧
      info.sizeAhead = round4 ((b.before o).map (·.size)).sum ∧ info.queueRank = info.ordersAhead + 1 ∧
      ∀ ds, Along (OrderBookMBO.step upper) (OrderBookMBO.Waits upper orderId) b ds →
        ∃ info', (runFrom (OrderBookMBO.step upper) b ds).getQueuePosition orderId = some info' ∧
          info'.ordersAhead ≤ info.ordersAhead ∧ info'.sizeAhead ≤ info.sizeAhead ∧ info'.queueRank ≤ info.queueRank := by
  intro b
  have hsound : b.Sound := OrderBookMBO.Sound.run upper cs
  obtain ⟨info, hinfo, hahead, hsize, hrank⟩ := OrderBookMBO.getQueuePosition_spec hsound ho
  refine ⟨info, hinfo, hahead, hsize, hrank, fun ds hds => ?_⟩
  have hend := hds.inv (I := fun b' => b'.Sound ∧ ∃ o', b'.orders.get? orderId = some o' ∧
    (b'.before o').length ≤ (b.before o).length ∧ b'.sizeBefore o' ≤ b.sizeBefore o) ?_ ⟨hsound, o, ho, le_rfl, le_rfl⟩
  · obtain ⟨hsound', o', ho', hlength, hle⟩ := hend
    obtain ⟨info', hinfo', hahead', hsize', hrank'⟩ := OrderBookMBO.getQueuePosition_spec hsound' ho'
    rw [round4_of_onGrid (OrderBookMBO.sizeBefore_onGrid hsound' o')] at hsize'
    rw [round4_of_onGrid (OrderBookMBO.sizeBefore_onGrid hsound o)] at hsize
    refine ⟨info', hinfo', by omega, by rw [hsize, hsize']; exact hle, by omega⟩
  · rintro b' c ⟨hsound', o', ho', hlength, hle⟩ ⟨hrests, hmoves⟩
    obtain ⟨o'', ho''⟩ := Dict.contains_eq_true_iff.mp hrests
    obtain ⟨hlength', hle'⟩ := OrderBookMBO.step_position upper hsound' ho' (hmoves o' ho') ho''
    exact ⟨hsound'.step upper c, o'', ho'', hlength'.trans hlength, hle'.trans hle⟩

/-- Two orders at one price; the second one is the first when the other one is cancelled. -/
theorem queue_position_cancelled :
    let b := runFrom (OrderBookMBO.step id) .new [.add "1" "BUY" 100 3 "X", .add "2" "BUY" 100 1 "X"]
    ∃ info info', b.getQueuePosition "2" = some info ∧
      (runFrom (OrderBookMBO.step id) b [.cancel "1"]).getQueuePosition "2" = some info' ∧ info'.ordersAhead ≤ info.ordersAhead := by
  have ho : (runFrom (OrderBookMBO.step id) .new [.add "1" "BUY" 100 3 "X", .add "2" "BUY" 100 1 "X"]).orders.get? "2" =
      some ⟨"2", "BUY", 100, 1, "X", 2⟩ := by decide +kernel
  obtain ⟨info, hinfo, -, -, -, hwaits⟩ := queue_position id _ "2" _ ho
  obtain ⟨info', hinfo', hahead, -⟩ := hwaits [.cancel "1"] ⟨⟨by decide +kernel, fun _ _ hmoves => hmoves⟩, trivial⟩
  exact ⟨info, info', hinfo, hinfo', hahead⟩

end Mdrap
