import Mathlib.Algebra.BigOperators.Group.List.Lemmas
import Mathlib.Algebra.Order.BigOperators.Group.List
import Mathlib.Tactic.Linarith
import Mathlib.Tactic.NormNum
import Mdrap.Lib.Runs
import Mdrap.Book.Mbo

/-!
# The queues agree with the orders

The book keeps its orders in one table and, for each side and price, their numbers in a queue with the sum of their sizes. The queues
are said to agree with a lookup of orders, so that a change of one order is a change of the lookup at one number: the queues that do
not hold the number are not concerned.
-/

namespace Mdrap

open Lib

/-! ## Four decimals -/

/-- A number with four decimals. -/
def OnGrid (x : ℚ) : Prop := ∃ n : ℤ, x = n / 10000

namespace OnGrid

theorem round4 (x : ℚ) : OnGrid (round4 x) := ⟨_, rfl⟩

theorem zero : OnGrid 0 := ⟨0, by simp⟩

theorem add {x y : ℚ} (hx : OnGrid x) (hy : OnGrid y) : OnGrid (x + y) := by
  obtain ⟨n, rfl⟩ := hx
  obtain ⟨m, rfl⟩ := hy
  exact ⟨n + m, by push_cast; ring⟩

theorem sub {x y : ℚ} (hx : OnGrid x) (hy : OnGrid y) : OnGrid (x - y) := by
  obtain ⟨n, rfl⟩ := hx
  obtain ⟨m, rfl⟩ := hy
  exact ⟨n - m, by push_cast; ring⟩

theorem eq_zero {x : ℚ} (hx : OnGrid x) (hnonneg : 0 ≤ x) (hsmall : x ≤ 1 / 10 ^ 6) : x = 0 := by
  obtain ⟨n, rfl⟩ := hx
  have hlow : (0 : ℚ) ≤ n := by linarith
  have hhigh : (n : ℚ) < 1 := by linarith
  have hn : n = 0 := by
    have hlow' : 0 ≤ n := by exact_mod_cast hlow
    have hhigh' : n < 1 := by exact_mod_cast hhigh
    omega
  rw [hn]
  simp

end OnGrid

theorem round4_nonneg {x : ℚ} (hx : 0 < x) : 0 ≤ round4 x := by
  have hdown : 0 ≤ (x * 10000).floor := Rat.le_floor_iff.mpr (by push_cast; linarith)
  have hround : 0 ≤ roundHalfEven (x * 10000) := by
    unfold roundHalfEven
    dsimp only
    split
    · exact hdown
    · split
      · omega
      · split
        · exact hdown
        · omega
  unfold round4
  exact div_nonneg (by exact_mod_cast hround) (by norm_num)

/-! ## Sums over a queue -/

/-- A lookup of orders. -/
abbrev Lookup := String → Option RestingOrder

/-- What the orders of a queue weigh together. -/
def weigh (get : Lookup) (w : RestingOrder → ℚ) (ids : List String) : ℚ := (ids.map (fun id => ((get id).map w).getD 0)).sum

section Weigh

variable {get get' : Lookup} {w : RestingOrder → ℚ} {ids : List String} {id : String} {o : RestingOrder}

theorem weigh_congr (h : ∀ id ∈ ids, get' id = get id) : weigh get' w ids = weigh get w ids := by
  unfold weigh
  refine congrArg List.sum (List.map_congr_left ?_)
  intro id hid
  rw [h id hid]

theorem weigh_append_singleton (h : get id = some o) : weigh get w (ids ++ [id]) = weigh get w ids + w o := by
  simp [weigh, h]

theorem weigh_erase (hmem : id ∈ ids) (h : get id = some o) : weigh get w ids = w o + weigh get w (ids.erase id) := by
  unfold weigh
  rw [← List.sum_map_erase _ hmem, h]
  rfl

theorem weigh_nonneg (h : ∀ id ∈ ids, ∀ o, get id = some o → 0 ≤ w o) : 0 ≤ weigh get w ids := by
  refine List.sum_nonneg ?_
  intro x hx
  obtain ⟨id, hid, rfl⟩ := List.mem_map.mp hx
  rcases hget : get id with _ | o
  · exact le_refl _
  · exact h id hid o hget

theorem weigh_onGrid (h : ∀ id ∈ ids, ∀ o, get id = some o → OnGrid (w o)) : OnGrid (weigh get w ids) := by
  induction ids with
  | nil => exact .zero
  | cons id ids ih =>
    have hrest := ih (fun id' hid' => h id' (List.mem_cons_of_mem _ hid'))
    rcases hget : get id with _ | o
    · have hsum : weigh get w (id :: ids) = 0 + weigh get w ids := by simp [weigh, hget]
      rw [hsum, zero_add]
      exact hrest
    · have hsum : weigh get w (id :: ids) = w o + weigh get w ids := by simp [weigh, hget]
      rw [hsum]
      exact (h id List.mem_cons_self o hget).add hrest

end Weigh

/-! ## A queue -/

/-- The size of an order at a venue. -/
def sizeAt (venue : String) (o : RestingOrder) : ℚ := if o.venue = venue then o.size else 0

/-- The orders of a queue are of a side and a price, in the order in which they came, and its sums are theirs. -/
structure QueueOk (get : Lookup) (bid : Bool) (price : ℚ) (q : PriceLevelQueue) : Prop where
  own : ∀ id ∈ q.orderIds, ∃ o, get id = some o ∧ isBid o.side = bid ∧ o.price = price
  ordered : q.orderIds.Pairwise (fun a b => ∀ oa ob, get a = some oa → get b = some ob → oa.priority < ob.priority)
  total : q.totalSize = weigh get (·.size) q.orderIds
  venues : ∀ v, (q.venueSizes.get? v).getD 0 = weigh get (sizeAt v) q.orderIds

namespace QueueOk

variable {get get' : Lookup} {bid : Bool} {price : ℚ} {q : PriceLevelQueue}

theorem new : QueueOk get bid price (.new price) := ⟨nofun, List.Pairwise.nil, rfl, fun _ => rfl⟩

theorem congr (h : QueueOk get bid price q) (heq : ∀ id ∈ q.orderIds, get' id = get id) : QueueOk get' bid price q := by
  refine ⟨?_, ?_, ?_, ?_⟩
  · intro id hid
    rw [heq id hid]
    exact h.own id hid
  · refine h.ordered.imp_of_mem ?_
    intro a b ha hb hlt oa ob hoa hob
    exact hlt oa ob (heq a ha ▸ hoa) (heq b hb ▸ hob)
  · rw [weigh_congr heq]
    exact h.total
  · intro v
    rw [weigh_congr heq]
    exact h.venues v

theorem nodup (h : QueueOk get bid price q) : q.orderIds.Nodup := by
  refine h.ordered.imp_of_mem ?_
  intro a b ha _ hlt heq
  subst heq
  obtain ⟨o, ho, -⟩ := h.own a ha
  exact lt_irrefl _ (hlt o o ho ho)

/-- One more order at the end. -/
theorem add (h : QueueOk get bid price q) {o : RestingOrder}
    (hget : get' o.orderId = some o) (heq : ∀ id ∈ q.orderIds, get' id = get id) (hside : isBid o.side = bid) (hprice : o.price = price)
    (hlast : ∀ id ∈ q.orderIds, ∀ o', get' id = some o' → o'.priority < o.priority) :
    QueueOk get' bid price (q.addOrder o.orderId o.size o.venue) := by
  have h' := h.congr heq
  refine ⟨?_, ?_, ?_, ?_⟩
  · intro id hid
    rcases List.mem_append.mp hid with hold | hmem
    · exact h'.own id hold
    · rw [List.mem_singleton.mp hmem]
      exact ⟨o, hget, hside, hprice⟩
  · refine List.pairwise_append.mpr ⟨h'.ordered, List.pairwise_singleton _ _, ?_⟩
    intro a ha b hb oa ob hoa hob
    rw [List.mem_singleton.mp hb, hget] at hob
    cases hob
    exact hlast a ha oa hoa
  · show q.totalSize + o.size = weigh get' (·.size) (q.orderIds ++ [o.orderId])
    rw [weigh_append_singleton hget, h'.total]
  · intro v
    show (((q.venueSizes.set o.venue _).get? v).getD 0) = weigh get' (sizeAt v) (q.orderIds ++ [o.orderId])
    rw [weigh_append_singleton hget, ← h'.venues v, Dict.get?_set]
    by_cases hv : v = o.venue
    · simp [hv, sizeAt]
    · simp [hv, sizeAt, Ne.symm hv]

/-- An order leaves. -/
theorem remove (h : QueueOk get bid price q) (hsized : ∀ id o, get id = some o → 0 ≤ o.size ∧ OnGrid o.size) {o : RestingOrder}
    (hmem : o.orderId ∈ q.orderIds) (hget : get o.orderId = some o) :
    QueueOk get bid price (q.removeOrder o.orderId o.size o.venue).2 := by
  have hnonneg : ∀ v, 0 ≤ weigh get (sizeAt v) (q.orderIds.erase o.orderId) := by
    intro v
    refine weigh_nonneg ?_
    intro id _ o' ho'
    unfold sizeAt
    split
    · exact (hsized id o' ho').1
    · exact le_refl _
  unfold PriceLevelQueue.removeOrder
  rw [if_pos hmem]
  refine ⟨?_, ?_, ?_, ?_⟩
  · intro id hid
    exact h.own id (List.mem_of_mem_erase hid)
  · exact h.ordered.sublist List.erase_sublist
  · have hrest : 0 ≤ weigh get (·.size) (q.orderIds.erase o.orderId) := weigh_nonneg (fun id _ o' ho' => (hsized id o' ho').1)
    rw [h.total, weigh_erase hmem hget, add_sub_cancel_left]
    exact max_eq_right hrest
  · intro v
    have hv := h.venues v
    rw [weigh_erase hmem hget] at hv
    have hsum : weigh get (sizeAt v) (q.orderIds.erase o.orderId) = (q.venueSizes.get? v).getD 0 - sizeAt v o := by
      rw [hv]
      ring
    rcases hold : q.venueSizes.get? o.venue with _ | old
    · -- nothing is kept for the venue: its orders have no size
      dsimp only
      by_cases hvenue : v = o.venue
      · subst hvenue
        have hsize := (hsized _ o hget).1
        have hrest := hnonneg o.venue
        rw [hold] at hsum ⊢
        simp only [sizeAt, if_true, Option.getD_none] at hsum ⊢
        linarith
      · rw [hsum, sizeAt, if_neg (Ne.symm hvenue), sub_zero]
    · dsimp only
      by_cases hvenue : v = o.venue
      · subst hvenue
        have hrest := hnonneg o.venue
        rw [hold, Option.getD_some, sizeAt, if_pos rfl] at hsum
        rw [hsum] at hrest ⊢
        rw [max_eq_right hrest]
        split
        · rename_i hsmall
          have hgrid : OnGrid (old - o.size) := by
            rw [← hsum]
            refine weigh_onGrid ?_
            intro id _ o' ho'
            unfold sizeAt
            split
            · exact (hsized id o' ho').2
            · exact .zero
          rw [Dict.get?_erase, if_pos rfl, hgrid.eq_zero hrest (hsmall.trans (by norm_num))]
          rfl
        · rw [Dict.get?_set_self]
          rfl
      · rw [hsum, sizeAt, if_neg (Ne.symm hvenue), sub_zero]
        split
        · rw [Dict.get?_erase, if_neg hvenue]
        · rw [Dict.get?_set_ne _ hvenue]

/-- An order becomes smaller where it stands. -/
theorem reduce (h : QueueOk get bid price q) (hsized : ∀ id o, get' id = some o → 0 ≤ o.size ∧ OnGrid o.size) {o : RestingOrder}
    (hmem : o.orderId ∈ q.orderIds) (hget : get o.orderId = some o) {size : ℚ} (hle : size ≤ o.size)
    (hget' : get' o.orderId = some { o with size := size }) (heq : ∀ id, id ≠ o.orderId → get' id = get id) :
    QueueOk get' bid price (q.reduceOrderSize (o.size - size) o.venue) := by
  have hchange : ∀ w : RestingOrder → ℚ, weigh get' w q.orderIds = weigh get w q.orderIds - (w o - w { o with size := size }) := by
    intro w
    have hrest : weigh get' w (q.orderIds.erase o.orderId) = weigh get w (q.orderIds.erase o.orderId) := by
      refine weigh_congr ?_
      intro id hid
      exact heq id (h.nodup.mem_erase_iff.mp hid).1
    rw [weigh_erase hmem hget', weigh_erase hmem hget, hrest]
    ring
  refine ⟨?_, ?_, ?_, ?_⟩
  · intro id hid
    by_cases hid' : id = o.orderId
    · subst hid'
      obtain ⟨o', ho', hside, hprice⟩ := h.own _ hmem
      rw [hget] at ho'
      cases ho'
      exact ⟨_, hget', hside, hprice⟩
    · rw [heq id hid']
      exact h.own id hid
  · refine h.ordered.imp ?_
    intro a b hlt oa ob hoa hob
    have hold : ∀ id o', get' id = some o' → ∃ o'', get id = some o'' ∧ o''.priority = o'.priority := by
      intro id o' ho'
      by_cases hid : id = o.orderId
      · subst hid
        rw [hget'] at ho'
        cases ho'
        exact ⟨o, hget, rfl⟩
      · exact ⟨o', heq id hid ▸ ho', rfl⟩
    obtain ⟨oa', hoa', hpa⟩ := hold a oa hoa
    obtain ⟨ob', hob', hpb⟩ := hold b ob hob
    rw [← hpa, ← hpb]
    exact hlt oa' ob' hoa' hob'
  · have hnew : 0 ≤ weigh get' (·.size) q.orderIds := weigh_nonneg (fun id _ o' ho' => (hsized id o' ho').1)
    show max 0 (q.totalSize - (o.size - size)) = weigh get' (·.size) q.orderIds
    rw [hchange] at hnew ⊢
    rw [h.total]
    exact max_eq_right hnew
  · intro v
    have hv := h.venues v
    have hnew : 0 ≤ weigh get' (sizeAt v) q.orderIds := by
      refine weigh_nonneg ?_
      intro id _ o' ho'
      unfold sizeAt
      split
      · exact (hsized id o' ho').1
      · exact le_refl _
    rw [hchange, ← hv] at hnew
    unfold PriceLevelQueue.reduceOrderSize
    dsimp only
    rw [hchange, ← hv]
    rcases hold : q.venueSizes.get? o.venue with _ | old
    · dsimp only
      by_cases hvenue : v = o.venue
      · subst hvenue
        rw [hold] at hnew ⊢
        simp only [sizeAt, if_true, Option.getD_none] at hnew ⊢
        linarith
      · rw [sizeAt, sizeAt, if_neg (Ne.symm hvenue), if_neg (Ne.symm hvenue), sub_zero, sub_zero]
    · dsimp only
      by_cases hvenue : v = o.venue
      · subst hvenue
        rw [hold] at hnew ⊢
        simp only [sizeAt, if_true, Option.getD_some] at hnew ⊢
        rw [Dict.get?_set_self, Option.getD_some, max_eq_right hnew]
      · rw [Dict.get?_set_ne _ hvenue, sizeAt, sizeAt, if_neg (Ne.symm hvenue), if_neg (Ne.symm hvenue), sub_zero, sub_zero]

end QueueOk

/-! ## All queues -/

/-- The place of an order: its side and its price. -/
def RestingOrder.place (o : RestingOrder) : Bool × ℚ := (isBid o.side, o.price)

/-- Each queue agrees with the orders and is not empty, and each order is in the queue of its place, under its number. -/
structure BookOk (get : Lookup) (level : Bool × ℚ → Option PriceLevelQueue) : Prop where
  levels : ∀ x q, level x = some q → QueueOk get x.1 x.2 q ∧ q.orderIds ≠ []
  placed : ∀ id o, get id = some o → o.orderId = id ∧ ∃ q, level o.place = some q ∧ id ∈ q.orderIds

namespace BookOk

variable {get : Lookup} {level : Bool × ℚ → Option PriceLevelQueue} {o : RestingOrder}

/-- An order is in no queue but that of its place. -/
theorem place_eq (h : BookOk get level) (hget : get o.orderId = some o) {x : Bool × ℚ} {q : PriceLevelQueue} (hq : level x = some q)
    (hmem : o.orderId ∈ q.orderIds) : x = o.place := by
  obtain ⟨o', ho', hside, hprice⟩ := (h.levels x q hq).1.own _ hmem
  rw [hget] at ho'
  cases ho'
  exact Prod.ext hside.symm hprice.symm

theorem enqueue (h : BookOk get level) (hnew : get o.orderId = none) (hlast : ∀ id o', get id = some o' → o'.priority < o.priority) :
    BookOk (Function.update get o.orderId (some o))
      (Function.update level o.place
        (some (((level o.place).getD (.new o.price)).addOrder o.orderId o.size o.venue))) := by
  have hother : ∀ id, id ≠ o.orderId → Function.update get o.orderId (some o) id = get id := fun id hid => Function.update_of_ne hid _ _
  have hself : Function.update get o.orderId (some o) o.orderId = some o := Function.update_self ..
  have habsent : ∀ x q, level x = some q → ∀ id ∈ q.orderIds, id ≠ o.orderId := by
    intro x q hq id hid heq
    obtain ⟨o', ho', -⟩ := (h.levels x q hq).1.own id hid
    rw [heq, hnew] at ho'
    cases ho'
  have hqueue : QueueOk get o.place.1 o.place.2 ((level o.place).getD (.new o.price)) ∧
      ∀ id ∈ ((level o.place).getD (.new o.price)).orderIds, id ≠ o.orderId := by
    rcases hq : level o.place with _ | q
    · exact ⟨.new, nofun⟩
    · exact ⟨(h.levels _ q hq).1, habsent _ q hq⟩
  refine ⟨?_, ?_⟩
  · intro x q hq
    by_cases hx : x = o.place
    · subst hx
      rw [Function.update_self] at hq
      cases hq
      refine ⟨hqueue.1.add hself (fun id hid => hother id (hqueue.2 id hid)) rfl rfl ?_, ?_⟩
      · intro id hid o' ho'
        rw [hother id (hqueue.2 id hid)] at ho'
        exact hlast id o' ho'
      · simp [PriceLevelQueue.addOrder]
    · rw [Function.update_of_ne hx] at hq
      obtain ⟨hok, hne⟩ := h.levels x q hq
      exact ⟨hok.congr (fun id hid => hother id (habsent x q hq id hid)), hne⟩
  · intro id o' ho'
    by_cases hid : id = o.orderId
    · subst hid
      rw [hself] at ho'
      cases ho'
      refine ⟨rfl, _, Function.update_self .., ?_⟩
      exact List.mem_append_right _ (List.mem_singleton_self _)
    · rw [hother id hid] at ho'
      obtain ⟨hname, q, hq, hmem⟩ := h.placed id o' ho'
      refine ⟨hname, ?_⟩
      by_cases hplace : o'.place = o.place
      · rw [hplace] at hq ⊢
        refine ⟨_, Function.update_self .., ?_⟩
        rw [hq]
        exact List.mem_append_left _ hmem
      · exact ⟨q, by rw [Function.update_of_ne hplace]; exact hq, hmem⟩

theorem dequeue (h : BookOk get level) (hsized : ∀ id o, get id = some o → 0 ≤ o.size ∧ OnGrid o.size) (hget : get o.orderId = some o)
    {q : PriceLevelQueue} (hq : level o.place = some q) :
    BookOk (Function.update get o.orderId none) (Function.update level o.place
      (if (q.removeOrder o.orderId o.size o.venue).2.orderIds = [] then none
        else some (q.removeOrder o.orderId o.size o.venue).2)) := by
  have hother : ∀ id, id ≠ o.orderId → Function.update get o.orderId none id = get id := fun id hid => Function.update_of_ne hid _ _
  have hmem : o.orderId ∈ q.orderIds := by
    obtain ⟨-, q', hq', hmem⟩ := h.placed _ o hget
    rw [hq] at hq'
    cases hq'
    exact hmem
  have hids : (q.removeOrder o.orderId o.size o.venue).2.orderIds = q.orderIds.erase o.orderId := by
    unfold PriceLevelQueue.removeOrder
    rw [if_pos hmem]
  have hqueue := (h.levels _ q hq).1
  have hremoved := hqueue.remove hsized hmem hget
  have hgone : ∀ id ∈ (q.removeOrder o.orderId o.size o.venue).2.orderIds, id ≠ o.orderId := by
    intro id hid
    rw [hids] at hid
    exact (hqueue.nodup.mem_erase_iff.mp hid).1
  refine ⟨?_, ?_⟩
  · intro x q' hq'
    by_cases hx : x = o.place
    · subst hx
      rw [Function.update_self] at hq'
      split at hq'
      · cases hq'
      · cases hq'
        exact ⟨hremoved.congr (fun id hid => hother id (hgone id hid)), by assumption⟩
    · rw [Function.update_of_ne hx] at hq'
      obtain ⟨hok, hne⟩ := h.levels x q' hq'
      refine ⟨hok.congr ?_, hne⟩
      intro id hid
      refine hother id ?_
      rintro rfl
      exact hx (h.place_eq hget hq' hid)
  · intro id o' ho'
    have hid : id ≠ o.orderId := by
      rintro rfl
      rw [Function.update_self] at ho'
      cases ho'
    rw [hother id hid] at ho'
    obtain ⟨hname, q', hq', hmem'⟩ := h.placed id o' ho'
    refine ⟨hname, ?_⟩
    by_cases hplace : o'.place = o.place
    · rw [hplace, hq] at hq'
      cases hq'
      have hstays : id ∈ (q.removeOrder o.orderId o.size o.venue).2.orderIds := by
        rw [hids]
        exact (List.mem_erase_of_ne hid).mpr hmem'
      refine ⟨_, ?_, hstays⟩
      rw [hplace, Function.update_self, if_neg (List.ne_nil_of_mem hstays)]
    · exact ⟨q', by rw [Function.update_of_ne hplace]; exact hq', hmem'⟩

theorem shrink (h : BookOk get level) {size : ℚ} (hle : size ≤ o.size) (hget : get o.orderId = some o)
    (hsized : ∀ id o', Function.update get o.orderId (some { o with size := size }) id = some o' → 0 ≤ o'.size ∧ OnGrid o'.size)
    {q : PriceLevelQueue} (hq : level o.place = some q) :
    BookOk (Function.update get o.orderId (some { o with size := size }))
      (Function.update level o.place (some (q.reduceOrderSize (o.size - size) o.venue))) := by
  have hother : ∀ id, id ≠ o.orderId → Function.update get o.orderId (some { o with size := size }) id = get id :=
    fun id hid => Function.update_of_ne hid _ _
  have hmem : o.orderId ∈ q.orderIds := by
    obtain ⟨-, q', hq', hmem⟩ := h.placed _ o hget
    rw [hq] at hq'
    cases hq'
    exact hmem
  obtain ⟨hqueue, hne⟩ := h.levels _ q hq
  refine ⟨?_, ?_⟩
  · intro x q' hq'
    by_cases hx : x = o.place
    · subst hx
      rw [Function.update_self] at hq'
      cases hq'
      exact ⟨hqueue.reduce hsized hmem hget hle (Function.update_self ..) hother, hne⟩
    · rw [Function.update_of_ne hx] at hq'
      obtain ⟨hok, hne'⟩ := h.levels x q' hq'
      refine ⟨hok.congr ?_, hne'⟩
      intro id hid
      refine hother id ?_
      rintro rfl
      exact hx (h.place_eq hget hq' hid)
  · intro id o' ho'
    obtain ⟨o'', ho'', hname, hplace⟩ : ∃ o'', get id = some o'' ∧ o''.orderId = o'.orderId ∧ o''.place = o'.place := by
      by_cases hid : id = o.orderId
      · subst hid
        rw [Function.update_self] at ho'
        cases ho'
        exact ⟨o, hget, rfl, rfl⟩
      · rw [hother id hid] at ho'
        exact ⟨o', ho', rfl, rfl⟩
    obtain ⟨hname', q', hq', hmem'⟩ := h.placed id o'' ho''
    refine ⟨hname.symm.trans hname', ?_⟩
    rw [← hplace]
    by_cases hx : o''.place = o.place
    · rw [hx, hq] at hq'
      cases hq'
      exact ⟨q.reduceOrderSize (o.size - size) o.venue, by rw [hx, Function.update_self], hmem'⟩
    · exact ⟨q', by rw [Function.update_of_ne hx]; exact hq', hmem'⟩

end BookOk

/-! ## The book -/

namespace OrderBookMBO

/-- The queue of a place. -/
def level (b : OrderBookMBO) (x : Bool × ℚ) : Option PriceLevelQueue := (b.book x.1).get? x.2

/-- What the queues have to agree with. -/
def ledger (b : OrderBookMBO) : Dict String RestingOrder × Nat × Nat × Nat := (b.orders, b.prioritySeq, b.totalAdds, b.totalCancels)

theorem ledger_eq_iff {b : OrderBookMBO} {orders : Dict String RestingOrder} {seq adds cancels : Nat} :
    b.ledger = (orders, seq, adds, cancels) ↔
      b.orders = orders ∧ b.prioritySeq = seq ∧ b.totalAdds = adds ∧ b.totalCancels = cancels := by
  simp only [ledger, Prod.mk.injEq]

variable (b : OrderBookMBO) (o : RestingOrder)

theorem setBook_ledger (bid : Bool) (queues : Dict ℚ PriceLevelQueue) : (b.setBook bid queues).ledger = b.ledger := by
  cases bid <;> rfl

theorem level_setBook (bid : Bool) (queues : Dict ℚ PriceLevelQueue) (x : Bool × ℚ) :
    (b.setBook bid queues).level x = if x.1 = bid then queues.get? x.2 else b.level x := by
  obtain ⟨bid', price⟩ := x
  cases bid <;> cases bid' <;> rfl

/-- A change of one queue. -/
theorem level_setBook_eq_update {price : ℚ} {bid : Bool} {queues : Dict ℚ PriceLevelQueue} {q : Option PriceLevelQueue}
    (h : queues.get? = Function.update (b.book bid).get? price q) :
    (b.setBook bid queues).level = Function.update b.level (bid, price) q := by
  funext x
  obtain ⟨bid', price'⟩ := x
  rw [level_setBook, h]
  by_cases hside : bid' = bid
  · subst hside
    by_cases hprice : price' = price
    · subst hprice
      simp
    · have hne : (bid', price') ≠ (bid', price) := fun heq => hprice (Prod.ext_iff.mp heq).2
      rw [if_pos rfl, Function.update_of_ne hprice, Function.update_of_ne hne]
      rfl
  · have hne : (bid', price') ≠ (bid, price) := fun heq => hside (Prod.ext_iff.mp heq).1
    rw [if_neg hside, Function.update_of_ne hne]

theorem enqueue_ledger : (b.enqueue o).ledger = b.ledger := setBook_ledger ..

theorem level_enqueue : (b.enqueue o).level =
    Function.update b.level o.place (some (((b.level o.place).getD (.new o.price)).addOrder o.orderId o.size o.venue)) :=
  b.level_setBook_eq_update (Dict.get?_set_eq_update ..)

theorem dequeue_ledger : (b.dequeue o).ledger = b.ledger := by
  unfold dequeue
  dsimp only
  split
  · rfl
  · exact setBook_ledger ..

theorem level_dequeue {q : PriceLevelQueue} (hq : b.level o.place = some q) : (b.dequeue o).level =
    Function.update b.level o.place (if (q.removeOrder o.orderId o.size o.venue).2.orderIds = [] then none
      else some (q.removeOrder o.orderId o.size o.venue).2) := by
  have hget : (b.book (isBid o.side)).get? o.price = some q := hq
  unfold dequeue
  dsimp only
  rw [hget]
  refine b.level_setBook_eq_update ?_
  split
  · exact Dict.get?_erase_eq_update ..
  · exact Dict.get?_set_eq_update ..

theorem shrink_ledger (sizeReduction : ℚ) : (b.shrink o sizeReduction).ledger = b.ledger := by
  unfold shrink
  dsimp only
  split
  · rfl
  · exact setBook_ledger ..

theorem level_shrink (sizeReduction : ℚ) {q : PriceLevelQueue} (hq : b.level o.place = some q) : (b.shrink o sizeReduction).level =
    Function.update b.level o.place (some (q.reduceOrderSize sizeReduction o.venue)) := by
  have hget : (b.book (isBid o.side)).get? o.price = some q := hq
  unfold shrink
  dsimp only
  rw [hget]
  exact b.level_setBook_eq_update (Dict.get?_set_eq_update ..)

/-- The queues agree with the orders, whose priorities were all given out and whose sizes are on the grid. -/
structure Sound (b : OrderBookMBO) : Prop where
  agree : BookOk b.orders.get? b.level
  came : ∀ id o, b.orders.get? id = some o → o.priority ≤ b.prioritySeq
  sized : ∀ id o, b.orders.get? id = some o → 0 ≤ o.size ∧ OnGrid o.size
  distinct : b.orders.Distinct
  counted : b.totalAdds = b.totalCancels + b.orders.size

theorem Sound.new : Sound .new := by
  refine ⟨⟨?_, nofun⟩, nofun, nofun, Dict.distinct_empty, rfl⟩
  rintro ⟨bid, price⟩ q hq
  cases bid <;> cases hq

variable {b : OrderBookMBO} {o : RestingOrder}

/-- What is asked of the orders still holds when one of them is changed. -/
theorem forall_update {P : RestingOrder → Prop} {get : Lookup} {id : String} (h : ∀ id o, get id = some o → P o) (ho : P o) :
    ∀ id' o', Function.update get id (some o) id' = some o' → P o' := by
  intro id' o' hget
  rw [Function.update_apply] at hget
  split at hget
  · cases hget
    exact ho
  · exact h id' o' hget

namespace Sound

/-- A resting order and its queue. -/
theorem queue (h : b.Sound) {id : String} (ho : b.orders.get? id = some o) : o.orderId = id ∧ ∃ q, b.level o.place = some q := by
  obtain ⟨hid, q, hq, -⟩ := h.agree.placed id o ho
  exact ⟨hid, q, hq⟩

/-- A new order came to the end of its queue. -/
theorem enqueued (h : b.Sound) (hnew : b.orders.get? o.orderId = none) (hsize : 0 ≤ o.size ∧ OnGrid o.size)
    (hpriority : o.priority = b.prioritySeq + 1) {b' : OrderBookMBO}
    (hledger : b'.ledger = (b.orders.set o.orderId o, b.prioritySeq + 1, b.totalAdds + 1, b.totalCancels))
    (hlevel : b'.level = (b.enqueue o).level) : b'.Sound := by
  obtain ⟨horders, hseq, hadds, hcancels⟩ := ledger_eq_iff.mp hledger
  have hget : b'.orders.get? = Function.update b.orders.get? o.orderId (some o) := by
    rw [horders, Dict.get?_set_eq_update]
  refine ⟨?_, ?_, ?_, ?_, ?_⟩
  · rw [hget, hlevel, level_enqueue]
    refine h.agree.enqueue hnew ?_
    intro id o' ho'
    have := h.came id o' ho'
    omega
  · rw [hget, hseq]
    refine forall_update ?_ (Nat.le_of_eq hpriority)
    intro id o' ho'
    exact (h.came id o' ho').trans (Nat.le_succ _)
  · rw [hget]
    exact forall_update h.sized hsize
  · rw [horders]
    exact h.distinct.set _ _
  · rw [hadds, hcancels, horders, Dict.size_set_of_none hnew, h.counted]
    omega

/-- A resting order left its queue. -/
theorem dequeued (h : b.Sound) {id : String} (ho : b.orders.get? id = some o) {b' : OrderBookMBO}
    (hledger : b'.ledger = (b.orders.erase id, b.prioritySeq, b.totalAdds, b.totalCancels + 1))
    (hlevel : b'.level = (b.dequeue o).level) : b'.Sound := by
  obtain ⟨rfl, q, hq⟩ := h.queue ho
  obtain ⟨horders, hseq, hadds, hcancels⟩ := ledger_eq_iff.mp hledger
  have hold : ∀ id o', b'.orders.get? id = some o' → b.orders.get? id = some o' := by
    intro id o' ho'
    rw [horders, Dict.get?_erase] at ho'
    split at ho'
    · cases ho'
    · exact ho'
  refine ⟨?_, ?_, ?_, ?_, ?_⟩
  · rw [horders, Dict.get?_erase_eq_update, hlevel, level_dequeue b o hq]
    exact h.agree.dequeue h.sized ho hq
  · intro id o' ho'
    rw [hseq]
    exact h.came id o' (hold id o' ho')
  · intro id o' ho'
    exact h.sized id o' (hold id o' ho')
  · rw [horders]
    exact h.distinct.erase _
  · have hsize := h.distinct.size_erase ho
    rw [hadds, hcancels, horders, h.counted]
    omega

/-- A resting order went to the end of a queue. -/
theorem requeued (h : b.Sound) (ho : b.orders.get? o.orderId = some o) {c : RestingOrder} (hid : c.orderId = o.orderId)
    (hsize : 0 ≤ c.size ∧ OnGrid c.size) (hpriority : c.priority = b.prioritySeq + 1) {b' : OrderBookMBO}
    (hledger : b'.ledger = (b.orders.set o.orderId c, b.prioritySeq + 1, b.totalAdds, b.totalCancels))
    (hlevel : b'.level = ((b.dequeue o).enqueue c).level) : b'.Sound := by
  obtain ⟨-, q, hq⟩ := h.queue ho
  obtain ⟨horders, hseq, hadds, hcancels⟩ := ledger_eq_iff.mp hledger
  have hget : b'.orders.get? = Function.update b.orders.get? o.orderId (some c) := by
    rw [horders, Dict.get?_set_eq_update]
  refine ⟨?_, ?_, ?_, ?_, ?_⟩
  · have hleft := h.agree.dequeue h.sized ho hq
    rw [← level_dequeue b o hq, ← hid] at hleft
    have hback := hleft.enqueue (o := c) (Function.update_self ..) ?_
    · rwa [Function.update_idem, ← level_enqueue, hid, ← hget, ← hlevel] at hback
    · intro id o' ho'
      rw [Function.update_apply] at ho'
      split at ho'
      · cases ho'
      · have := h.came id o' ho'
        omega
  · rw [hget, hseq]
    refine forall_update ?_ (Nat.le_of_eq hpriority)
    intro id o' ho'
    exact (h.came id o' ho').trans (Nat.le_succ _)
  · rw [hget]
    exact forall_update h.sized hsize
  · rw [horders]
    exact h.distinct.set _ _
  · rw [hadds, hcancels, horders, h.distinct.size_set_of_some ho, h.counted]

/-- A resting order became smaller. -/
theorem shrunk (h : b.Sound) {id : String} (ho : b.orders.get? id = some o) {size : ℚ} (hle : size ≤ o.size)
    (hsize : 0 ≤ size ∧ OnGrid size) {b' : OrderBookMBO}
    (hledger : b'.ledger = (b.orders.set id { o with size := size }, b.prioritySeq, b.totalAdds, b.totalCancels))
    (hlevel : b'.level = (b.shrink o (o.size - size)).level) : b'.Sound := by
  obtain ⟨rfl, q, hq⟩ := h.queue ho
  obtain ⟨horders, hseq, hadds, hcancels⟩ := ledger_eq_iff.mp hledger
  have hget : b'.orders.get? = Function.update b.orders.get? o.orderId (some { o with size := size }) := by
    rw [horders, Dict.get?_set_eq_update]
  refine ⟨?_, ?_, ?_, ?_, ?_⟩
  · rw [hget, hlevel, level_shrink b o _ hq]
    exact h.agree.shrink hle ho (forall_update h.sized hsize) hq
  · rw [hget, hseq]
    exact forall_update h.came (h.came _ o ho)
  · rw [hget]
    exact forall_update h.sized hsize
  · rw [horders]
    exact h.distinct.set _ _
  · rw [hadds, hcancels, horders, h.distinct.size_set_of_some ho, h.counted]

theorem orderAdd (h : b.Sound) (upper : String → String) (orderId side : String) (price size : ℚ) (venue : String) :
    (b.orderAdd upper orderId side price size venue).2.Sound := by
  unfold OrderBookMBO.orderAdd
  split
  · exact h
  · rename_i hok
    obtain ⟨hnew, -, hsize⟩ : ¬b.orders.contains orderId ∧ ¬price ≤ 0 ∧ ¬size ≤ 0 := by
      simpa only [not_or] using hok
    have hnew' : b.orders.get? orderId = none := by simpa [Dict.contains] using hnew
    let order : RestingOrder := ⟨orderId, upper side, round4 price, round4 size, venue, b.prioritySeq + 1⟩
    let b₁ : OrderBookMBO := { b with prioritySeq := b.prioritySeq + 1, orders := b.orders.set orderId order }
    obtain ⟨horders, hseq, hadds, hcancels⟩ := ledger_eq_iff.mp (enqueue_ledger b₁ order)
    refine h.enqueued (o := order) hnew' ⟨round4_nonneg (lt_of_not_ge hsize), .round4 _⟩ rfl ?_ ?_
    · exact ledger_eq_iff.mpr ⟨horders, hseq, congrArg (· + 1) hadds, hcancels⟩
    · exact (level_enqueue b₁ order).trans (level_enqueue b order).symm

theorem orderCancel (h : b.Sound) (orderId : String) : (b.orderCancel orderId).2.Sound := by
  unfold OrderBookMBO.orderCancel
  split
  · exact h
  · rename_i o ho
    obtain ⟨rfl, q, hq⟩ := h.queue ho
    let b₁ : OrderBookMBO := { b with orders := b.orders.erase o.orderId }
    obtain ⟨horders, hseq, hadds, hcancels⟩ := ledger_eq_iff.mp (dequeue_ledger b₁ o)
    refine h.dequeued ho ?_ ?_
    · exact ledger_eq_iff.mpr ⟨horders, hseq, hadds, congrArg (· + 1) hcancels⟩
    · exact (level_dequeue b₁ o hq).trans (level_dequeue b o hq).symm

theorem orderModify (h : b.Sound) (orderId : String) (newSize : ℚ) (newPrice : Option ℚ) :
    (b.orderModify orderId newSize newPrice).2.Sound := by
  unfold OrderBookMBO.orderModify
  split
  · exact h
  · rename_i o ho
    obtain ⟨rfl, q, hq⟩ := h.queue ho
    dsimp only
    split
    · exact h.orderCancel o.orderId
    · rename_i hpos
      have hsize : 0 ≤ round4 newSize ∧ OnGrid (round4 newSize) := ⟨le_of_not_ge hpos, .round4 _⟩
      split
      · rename_i hsmaller
        let b₁ : OrderBookMBO := { b with orders := b.orders.set o.orderId { o with size := round4 newSize } }
        obtain ⟨horders, hseq, hadds, hcancels⟩ := ledger_eq_iff.mp (shrink_ledger b₁ o (o.size - round4 newSize))
        refine h.shrunk ho (le_of_not_gt hsmaller.2) hsize ?_ ?_
        · exact ledger_eq_iff.mpr ⟨horders, hseq, hadds, hcancels⟩
        · exact (level_shrink b₁ o _ hq).trans (level_shrink b o _ hq).symm
      · let b₁ := b.dequeue o
        obtain ⟨horders₁, hseq₁, hadds₁, hcancels₁⟩ := ledger_eq_iff.mp (dequeue_ledger b o)
        let changed : RestingOrder := {
          o with
          price := (newPrice.map round4).getD o.price
          size := round4 newSize
          priority := b₁.prioritySeq + 1 }
        let b₂ : OrderBookMBO := { b₁ with prioritySeq := b₁.prioritySeq + 1, orders := b₁.orders.set o.orderId changed }
        obtain ⟨horders, hseq, hadds, hcancels⟩ := ledger_eq_iff.mp (enqueue_ledger b₂ changed)
        refine h.requeued ho (c := changed) rfl hsize (congrArg (· + 1) hseq₁) ?_ ?_
        · refine ledger_eq_iff.mpr ⟨horders.trans ?_, hseq.trans ?_, hadds.trans hadds₁, hcancels.trans hcancels₁⟩
          · exact congrArg (·.set o.orderId changed) horders₁
          · exact congrArg (· + 1) hseq₁
        · exact (level_enqueue b₂ changed).trans (level_enqueue b₁ changed).symm

theorem orderExecute (h : b.Sound) (orderId : String) (filledSize : ℚ) : (b.orderExecute orderId filledSize).2.Sound := by
  unfold OrderBookMBO.orderExecute
  split
  · exact h
  · rename_i o ho
    obtain ⟨rfl, q, hq⟩ := h.queue ho
    split
    · exact h
    · rename_i hfilled
      dsimp only
      split
      · have hcancelled := h.orderCancel o.orderId
        exact ⟨hcancelled.agree, hcancelled.came, hcancelled.sized, hcancelled.distinct, hcancelled.counted⟩
      · have hfill : 0 ≤ min o.size (round4 filledSize) :=
          le_min (h.sized _ o ho).1 (round4_nonneg (lt_of_not_ge hfilled))
        have hremaining : max 0 (o.size - min o.size (round4 filledSize)) = o.size - min o.size (round4 filledSize) :=
          max_eq_right (sub_nonneg.mpr (min_le_left ..))
        have hgrid : OnGrid (min o.size (round4 filledSize)) := by
          rcases min_choice o.size (round4 filledSize) with hmin | hmin
          · rw [hmin]
            exact (h.sized _ o ho).2
          · rw [hmin]
            exact .round4 _
        have hsize : 0 ≤ max 0 (o.size - min o.size (round4 filledSize)) ∧ OnGrid (max 0 (o.size - min o.size (round4 filledSize))) := by
          refine ⟨le_max_left .., ?_⟩
          rw [hremaining]
          exact (h.sized _ o ho).2.sub hgrid
        have hle : max 0 (o.size - min o.size (round4 filledSize)) ≤ o.size := by
          rw [hremaining]
          exact sub_le_self _ hfill
        generalize max 0 (o.size - min o.size (round4 filledSize)) = remaining at hsize hle ⊢
        let b₁ : OrderBookMBO := { b with orders := b.orders.set o.orderId { o with size := remaining } }
        obtain ⟨horders, hseq, hadds, hcancels⟩ := ledger_eq_iff.mp (shrink_ledger b₁ o (o.size - remaining))
        refine h.shrunk ho hle hsize ?_ ?_
        · exact ledger_eq_iff.mpr ⟨horders, hseq, hadds, hcancels⟩
        · exact (level_shrink b₁ o _ hq).trans (level_shrink b o _ hq).symm

theorem step (upper : String → String) (c : MboCall) (h : b.Sound) : (b.step upper c).Sound := by
  cases c with
  | add orderId side price size venue => exact h.orderAdd upper orderId side price size venue
  | modify orderId newSize newPrice => exact h.orderModify orderId newSize newPrice
  | cancel orderId => exact h.orderCancel orderId
  | execute orderId filledSize => exact h.orderExecute orderId filledSize

theorem run (upper : String → String) (cs : List MboCall) : (runFrom (OrderBookMBO.step upper) .new cs).Sound := by
  have hall : Along (OrderBookMBO.step upper) (fun _ _ => True) .new cs := .of_forall (fun _ _ _ => trivial) _
  exact hall.inv (fun _ c hb _ => hb.step upper c) .new

end Sound

/-- The orders and the queues say the same: each order is once in the queue of its side and price, a queue holds only such orders, in
the order of their priorities, and is not empty, its sums are those of its orders, and the orders added and not cancelled are there. -/
structure Represents (b : OrderBookMBO) : Prop where
  once : ∀ id o, b.orders.get? id = some o → ∃ q, (b.book (isBid o.side)).get? o.price = some q ∧ q.orderIds.count id = 1
  only : ∀ bid price q, (b.book bid).get? price = some q →
    ∀ id ∈ q.orderIds, ∃ o, b.orders.get? id = some o ∧ isBid o.side = bid ∧ o.price = price
  kept : ∀ bid price q, (b.book bid).get? price = some q → q.orderIds ≠ []
  ordered : ∀ bid price q, (b.book bid).get? price = some q → q.orderIds.Pairwise (fun x y =>
    ∀ ox oy, b.orders.get? x = some ox → b.orders.get? y = some oy → ox.priority < oy.priority)
  total : ∀ bid price q, (b.book bid).get? price = some q → q.totalSize = weigh b.orders.get? (·.size) q.orderIds
  venues : ∀ bid price q, (b.book bid).get? price = some q →
    ∀ v, (q.venueSizes.get? v).getD 0 = weigh b.orders.get? (sizeAt v) q.orderIds
  counted : (b.totalAdds : ℤ) - b.totalCancels = b.orders.size

theorem Sound.represents (h : b.Sound) : b.Represents := by
  refine ⟨?_, ?_, ?_, ?_, ?_, ?_, ?_⟩
  · intro id o ho
    obtain ⟨-, q, hq, hmem⟩ := h.agree.placed id o ho
    exact ⟨q, hq, List.count_eq_one_of_mem (h.agree.levels _ q hq).1.nodup hmem⟩
  · intro bid price q hq
    exact (h.agree.levels (bid, price) q hq).1.own
  · intro bid price q hq
    exact (h.agree.levels (bid, price) q hq).2
  · intro bid price q hq
    exact (h.agree.levels (bid, price) q hq).1.ordered
  · intro bid price q hq
    exact (h.agree.levels (bid, price) q hq).1.total
  · intro bid price q hq
    exact (h.agree.levels (bid, price) q hq).1.venues
  · have := h.counted
    omega

end OrderBookMBO

/-- After any calls, the orders and the queues of a book say the same. -/
theorem mbo_represents (upper : String → String) (cs : List MboCall) :
    (runFrom (OrderBookMBO.step upper) .new cs).Represents := (OrderBookMBO.Sound.run upper cs).represents

end Mdrap

/-!
## What a call does to the resting orders

Seen as a lookup of orders, a book changes at one number at most: an order comes in, becomes another one or goes. The queues do not
matter for this.
-/

namespace Mdrap

open Lib

theorem OnGrid.eq_of_near {x y : ℚ} (hx : OnGrid x) (hy : OnGrid y) (h : |x - y| ≤ 1 / 10 ^ 6) : x = y := by
  rcases le_total 0 (x - y) with hle | hle
  · rw [abs_of_nonneg hle] at h
    exact sub_eq_zero.mp ((hx.sub hy).eq_zero hle h)
  · have hle' : 0 ≤ y - x := by linarith
    rw [abs_sub_comm, abs_of_nonneg hle'] at h
    exact (sub_eq_zero.mp ((hy.sub hx).eq_zero hle' h)).symm

namespace OrderBookMBO

variable {b : OrderBookMBO} {orderId : String} {o : RestingOrder}

theorem orders_enqueue (b : OrderBookMBO) (o : RestingOrder) : (b.enqueue o).orders = b.orders :=
  (ledger_eq_iff.mp (enqueue_ledger b o)).1

theorem orders_dequeue (b : OrderBookMBO) (o : RestingOrder) : (b.dequeue o).orders = b.orders :=
  (ledger_eq_iff.mp (dequeue_ledger b o)).1

theorem orders_shrink (b : OrderBookMBO) (o : RestingOrder) (sizeReduction : ℚ) : (b.shrink o sizeReduction).orders = b.orders :=
  (ledger_eq_iff.mp (shrink_ledger b o sizeReduction)).1

/-- The order that `order_add` makes. -/
def added (b : OrderBookMBO) (upper : String → String) (orderId side : String) (price size : ℚ) (venue : String) : RestingOrder :=
  ⟨orderId, upper side, round4 price, round4 size, venue, b.prioritySeq + 1⟩

theorem get?_orderAdd (upper : String → String) (orderId side : String) (price size : ℚ) (venue : String) (b : OrderBookMBO) :
    (b.orderAdd upper orderId side price size venue).2.orders.get? =
      if b.orders.contains orderId ∨ price ≤ 0 ∨ size ≤ 0 then b.orders.get?
      else Function.update b.orders.get? orderId (some (b.added upper orderId side price size venue)) := by
  unfold orderAdd
  split
  · rfl
  · dsimp only
    rw [orders_enqueue, Dict.get?_set_eq_update]
    rfl

theorem get?_orderCancel (orderId : String) (b : OrderBookMBO) :
    (b.orderCancel orderId).2.orders.get? = Function.update b.orders.get? orderId none := by
  unfold orderCancel
  split
  · rename_i hnone
    exact (Function.update_eq_self_iff.mpr hnone.symm).symm
  · dsimp only
    rw [orders_dequeue, Dict.get?_erase_eq_update]

/-- An order of that number is there no more, is smaller or came in again, as `order_modify` has it. -/
def modified (b : OrderBookMBO) (o : RestingOrder) (newSize : ℚ) (newPrice : Option ℚ) : Option RestingOrder :=
  if round4 newSize ≤ 0 then none
  else if ¬1 / 10 ^ 6 < |(newPrice.map round4).getD o.price - o.price| ∧ ¬o.size < round4 newSize then
    some { o with size := round4 newSize }
  else some { o with price := (newPrice.map round4).getD o.price, size := round4 newSize, priority := b.prioritySeq + 1 }

theorem orderModify_of_none (h : b.orders.get? orderId = none) (newSize : ℚ) (newPrice : Option ℚ) :
    (b.orderModify orderId newSize newPrice).2 = b := by
  unfold orderModify
  rw [h]

theorem get?_orderModify (h : b.orders.get? orderId = some o) (newSize : ℚ) (newPrice : Option ℚ) :
    (b.orderModify orderId newSize newPrice).2.orders.get? =
      Function.update b.orders.get? orderId (b.modified o newSize newPrice) := by
  unfold orderModify modified
  rw [h]
  dsimp only
  split
  · exact get?_orderCancel orderId b
  · split
    · dsimp only
      rw [orders_shrink, Dict.get?_set_eq_update]
    · dsimp only
      rw [orders_enqueue, Dict.get?_set_eq_update, orders_dequeue, (ledger_eq_iff.mp (dequeue_ledger b o)).2.1]

/-- What remains of an order, or that none does. -/
def executed (o : RestingOrder) (filledSize : ℚ) : Option RestingOrder :=
  if max 0 (o.size - min o.size (round4 filledSize)) ≤ 1 / 10 ^ 6 then none
  else some { o with size := max 0 (o.size - min o.size (round4 filledSize)) }

theorem orderExecute_of_none (h : b.orders.get? orderId = none) (filledSize : ℚ) : (b.orderExecute orderId filledSize).2 = b := by
  unfold orderExecute
  rw [h]

theorem get?_orderExecute (h : b.orders.get? orderId = some o) (filledSize : ℚ) :
    (b.orderExecute orderId filledSize).2.orders.get? =
      if filledSize ≤ 0 then b.orders.get? else Function.update b.orders.get? orderId (executed o filledSize) := by
  unfold orderExecute executed
  rw [h]
  dsimp only
  split
  · rfl
  · split
    · exact get?_orderCancel orderId b
    · dsimp only
      rw [orders_shrink, Dict.get?_set_eq_update]

/-- What remains of an order has a size. -/
theorem executed_size_pos {o o' : RestingOrder} {filledSize : ℚ} (h : executed o filledSize = some o') :
    0 < o'.size ∧ o' = { o with size := o'.size } := by
  unfold executed at h
  split at h
  · cases h
  · rename_i hlarge
    cases h
    have hpos : (0 : ℚ) < 1 / 10 ^ 6 := by norm_num
    exact ⟨hpos.trans (lt_of_not_ge hlarge), rfl⟩

end OrderBookMBO

end Mdrap
