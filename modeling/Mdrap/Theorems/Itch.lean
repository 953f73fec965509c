import Mdrap.Lib.Runs
import Mdrap.Book.Itch

/-!
# The ladders agree with the orders

The tracker keeps its orders in one table and the shares at each price in another. The shares at a place are said to agree with the
orders, so that a message is a change of one order and of one place.
-/

namespace Mdrap

open Lib

/-- A stock, a side and a price. -/
abbrev Place := String × String × Nat

/-- Where an order rests. -/
def ITCHOrder.place (o : ITCHOrder) : Place := (o.stock, o.side, o.price)

/-- The shares of an order that rest at a place. -/
def ITCHOrder.sharesAt (x : Place) (o : ITCHOrder) : Nat := if o.place = x then o.shares else 0

/-- The shares that rest at a place. -/
def restingAt (orders : Dict Nat ITCHOrder) (x : Place) : Nat := orders.weight (·.sharesAt x)

theorem ITCHOrder.sharesAt_self (o : ITCHOrder) : o.sharesAt o.place = o.shares := if_pos rfl

theorem ITCHOrder.sharesAt_ne {o : ITCHOrder} {x : Place} (h : x ≠ o.place) : o.sharesAt x = 0 := if_neg (Ne.symm h)

/-- The shares kept for each place are those of the orders, none of which is without shares. -/
structure Agrees (orders : Dict Nat ITCHOrder) (entry : Place → Option Nat) : Prop where
  distinct : orders.Distinct
  sound : ∀ ref o, orders.get? ref = some o → 0 < o.shares ∧ (o.side = "B" ∨ o.side = "S")
  exact : ∀ x, (entry x).getD 0 = restingAt orders x
  positive : ∀ x n, entry x = some n → 0 < n

/-- What is left when shares leave a price. -/
def taken (shares : Nat) (entry : Option Nat) : Option Nat :=
  match entry with
  | none => none
  | some old => if old ≤ shares then none else some (old - shares)

theorem taken_getD (shares : Nat) (entry : Option Nat) : (taken shares entry).getD 0 = entry.getD 0 - shares := by
  unfold taken
  split
  · exact (Nat.zero_sub _).symm
  · split
    · exact (Nat.sub_eq_zero_of_le ‹_›).symm
    · rfl

theorem taken_pos {shares : Nat} {entry : Option Nat} {n : Nat} (h : taken shares entry = some n) : 0 < n := by
  unfold taken at h
  split at h
  · cases h
  · split at h
    · cases h
    · cases h
      omega

namespace Agrees

variable {orders : Dict Nat ITCHOrder} {entry : Place → Option Nat}

theorem empty : Agrees .empty (fun _ => none) := ⟨Dict.distinct_empty, nofun, fun _ => rfl, nofun⟩

/-- A resting order has a place that is kept. -/
theorem entry_of_order (h : Agrees orders entry) {ref : Nat} {o : ITCHOrder} (ho : orders.get? ref = some o) :
    ∃ n, entry o.place = some n ∧ o.shares ≤ n := by
  have hle : o.sharesAt o.place ≤ restingAt orders o.place := h.distinct.le_weight ho
  rw [o.sharesAt_self, ← h.exact] at hle
  have hpos := (h.sound ref o ho).1
  rcases hentry : entry o.place with _ | n
  · rw [hentry] at hle
    simp only [Option.getD_none] at hle
    omega
  · rw [hentry] at hle
    exact ⟨n, rfl, hle⟩

/-- A place that is kept has a resting order. -/
theorem order_of_entry (h : Agrees orders entry) {x : Place} {n : Nat} (hentry : entry x = some n) :
    ∃ ref o, orders.get? ref = some o ∧ o.place = x := by
  have hexact := h.exact x
  rw [hentry, Option.getD_some] at hexact
  obtain ⟨ref, o, ho, hpos⟩ := h.distinct.exists_of_weight_pos (hexact ▸ h.positive x n hentry)
  refine ⟨ref, o, ho, ?_⟩
  by_contra hne
  rw [ITCHOrder.sharesAt_ne (Ne.symm hne)] at hpos
  exact Nat.lt_irrefl _ hpos

theorem add (h : Agrees orders entry) {ref : Nat} {o : ITCHOrder} (hnew : orders.get? ref = none) (hpos : 0 < o.shares)
    (hside : o.side = "B" ∨ o.side = "S") :
    Agrees (orders.set ref o) (Function.update entry o.place (some ((entry o.place).getD 0 + o.shares))) := by
  refine ⟨h.distinct.set _ _, ?_, ?_, ?_⟩
  · intro ref' o' ho'
    rw [Dict.get?_set] at ho'
    split at ho'
    · cases ho'
      exact ⟨hpos, hside⟩
    · exact h.sound ref' o' ho'
  · intro x
    rw [restingAt, Dict.weight_set_of_none hnew, ← restingAt, ← h.exact]
    by_cases hx : x = o.place
    · subst hx
      rw [Function.update_self, o.sharesAt_self]
      rfl
    · rw [Function.update_of_ne hx, ITCHOrder.sharesAt_ne hx]
      rfl
  · intro x n hn
    by_cases hx : x = o.place
    · subst hx
      rw [Function.update_self] at hn
      cases hn
      omega
    · rw [Function.update_of_ne hx] at hn
      exact h.positive x n hn

/-- The shares at the places, when an order loses some. -/
theorem taken_exact (h : Agrees orders entry) {orders' : Dict Nat ITCHOrder} {o : ITCHOrder} {shares : Nat}
    (hself : restingAt orders' o.place + shares = restingAt orders o.place)
    (hother : ∀ x, x ≠ o.place → restingAt orders' x = restingAt orders x) (x : Place) :
    (Function.update entry o.place (taken shares (entry o.place)) x).getD 0 = restingAt orders' x ∧
      ∀ n, Function.update entry o.place (taken shares (entry o.place)) x = some n → 0 < n := by
  by_cases hx : x = o.place
  · subst hx
    rw [Function.update_self, taken_getD, h.exact]
    exact ⟨by omega, fun n hn => taken_pos hn⟩
  · rw [Function.update_of_ne hx, hother x hx]
    exact ⟨h.exact x, h.positive x⟩

theorem remove (h : Agrees orders entry) {ref : Nat} {o : ITCHOrder} (ho : orders.get? ref = some o) :
    Agrees (orders.erase ref) (Function.update entry o.place (taken o.shares (entry o.place))) := by
  have hself : restingAt (orders.erase ref) o.place + o.shares = restingAt orders o.place := by
    rw [← o.sharesAt_self]
    exact h.distinct.weight_erase ho
  have hother : ∀ x, x ≠ o.place → restingAt (orders.erase ref) x = restingAt orders x := by
    intro x hx
    have hsum : restingAt (orders.erase ref) x + o.sharesAt x = restingAt orders x := h.distinct.weight_erase ho
    rw [ITCHOrder.sharesAt_ne hx] at hsum
    exact hsum
  have hexact := h.taken_exact hself hother
  refine ⟨h.distinct.erase _, ?_, fun x => (hexact x).1, fun x => (hexact x).2⟩
  intro ref' o' ho'
  rw [Dict.get?_erase] at ho'
  split at ho'
  · cases ho'
  · exact h.sound ref' o' ho'

theorem reduce (h : Agrees orders entry) {ref : Nat} {o : ITCHOrder} (ho : orders.get? ref = some o) {shares : Nat}
    (hlt : shares < o.shares) :
    Agrees (orders.set ref { o with shares := o.shares - shares })
      (Function.update entry o.place (taken shares (entry o.place))) := by
  have hself : restingAt (orders.set ref { o with shares := o.shares - shares }) o.place + shares = restingAt orders o.place := by
    have hsum : restingAt (orders.set ref { o with shares := o.shares - shares }) o.place + o.sharesAt o.place =
        restingAt orders o.place + ITCHOrder.sharesAt o.place { o with shares := o.shares - shares } := h.distinct.weight_set ho _
    rw [o.sharesAt_self] at hsum
    have hnew : ITCHOrder.sharesAt o.place { o with shares := o.shares - shares } = o.shares - shares := if_pos rfl
    omega
  have hother : ∀ x, x ≠ o.place → restingAt (orders.set ref { o with shares := o.shares - shares }) x = restingAt orders x := by
    intro x hx
    have hsum : restingAt (orders.set ref { o with shares := o.shares - shares }) x + o.sharesAt x =
        restingAt orders x + ITCHOrder.sharesAt x { o with shares := o.shares - shares } := h.distinct.weight_set ho _
    rwa [ITCHOrder.sharesAt_ne hx, ITCHOrder.sharesAt_ne (o := { o with shares := o.shares - shares }) hx] at hsum
  have hexact := h.taken_exact hself hother
  refine ⟨h.distinct.set _ _, ?_, fun x => (hexact x).1, fun x => (hexact x).2⟩
  intro ref' o' ho'
  rw [Dict.get?_set] at ho'
  split at ho'
  · cases ho'
    exact ⟨Nat.sub_pos_of_lt hlt, (h.sound ref o ho).2⟩
  · exact h.sound ref' o' ho'

theorem clear (h : Agrees orders entry) (stock : String) :
    Agrees (orders.filter (fun kv => kv.2.stock ≠ stock)) (fun x => if x.1 = stock then none else entry x) := by
  refine ⟨h.distinct.filter _, ?_, ?_, ?_⟩
  · intro ref o ho
    exact h.sound ref o (h.distinct.get?_filter.mp ho).1
  · intro x
    by_cases hx : x.1 = stock
    · rw [if_pos hx]
      by_contra hne
      obtain ⟨ref, o, ho, hpos⟩ := (h.distinct.filter _).exists_of_weight_pos (Nat.pos_of_ne_zero (Ne.symm hne))
      have hstock : o.stock ≠ stock := by simpa using (h.distinct.get?_filter.mp ho).2
      refine hstock ?_
      by_contra hother
      have hplace : x ≠ o.place := by
        rintro rfl
        exact hother hx
      rw [ITCHOrder.sharesAt_ne hplace] at hpos
      exact Nat.lt_irrefl _ hpos
    · rw [if_neg hx, h.exact]
      refine (Dict.weight_filter _ _ ?_).symm
      intro kv _ hkv
      refine ITCHOrder.sharesAt_ne ?_
      rintro rfl
      have hstock : kv.2.stock = stock := by simpa using hkv
      exact hx hstock
  · intro x n hn
    split at hn
    · cases hn
    · exact h.positive x n hn

end Agrees

/-! ## The tracker -/

namespace ITCHOrderBookTracker

/-- The shares kept for a place. -/
def entry (t : ITCHOrderBookTracker) (x : Place) : Option Nat := (t.book? x.1 x.2.1).bind (·.get? x.2.2)

/-- The best price of a side: none where no order rests, else that of an order, with no better one, and the shares that rest there. -/
def Best (better : Nat → Nat → Prop) (t : ITCHOrderBookTracker) (symbol side : String) (size : Nat) : Option Nat → Prop
  | none => (∀ ref o, t.orders.get? ref = some o → ¬(o.stock = symbol ∧ o.side = side)) ∧ size = 0
  | some price =>
    (∃ ref o, t.orders.get? ref = some o ∧ o.place = (symbol, side, price)) ∧
      (∀ ref o, t.orders.get? ref = some o → o.stock = symbol → o.side = side → better o.price price) ∧
      size = restingAt t.orders (symbol, side, price)

/-- The ladders are those of the resting orders. -/
structure Exact (t : ITCHOrderBookTracker) : Prop where
  depth : ∀ stock side price, (t.entry (stock, side, price)).getD 0 = restingAt t.orders (stock, side, price)
  positive : ∀ stock side price n, t.entry (stock, side, price) = some n → 0 < n
  bid : ∀ symbol, Best (· ≤ ·) t symbol "B" (t.getBbo symbol).bidSize (t.getBbo symbol).bid
  ask : ∀ symbol, Best (· ≥ ·) t symbol "S" (t.getBbo symbol).askSize (t.getBbo symbol).ask

variable {t : ITCHOrderBookTracker}

/-- The best price of a ladder is that of the orders. -/
theorem best_of_book (h : Agrees t.orders t.entry) {better : Nat → Nat → Prop} {symbol side : String} {book : Dict Nat Nat}
    (hbook : t.book? symbol side = some book) {best : Option Nat}
    (hsome : ∀ p, best = some p → p ∈ book.items.map (·.1) ∧ ∀ q ∈ book.items.map (·.1), better q p)
    (hnone : best = none → book.items.map (·.1) = []) : Best better t symbol side (sizeOf book best) best := by
  have hentry : ∀ price, t.entry (symbol, side, price) = book.get? price := by
    intro price
    rw [entry, hbook]
    rfl
  have hkey : ∀ ref o, t.orders.get? ref = some o → o.stock = symbol → o.side = side → o.price ∈ book.items.map (·.1) := by
    intro ref o ho hstock hside
    obtain ⟨n, hn, -⟩ := h.entry_of_order ho
    rw [ITCHOrder.place, hstock, hside, hentry] at hn
    by_contra hmem
    rw [Dict.get?_eq_none_iff.mpr hmem] at hn
    cases hn
  cases best with
  | none =>
    refine ⟨?_, rfl⟩
    rintro ref o ho ⟨hstock, hside⟩
    have hmem := hkey ref o ho hstock hside
    rw [hnone rfl] at hmem
    cases hmem
  | some price =>
    obtain ⟨hmem, hbetter⟩ := hsome price rfl
    obtain ⟨n, hn⟩ : ∃ n, book.get? price = some n := by
      rcases hget : book.get? price with _ | n
      · exact absurd hmem (Dict.get?_eq_none_iff.mp hget)
      · exact ⟨n, rfl⟩
    refine ⟨h.order_of_entry ((hentry price).trans hn), ?_, ?_⟩
    · intro ref o ho hstock hside
      exact hbetter _ (hkey ref o ho hstock hside)
    · rw [← h.exact, hentry]
      rfl

theorem exact_of_agrees (h : Agrees t.orders t.entry) : t.Exact := by
  have hbest : ∀ symbol, Best (· ≤ ·) t symbol "B" (t.getBbo symbol).bidSize (t.getBbo symbol).bid ∧
      Best (· ≥ ·) t symbol "S" (t.getBbo symbol).askSize (t.getBbo symbol).ask := by
    intro symbol
    rcases hladders : t.depth.get? symbol with _ | ladders
    · have hnone : ∀ ref o, t.orders.get? ref = some o → o.stock ≠ symbol := by
        rintro ref o ho rfl
        obtain ⟨n, hn, -⟩ := h.entry_of_order ho
        simp [entry, book?, ITCHOrder.place, hladders] at hn
      have hbbo : t.getBbo symbol = ⟨none, none, 0, 0⟩ := by
        rw [getBbo, hladders]
      rw [hbbo]
      exact ⟨⟨fun ref o ho hat => hnone ref o ho hat.1, rfl⟩, ⟨fun ref o ho hat => hnone ref o ho hat.1, rfl⟩⟩
    · have hbids : t.book? symbol "B" = some ladders.bids := by
        rw [book?, hladders]
        rfl
      have hasks : t.book? symbol "S" = some ladders.asks := by
        rw [book?, hladders]
        rfl
      unfold getBbo
      rw [hladders]
      refine ⟨best_of_book h hbids ?_ List.max?_eq_none_iff.mp, best_of_book h hasks ?_ List.min?_eq_none_iff.mp⟩
      · intro p hp
        exact List.max?_eq_some_iff.mp hp
      · intro p hp
        exact List.min?_eq_some_iff.mp hp
  refine ⟨?_, ?_, fun symbol => (hbest symbol).1, fun symbol => (hbest symbol).2⟩
  · intro stock side price
    exact h.exact _
  · intro stock side price
    exact h.positive _

/-! ## Ladders -/

theorem side?_setSide {l : Ladders} {side : String} {book : Dict Nat Nat} (hside : l.side? side = some book) (book' : Dict Nat Nat)
    (side' : String) : (l.setSide side book').side? side' = if side' = side then some book' else l.side? side' := by
  unfold Ladders.side? at hside
  split at hside
  · subst side
    by_cases hb : side' = "B"
    · simp [Ladders.side?, Ladders.setSide, hb]
    · simp [Ladders.side?, Ladders.setSide, hb]
  · split at hside
    · subst side
      by_cases hb : side' = "B"
      · simp [Ladders.side?, Ladders.setSide, hb]
      · by_cases hs : side' = "S"
        · simp [Ladders.side?, Ladders.setSide, hs]
        · simp [Ladders.side?, hb, hs]
    · cases hside

/-- A ladder changed where it is. -/
theorem withBook_eq {stock side : String} {book : Dict Nat Nat} (hbook : t.book? stock side = some book)
    (change : Dict Nat Nat → Dict Nat Nat) :
    ∃ t', t.withBook stock side change = some t' ∧ t'.orders = t.orders ∧ t'.book? stock side = some (change book) ∧
      ∀ x, t'.entry x = if x.1 = stock ∧ x.2.1 = side then (change book).get? x.2.2 else t.entry x := by
  unfold book? at hbook
  obtain ⟨ladders, hladders, hside⟩ := Option.bind_eq_some_iff.mp hbook
  refine ⟨{ t with depth := t.depth.set stock (ladders.setSide side (change book)) }, ?_, rfl, ?_, ?_⟩
  · simp [withBook, hladders, hside]
  · rw [book?, Dict.get?_set_self, Option.bind_some, side?_setSide hside, if_pos rfl]
  · intro x
    rw [entry, entry, book?, book?, Dict.get?_set]
    by_cases hstock : x.1 = stock
    · rw [if_pos hstock, Option.bind_some, side?_setSide hside]
      by_cases hx : x.2.1 = side
      · rw [if_pos hx, if_pos ⟨hstock, hx⟩, Option.bind_some]
      · rw [if_neg hx, if_neg (fun h => hx h.2), hstock, hladders, Option.bind_some]
    · rw [if_neg hstock, if_neg (fun h => hstock h.1)]

/-- A change of one price. -/
theorem withBook_update {stock side : String} {price : Nat} {book : Dict Nat Nat} (hbook : t.book? stock side = some book)
    (change : Dict Nat Nat → Dict Nat Nat) (f : Option Nat → Option Nat)
    (hchange : ∀ q, (change book).get? q = if q = price then f (book.get? price) else book.get? q) :
    ∃ t', t.withBook stock side change = some t' ∧ t'.orders = t.orders ∧
      t'.entry = Function.update t.entry (stock, side, price) (f (t.entry (stock, side, price))) := by
  obtain ⟨t', ht', horders, -, hentry⟩ := withBook_eq hbook change
  have hold : ∀ q, t.entry (stock, side, q) = book.get? q := by
    intro q
    rw [entry, hbook]
    rfl
  refine ⟨t', ht', horders, ?_⟩
  funext x
  rw [hentry, Function.update_apply]
  obtain ⟨stock', side', q⟩ := x
  by_cases hplace : stock' = stock ∧ side' = side
  · obtain ⟨rfl, rfl⟩ := hplace
    rw [if_pos ⟨rfl, rfl⟩, hchange, hold]
    by_cases hq : q = price
    · subst hq
      rw [if_pos rfl, if_pos rfl]
    · rw [if_neg hq, if_neg (fun h => hq (by simpa using h)), hold]
  · rw [if_neg hplace, if_neg]
    intro h
    simp only [Prod.mk.injEq] at h
    exact hplace ⟨h.1, h.2.1⟩

/-- Two changes of a ladder are one. -/
theorem withBook_comp {stock side : String} {book : Dict Nat Nat} (hbook : t.book? stock side = some book)
    (f g : Dict Nat Nat → Dict Nat Nat) {t₁ t₂ : ITCHOrderBookTracker} (hf : t.withBook stock side f = some t₁)
    (hg : t₁.withBook stock side g = some t₂) :
    ∃ t', t.withBook stock side (fun book => g (f book)) = some t' ∧ t'.orders = t.orders ∧ t'.entry = t₂.entry := by
  obtain ⟨t₁', ht₁, -, hbook₁, hentry₁⟩ := withBook_eq hbook f
  cases hf.symm.trans ht₁
  obtain ⟨t₂', ht₂, -, -, hentry₂⟩ := withBook_eq hbook₁ g
  cases hg.symm.trans ht₂
  obtain ⟨t', ht', horders, -, hentry⟩ := withBook_eq hbook (fun book => g (f book))
  refine ⟨t', ht', horders, ?_⟩
  funext x
  rw [hentry, hentry₂, hentry₁]
  split
  · rfl
  · rfl

theorem get?_addShares (price shares : Nat) (book : Dict Nat Nat) (q : Nat) :
    (addShares price shares book).get? q = if q = price then some ((book.get? price).getD 0 + shares) else book.get? q :=
  Dict.get?_set ..

theorem get?_takeShares (price shares : Nat) (book : Dict Nat Nat) (q : Nat) :
    (takeShares price shares book).get? q = if q = price then taken shares (book.get? price) else book.get? q := by
  unfold takeShares
  rcases hold : book.get? price with _ | old
  · by_cases hq : q = price
    · subst hq
      rw [if_pos rfl]
      exact hold
    · rw [if_neg hq]
  · dsimp only [taken]
    split
    · rw [Dict.get?_erase]
    · rw [Dict.get?_set]

theorem withBook_add {stock side : String} {book : Dict Nat Nat} (hbook : t.book? stock side = some book) (price shares : Nat) :
    ∃ t', t.withBook stock side (addShares price shares) = some t' ∧ t'.orders = t.orders ∧
      t'.entry = Function.update t.entry (stock, side, price) (some ((t.entry (stock, side, price)).getD 0 + shares)) :=
  withBook_update hbook _ (fun old => some (old.getD 0 + shares)) (get?_addShares price shares book)

theorem withBook_take {stock side : String} {book : Dict Nat Nat} (hbook : t.book? stock side = some book) (price shares : Nat) :
    ∃ t', t.withBook stock side (takeShares price shares) = some t' ∧ t'.orders = t.orders ∧
      t'.entry = Function.update t.entry (stock, side, price) (taken shares (t.entry (stock, side, price))) :=
  withBook_update hbook _ (taken shares) (get?_takeShares price shares book)

/-! ## A message -/

/-- The tracker after a message. -/
def next (t : ITCHOrderBookTracker) (msg : ITCHMessage) : ITCHOrderBookTracker := (t.processMessage msg).2

/-- A message that puts an order into the book gives it shares, a side and a number that no order has. -/
def Steady (t : ITCHOrderBookTracker) (msg : ITCHMessage) : Prop :=
  match msg.msgType with
  | .A | .F => t.orders.contains msg.orderRef = false ∧ (msg.side = "B" ∨ msg.side = "S") ∧ 0 < msg.shares
  | .U =>
    t.orders.contains msg.orderRef = true →
      0 < msg.shares ∧ (msg.newOrderRef = msg.orderRef ∨ t.orders.contains msg.newOrderRef = false)
  | _ => True

instance (t : ITCHOrderBookTracker) (msg : ITCHMessage) : Decidable (t.Steady msg) := by
  unfold Steady
  split <;> infer_instance

/-- The call returns, and the ladders agree with the orders. -/
def Settles (r : ITCHAnswer × ITCHOrderBookTracker) : Prop := r.1 ≠ .raised ∧ Agrees r.2.orders r.2.entry

/-- The book of a resting order. -/
theorem book_of_order (h : Agrees t.orders t.entry) {ref : Nat} {o : ITCHOrder} (ho : t.orders.get? ref = some o) :
    ∃ book, t.book? o.stock o.side = some book := by
  obtain ⟨n, hn, -⟩ := h.entry_of_order ho
  obtain ⟨book, hbook, -⟩ := Option.bind_eq_some_iff.mp hn
  exact ⟨book, hbook⟩

/-- A symbol without orders changes no place. -/
theorem ensureSymbol_spec (symbol : String) (t : ITCHOrderBookTracker) :
    (t.ensureSymbol symbol).orders = t.orders ∧ (t.ensureSymbol symbol).entry = t.entry ∧
      ∃ ladders, (t.ensureSymbol symbol).depth.get? symbol = some ladders := by
  unfold ensureSymbol
  split
  · rename_i hcontains
    exact ⟨rfl, rfl, Dict.contains_eq_true_iff.mp hcontains⟩
  · rename_i hcontains
    refine ⟨rfl, ?_, {}, Dict.get?_set_self ..⟩
    have hnone : t.depth.get? symbol = none := by simpa [Dict.contains] using hcontains
    funext x
    rw [entry, entry, book?, book?, Dict.get?_set]
    split
    · rename_i hx
      rw [hx, hnone, Option.bind_some, Option.bind_none, Option.bind_none]
      unfold Ladders.side?
      split
      · rfl
      · split <;> rfl
    · rfl

theorem addOrder_settles (h : Agrees t.orders t.entry) {msg : ITCHMessage} (hnew : t.orders.contains msg.orderRef = false)
    (hside : msg.side = "B" ∨ msg.side = "S") (hpos : 0 < msg.shares) : Settles (t.addOrder msg) := by
  let order : ITCHOrder := ⟨msg.stock, msg.side, msg.price, msg.shares⟩
  let t₁ : ITCHOrderBookTracker := { t with totalAdds := t.totalAdds + 1, orders := t.orders.set msg.orderRef order }
  obtain ⟨horders, hentry, ladders, hladders⟩ := ensureSymbol_spec msg.stock t₁
  obtain ⟨book, hbook⟩ : ∃ book, (t₁.ensureSymbol msg.stock).book? msg.stock msg.side = some book := by
    rw [book?, hladders, Option.bind_some]
    unfold Ladders.side?
    rcases hside with hb | hs
    · exact ⟨ladders.bids, if_pos hb⟩
    · exact ⟨ladders.asks, by rw [hs]; rfl⟩
  obtain ⟨t', ht', horders', hentry'⟩ := withBook_add hbook msg.price msg.shares
  have hadd : t.addOrder msg = (.returned none, t') := by
    unfold addOrder
    dsimp only
    rw [ht']
  have hagree := h.add (o := order) (by simpa [Dict.contains] using hnew) hpos hside
  rw [hadd]
  refine ⟨by rintro ⟨⟩, ?_⟩
  rw [horders', horders, hentry', hentry]
  exact hagree

/-- An order that loses shares. -/
theorem takes_settles (h : Agrees t.orders t.entry) {ref : Nat} {o : ITCHOrder} (ho : t.orders.get? ref = some o) {shares : Nat}
    (hle : shares ≤ o.shares) (t₁ : ITCHOrderBookTracker) (hdepth : t₁.depth = t.depth)
    (horders : t₁.orders = if o.shares - shares = 0 then t.orders.erase ref
      else t.orders.set ref { o with shares := o.shares - shares }) :
    ∃ t', t₁.withBook o.stock o.side (takeShares o.price shares) = some t' ∧ Agrees t'.orders t'.entry := by
  obtain ⟨book, hbook⟩ := book_of_order h ho
  have hbook₁ : t₁.book? o.stock o.side = some book := by rwa [book?, hdepth]
  have hentry₁ : t₁.entry = t.entry := by
    funext x
    rw [entry, entry, book?, book?, hdepth]
  obtain ⟨t', ht', horders', hentry'⟩ := withBook_take hbook₁ o.price shares
  refine ⟨t', ht', ?_⟩
  rw [horders', horders, hentry', hentry₁]
  split
  · have hall : shares = o.shares := by omega
    subst hall
    exact h.remove ho
  · exact h.reduce ho (by omega)

theorem reduceOrder_orders (ref newShares : Nat) (o : ITCHOrder) (t : ITCHOrderBookTracker) :
    (t.reduceOrder ref newShares o).depth = t.depth ∧
      (t.reduceOrder ref newShares o).orders =
        if newShares = 0 then t.orders.erase ref else t.orders.set ref { o with shares := newShares } := by
  unfold reduceOrder
  split <;> exact ⟨rfl, rfl⟩

theorem executeOrder_settles (h : Agrees t.orders t.entry) (msg : ITCHMessage) : Settles (t.executeOrder msg) := by
  unfold executeOrder
  dsimp only
  split
  · unfold executeUnknown
    dsimp only
    split <;> exact ⟨by rintro ⟨⟩, h⟩
  · rename_i o ho
    obtain ⟨hdepth, horders⟩ := reduceOrder_orders msg.orderRef (o.shares - min msg.shares o.shares) o
      { t with totalExecutes := t.totalExecutes + 1 }
    obtain ⟨t', ht', hagree⟩ := takes_settles h ho (Nat.min_le_right ..) _ hdepth horders
    rw [ht']
    exact ⟨by rintro ⟨⟩, hagree⟩

theorem cancelOrder_settles (h : Agrees t.orders t.entry) (msg : ITCHMessage) : Settles (t.cancelOrder msg) := by
  unfold cancelOrder
  dsimp only
  split
  · exact ⟨nofun, h⟩
  · rename_i o ho
    obtain ⟨hdepth, horders⟩ := reduceOrder_orders msg.orderRef (o.shares - min msg.shares o.shares) o
      { t with totalCancels := t.totalCancels + 1 }
    obtain ⟨t', ht', hagree⟩ := takes_settles h ho (Nat.min_le_right ..) _ hdepth horders
    rw [ht']
    exact ⟨nofun, hagree⟩

theorem deleteOrder_settles (h : Agrees t.orders t.entry) (msg : ITCHMessage) : Settles (t.deleteOrder msg) := by
  unfold deleteOrder
  dsimp only
  split
  · exact ⟨nofun, h⟩
  · rename_i o ho
    obtain ⟨t', ht', hagree⟩ := takes_settles h ho (Nat.le_refl _)
      { t with totalCancels := t.totalCancels + 1, orders := t.orders.erase msg.orderRef } rfl (by simp)
    rw [ht']
    exact ⟨nofun, hagree⟩

theorem replaceOrder_settles (h : Agrees t.orders t.entry) {msg : ITCHMessage}
    (hsteady : t.orders.contains msg.orderRef = true →
      0 < msg.shares ∧ (msg.newOrderRef = msg.orderRef ∨ t.orders.contains msg.newOrderRef = false)) :
    Settles (t.replaceOrder msg) := by
  unfold replaceOrder
  dsimp only
  split
  · exact ⟨by rintro ⟨⟩, h⟩
  · rename_i o ho
    obtain ⟨hpos, hfree⟩ := hsteady (Dict.contains_eq_true_iff.mpr ⟨o, ho⟩)
    let t₀ : ITCHOrderBookTracker := { t with totalReplaces := t.totalReplaces + 1, orders := t.orders.erase msg.orderRef }
    obtain ⟨book, hbook⟩ := book_of_order h ho
    have hbook₀ : t₀.book? o.stock o.side = some book := hbook
    obtain ⟨t₁, ht₁, horders₁, hentry₁⟩ := withBook_take hbook₀ o.price o.shares
    obtain ⟨t₁', ht₁', -, hbook₁, -⟩ := withBook_eq hbook₀ (takeShares o.price o.shares)
    cases ht₁.symm.trans ht₁'
    obtain ⟨t₂, ht₂, -, hentry₂⟩ := withBook_add hbook₁ msg.price msg.shares
    obtain ⟨t', ht', horders', hentry'⟩ := withBook_comp hbook₀ _ _ ht₁ ht₂
    rw [ht']
    have hnew : (t.orders.erase msg.orderRef).get? msg.newOrderRef = none := by
      rw [Dict.get?_erase]
      split
      · rfl
      · simpa [Dict.contains, ‹¬_›] using hfree
    have hremoved := h.remove ho
    have hagree := hremoved.add (o := { o with price := msg.price, shares := msg.shares }) hnew hpos (h.sound _ o ho).2
    refine ⟨by rintro ⟨⟩, ?_⟩
    show Agrees (t'.orders.set _ _) t'.entry
    rw [horders', hentry', hentry₂, hentry₁]
    exact hagree

theorem tradingAction_settles (h : Agrees t.orders t.entry) (msg : ITCHMessage) : Settles (t.tradingAction msg) := by
  unfold tradingAction
  dsimp only
  generalize (if msg.stock = "" then (t.locateToStock.get? msg.locate).getD "" else msg.stock) = stock
  split
  · refine ⟨by rintro ⟨⟩, ?_⟩
    have hentry : (t.clearSymbol stock).entry = fun x => if x.1 = stock then none else t.entry x := by
      funext x
      unfold clearSymbol
      rw [entry, book?, Dict.get?_set]
      split
      · rw [Option.bind_some]
        unfold Ladders.side?
        split
        · rfl
        · split <;> rfl
      · rfl
    rw [hentry]
    exact h.clear stock
  · exact ⟨by rintro ⟨⟩, h⟩

theorem systemEvent_settles (h : Agrees t.orders t.entry) (msg : ITCHMessage) : Settles (t.systemEvent msg) := by
  unfold systemEvent
  split
  · exact ⟨nofun, .empty⟩
  · exact ⟨nofun, h⟩

theorem processMessage_settles (h : Agrees t.orders t.entry) {msg : ITCHMessage} (hsteady : t.Steady msg) :
    Settles (t.processMessage msg) := by
  unfold processMessage
  dsimp only
  -- where a locate number points does not concern the book
  generalize ht : (if msg.locate ≠ 0 ∧ msg.stock ≠ "" then { t with locateToStock := t.locateToStock.set msg.locate msg.stock } else t) = t'
  have horders : t'.orders = t.orders := by
    rw [← ht]
    split <;> rfl
  have hentry : t'.entry = t.entry := by
    rw [← ht]
    split <;> rfl
  rw [← horders, ← hentry] at h
  unfold Steady at hsteady
  rw [← horders] at hsteady
  rcases hkind : msg.msgType <;> simp only [hkind] at hsteady ⊢
  case A => exact addOrder_settles h hsteady.1 hsteady.2.1 hsteady.2.2
  case F => exact addOrder_settles h hsteady.1 hsteady.2.1 hsteady.2.2
  case E => exact executeOrder_settles h msg
  case C => exact executeOrder_settles h msg
  case X => exact cancelOrder_settles h msg
  case D => exact deleteOrder_settles h msg
  case U => exact replaceOrder_settles h hsteady
  case H => exact tradingAction_settles h msg
  case S => exact systemEvent_settles h msg
  all_goals exact ⟨by rintro ⟨⟩, h⟩

/-! ## Whole runs -/

/-- After the message the ladders are those of the orders, and a call that raises has changed neither. -/
def Meets (t : ITCHOrderBookTracker) (msg : ITCHMessage) : Prop :=
  (t.next msg).Exact ∧ ((t.processMessage msg).1 = .raised → (t.next msg).orders = t.orders ∧ (t.next msg).depth = t.depth)

theorem meets_along (h : Agrees t.orders t.entry) {msgs : List ITCHMessage} (hsteady : Along next Steady t msgs) :
    Along next Meets t msgs := by
  induction msgs generalizing t with
  | nil => trivial
  | cons msg msgs ih =>
    obtain ⟨hreturns, hagree⟩ := processMessage_settles h hsteady.1
    exact ⟨⟨exact_of_agrees hagree, fun hraised => absurd hraised hreturns⟩, ih hagree hsteady.2⟩

end ITCHOrderBookTracker

/-- The messages of a feed that can be read. -/
def itchMessages (feed : List (Bytes × Bytes)) : List ITCHMessage := feed.filterMap (fun x => ITCHParser.parsePayload x.1 x.2)

/-- Where every order comes with shares, a side and a number that is free, the ladders are those of the orders after every message. -/
theorem itch_exact (feed : List (Bytes × Bytes))
    (h : Along ITCHOrderBookTracker.next ITCHOrderBookTracker.Steady {} (itchMessages feed)) :
    Along ITCHOrderBookTracker.next ITCHOrderBookTracker.Meets {} (itchMessages feed) :=
  ITCHOrderBookTracker.meets_along .empty h

/-- An add for the stock `XY`, as it is sent. -/
def sentAdd (side : UInt8) (orderRef shares price : Nat) : Bytes × Bytes :=
  ([0x41], be 2 7 ++ be 2 0 ++ be 6 0 ++ be 8 orderRef ++ [side] ++ be 4 shares ++ [0x58, 0x59, 32, 32, 32, 32, 32, 32] ++ be 4 price)

/-- An execution, as it is sent. -/
def sentExecute (orderRef shares : Nat) : Bytes × Bytes :=
  ([0x45], be 2 7 ++ be 2 0 ++ be 6 0 ++ be 8 orderRef ++ be 4 shares ++ be 8 1)

/-- A replace, as it is sent. -/
def sentReplace (orderRef newOrderRef shares price : Nat) : Bytes × Bytes :=
  ([0x55], be 2 7 ++ be 2 0 ++ be 6 0 ++ be 8 orderRef ++ be 8 newOrderRef ++ be 4 shares ++ be 4 price)

theorem itch_exact_day :
    Along ITCHOrderBookTracker.next ITCHOrderBookTracker.Meets {}
      (itchMessages [sentAdd 0x42 1 10 100, sentAdd 0x53 2 5 101, sentExecute 1 4, sentReplace 1 3 8 99]) :=
  itch_exact _ (by decide)

/-- A second order under the number of a resting one: the shares of the first one stay at their price. -/
theorem itch_exact_false :
    ¬∀ feed, Along ITCHOrderBookTracker.next ITCHOrderBookTracker.Meets {} (itchMessages feed) := by
  intro h
  obtain ⟨-, ⟨hexact, -⟩, -⟩ := h [sentAdd 0x42 1 10 100, sentAdd 0x42 1 5 100]
  have hdepth := hexact.depth "XY" "B" 100
  revert hdepth
  decide

end Mdrap
