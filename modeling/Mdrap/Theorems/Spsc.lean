import Mathlib.Algebra.Group.Nat.Defs
import Mathlib.Order.Basic
import Mathlib.Order.Nat
import Mdrap.Partition.Spsc

/-!
# What is polled

Each thread's locals stay true while the other one goes on: the head is the producer's and the tail is the consumer's, and a slot is
written by the producer only while it is not among those that hold an item still to be polled.
-/

namespace Mdrap

open Lib

variable {α : Type*}

namespace PySpscRingQueue

theorem roundUp_spec {capacity : Nat} (k : Nat) : ∃ k', roundUp capacity (2 ^ k) = 2 ^ k' ∧ capacity ≤ 2 ^ k' := by
  by_cases hless : 2 ^ k < capacity
  · have hpos := Nat.two_pow_pos k
    rw [roundUp, if_pos ⟨hpos, hless⟩, Nat.shiftLeft_eq, Nat.pow_one, ← Nat.pow_succ]
    exact roundUp_spec (k + 1)
  · rw [roundUp, if_neg (fun h => hless h.2)]
    exact ⟨k, rfl, Nat.not_lt.mp hless⟩
termination_by capacity - 2 ^ k
decreasing_by
  rw [Nat.pow_succ]
  omega

/-- Rounding up gives a power of two with room for what was asked. -/
theorem exists_capacity (capacity : Nat) : ∃ k, (new capacity : PySpscRingQueue α).capacity = 2 ^ k ∧ capacity ≤ 2 ^ k :=
  roundUp_spec 0

end PySpscRingQueue

/-- Places less than a round apart are in one slot only where they are the same. -/
theorem eq_of_mod_eq {c i j : Nat} (h : i % c = j % c) (hij : i ≤ j) (hlt : j < i + c) : i = j := by
  have hdvd : c ∣ j - i := Nat.dvd_of_mod_eq_zero (Nat.sub_mod_eq_zero_of_mod_eq h.symm)
  have hzero := Nat.eq_zero_of_dvd_of_lt hdvd (by omega)
  omega

namespace SpscRun

variable {r : SpscRun α}

/-- The first place whose item is in the ring. -/
def first (r : SpscRun α) : Nat :=
  match r.consumer with
  | .writeTail _ _ => r.polled.length + 1
  | _ => r.polled.length

/-- What the producer knows. -/
def ProducerKept (r : SpscRun α) : Prop :=
  match r.producer with
  | .idle => True
  | .readTail _ head => head = r.offered.length
  | .writeSlot _ head => head = r.offered.length ∧ r.offered.length < r.polled.length + r.queue.capacity
  | .writeHead head item =>
    head = r.offered.length ∧ r.offered.length < r.polled.length + r.queue.capacity ∧
      r.queue.buffer[head % r.queue.capacity]? = some (some item)

/-- What the consumer knows. -/
def ConsumerKept (r : SpscRun α) : Prop :=
  match r.consumer with
  | .idle => True
  | .readHead tail => tail = r.polled.length
  | .readSlot tail => tail = r.polled.length ∧ r.polled.length < r.offered.length
  | .clearSlot tail item => tail = r.polled.length ∧ ∃ x, item = some x ∧ r.offered[tail]? = some x
  | .writeTail tail item => tail = r.polled.length ∧ ∃ x, item = some x ∧ r.offered[tail]? = some x

/-- What holds between the accesses. -/
structure Kept (r : SpscRun α) : Prop where
  power : ∃ k, r.queue.capacity = 2 ^ k
  mask : r.queue.mask = r.queue.capacity - 1
  size : r.queue.buffer.length = r.queue.capacity
  head : r.queue.head = r.offered.length
  tail : r.queue.tail = r.polled.length
  order : r.polled.length ≤ r.offered.length
  room : r.offered.length ≤ r.polled.length + r.queue.capacity
  inOrder : r.polled = (r.offered.take r.polled.length).map some
  slots : ∀ i x, r.first ≤ i → r.offered[i]? = some x → r.queue.buffer[i % r.queue.capacity]? = some (some x)
  producer : r.ProducerKept
  consumer : r.ConsumerKept
  failed : ∀ full ∈ r.failed, full = true

namespace Kept

theorem capacity_pos (h : r.Kept) : 0 < r.queue.capacity := by
  obtain ⟨k, hk⟩ := h.power
  rw [hk]
  exact Nat.two_pow_pos k

theorem slot_eq (h : r.Kept) (n : Nat) : n &&& r.queue.mask = n % r.queue.capacity := by
  obtain ⟨k, hk⟩ := h.power
  rw [h.mask, hk, Nat.and_two_pow_sub_one_eq_mod]

theorem polled_le_first (r : SpscRun α) : r.polled.length ≤ r.first := by
  unfold first
  split
  · exact Nat.le_succ _
  · exact Nat.le_refl _

end Kept

theorem kept_start (capacity : Nat) : (start capacity : SpscRun α).Kept := by
  obtain ⟨k, hk, -⟩ := PySpscRingQueue.exists_capacity (α := α) capacity
  exact {
    power := ⟨k, hk⟩
    mask := rfl
    size := List.length_replicate
    head := rfl
    tail := rfl
    order := Nat.le_refl _
    room := Nat.zero_le _
    inOrder := rfl
    slots := by simp [start]
    producer := trivial
    consumer := trivial
    failed := by simp [start] }

/-! ## The producer -/

theorem kept_produce (h : r.Kept) (hfull : r.isFull = true → r.wasFull = true) : r.produce.Kept := by
  have hfirst := Kept.polled_le_first r
  have hproducer := h.producer
  unfold ProducerKept at hproducer
  unfold produce
  cases hpc : r.producer with
  | idle => exact h
  | readTail item head =>
    simp only [hpc] at hproducer ⊢
    by_cases hfail : (r.queue.capacity : Int) ≤ (head : Int) - r.queue.tail
    · rw [if_pos hfail]
      refine { h with producer := trivial, failed := ?_ }
      have hseen : r.wasFull = true := by
        refine hfull (decide_eq_true ?_)
        have := h.tail
        omega
      intro full hmem
      rcases List.mem_append.mp hmem with hold | hnew
      · exact h.failed full hold
      · exact (List.mem_singleton.mp hnew).trans hseen
    · rw [if_neg hfail]
      refine { h with producer := ⟨hproducer, ?_⟩ }
      have := h.tail
      dsimp only
      omega
  | writeSlot item head =>
    simp only [hpc] at hproducer ⊢
    obtain ⟨rfl, hroom⟩ := hproducer
    have hslot : r.offered.length &&& r.queue.mask < r.queue.buffer.length := by
      rw [h.slot_eq, h.size]
      exact Nat.mod_lt _ h.capacity_pos
    refine { h with size := ?_, slots := ?_, producer := ⟨rfl, hroom, ?_⟩ }
    · exact (List.length_set ..).trans h.size
    · intro i x hi hx
      have hlt : i < r.offered.length := (List.getElem?_eq_some_iff.mp hx).1
      have hne : r.offered.length % r.queue.capacity ≠ i % r.queue.capacity := by
        intro heq
        have hle : r.polled.length ≤ i := hfirst.trans hi
        exact absurd (eq_of_mod_eq heq.symm hlt.le (by omega)) hlt.ne
      have hold := h.slots i x hi hx
      dsimp only
      rwa [h.slot_eq, List.getElem?_set_ne hne]
    · dsimp only
      rw [h.slot_eq] at hslot ⊢
      exact List.getElem?_set_self hslot
  | writeHead head item =>
    simp only [hpc] at hproducer ⊢
    obtain ⟨rfl, hroom, hitem⟩ := hproducer
    refine { h with head := ?_, order := ?_, room := ?_, inOrder := ?_, slots := ?_, producer := trivial, consumer := ?_ }
    · simp
    · simpa using h.order.trans (Nat.le_succ _)
    · simpa using Nat.succ_le_of_lt hroom
    · dsimp only
      rw [List.take_append_of_le_length h.order]
      exact h.inOrder
    · intro i x hi hx
      rcases Nat.lt_trichotomy i r.offered.length with hlt | rfl | hgt
      · rw [List.getElem?_append_left hlt] at hx
        exact h.slots i x hi hx
      · rw [List.getElem?_concat_length] at hx
        cases hx
        exact hitem
      · rw [List.getElem?_eq_none (by simpa using Nat.succ_le_of_lt hgt)] at hx
        cases hx
    · have hconsumer := h.consumer
      unfold ConsumerKept at hconsumer ⊢
      have hkeep : ∀ (n : Nat) (x : α), r.offered[n]? = some x → (r.offered ++ [item])[n]? = some x := by
        intro n x hx
        rwa [List.getElem?_append_left (List.getElem?_eq_some_iff.mp hx).1]
      cases hc : r.consumer with
      | idle => trivial
      | readHead tail => simpa only [hc] using hconsumer
      | readSlot tail =>
        simp only [hc] at hconsumer ⊢
        exact ⟨hconsumer.1, by simpa using Nat.lt_succ_of_lt hconsumer.2⟩
      | clearSlot tail item =>
        simp only [hc] at hconsumer ⊢
        exact hconsumer.imp_right (fun ⟨x, hx, hat⟩ => ⟨x, hx, hkeep _ _ hat⟩)
      | writeTail tail item =>
        simp only [hc] at hconsumer ⊢
        exact hconsumer.imp_right (fun ⟨x, hx, hat⟩ => ⟨x, hx, hkeep _ _ hat⟩)

/-! ## The consumer -/

theorem kept_consume (h : r.Kept) : r.consume.Kept := by
  have hconsumer := h.consumer
  unfold ConsumerKept at hconsumer
  have hproducer := h.producer
  have hslots := h.slots
  unfold first at hslots
  unfold consume
  cases hpc : r.consumer with
  | idle => exact h
  | readHead tail =>
    simp only [hpc] at hconsumer hslots ⊢
    split
    · exact { h with consumer := trivial, slots := hslots }
    · rename_i hne
      refine { h with consumer := ⟨hconsumer, ?_⟩, slots := hslots }
      have := h.head
      have := h.order
      have hlt : r.polled.length ≠ r.offered.length := by omega
      exact Nat.lt_of_le_of_ne h.order hlt
  | readSlot tail =>
    simp only [hpc] at hconsumer hslots ⊢
    obtain ⟨rfl, hlt⟩ := hconsumer
    obtain ⟨x, hx⟩ : ∃ x, r.offered[r.polled.length]? = some x := ⟨_, List.getElem?_eq_getElem hlt⟩
    refine { h with consumer := ⟨rfl, x, ?_, hx⟩, slots := hslots }
    rw [h.slot_eq, hslots _ x (Nat.le_refl _) hx]
    rfl
  | clearSlot tail item =>
    simp only [hpc] at hconsumer hslots ⊢
    obtain ⟨rfl, x, rfl, hx⟩ := hconsumer
    have hother : ∀ i, r.polled.length < i → i < r.polled.length + r.queue.capacity →
        r.polled.length % r.queue.capacity ≠ i % r.queue.capacity :=
      fun i hi hlt heq => absurd (eq_of_mod_eq heq hi.le hlt) hi.ne
    have hlt : r.polled.length < r.offered.length := (List.getElem?_eq_some_iff.mp hx).1
    refine { h with size := ?_, slots := ?_, producer := ?_, consumer := ⟨rfl, x, rfl, hx⟩ }
    · exact (List.length_set ..).trans h.size
    · intro i y hi hy
      have hi' : r.polled.length < i := hi
      have hiLt : i < r.offered.length := (List.getElem?_eq_some_iff.mp hy).1
      dsimp only
      rw [h.slot_eq, List.getElem?_set_ne (hother i hi' (hiLt.trans_le h.room))]
      exact hslots i y hi'.le hy
    · unfold ProducerKept at hproducer ⊢
      cases hp : r.producer with
      | writeHead head item =>
        simp only [hp] at hproducer ⊢
        obtain ⟨rfl, hroom, hitem⟩ := hproducer
        refine ⟨rfl, hroom, ?_⟩
        rwa [h.slot_eq, List.getElem?_set_ne (hother _ hlt hroom)]
      | idle => trivial
      | _ => simpa only [hp] using hproducer
  | writeTail tail item =>
    simp only [hpc] at hconsumer hslots ⊢
    obtain ⟨rfl, x, rfl, hx⟩ := hconsumer
    have hlt : r.polled.length < r.offered.length := (List.getElem?_eq_some_iff.mp hx).1
    refine { h with tail := ?_, order := ?_, room := ?_, inOrder := ?_, slots := ?_, producer := ?_, consumer := trivial }
    · simp
    · simpa using Nat.succ_le_of_lt hlt
    · have := h.room
      simp only [List.length_append, List.length_singleton]
      omega
    · dsimp only
      rw [List.length_append, List.length_singleton, List.take_add_one, hx, List.map_append, ← h.inOrder]
      rfl
    · intro i y hi hy
      refine hslots i y ?_ hy
      simpa [first] using hi
    · unfold ProducerKept at hproducer ⊢
      cases hp : r.producer with
      | idle => trivial
      | readTail item head => simpa only [hp] using hproducer
      | writeSlot item head =>
        simp only [hp, List.length_append, List.length_singleton] at hproducer ⊢
        exact hproducer.imp_right (fun hroom => by omega)
      | writeHead head item =>
        simp only [hp, List.length_append, List.length_singleton] at hproducer ⊢
        exact hproducer.imp_right (And.imp_left (fun hroom => by omega))

/-! ## Runs -/

/-- What holds between the accesses, with what the offer that is being made has seen. -/
def Inv (r : SpscRun α) : Prop := r.Kept ∧ (r.isFull = true → r.wasFull = true)

theorem kept_access (h : r.Inv) (e : SpscEvent α) : (r.access e).Kept := by
  obtain ⟨hkept, hfull⟩ := h
  cases e with
  | offer item =>
    unfold access
    cases hpc : r.producer with
    | idle => exact { hkept with producer := hkept.head }
    | _ => simpa only [hpc] using hkept
  | produce => exact kept_produce hkept hfull
  | poll =>
    unfold access
    cases hpc : r.consumer with
    | idle =>
      refine { hkept with consumer := hkept.tail, slots := ?_ }
      have hslots := hkept.slots
      unfold first at hslots
      simp only [hpc] at hslots
      exact hslots
    | _ => simpa only [hpc] using hkept
  | consume => exact kept_consume hkept

theorem inv_step (h : r.Inv) (e : SpscEvent α) : (r.step e).Inv := by
  have hkept := kept_access h e
  refine ⟨{ hkept with }, ?_⟩
  intro hfull
  have hnow : (r.access e).isFull = true := hfull
  simp only [step, hnow, Bool.or_true]

theorem inv_start (capacity : Nat) : (start capacity : SpscRun α).Inv := by
  refine ⟨kept_start capacity, ?_⟩
  intro hfull
  have hpos := (kept_start (α := α) capacity).capacity_pos
  have hle : (start capacity : SpscRun α).queue.capacity ≤ 0 := of_decide_eq_true hfull
  omega

theorem inv_run (capacity : Nat) (es : List (SpscEvent α)) : (runFrom step (start capacity) es).Inv := by
  suffices h : ∀ r : SpscRun α, r.Inv → (runFrom step r es).Inv from h _ (inv_start capacity)
  induction es with
  | nil => exact fun r h => h
  | cons e es ih => exact fun r h => ih (r.step e) (inv_step h e)

theorem capacity_step (r : SpscRun α) (e : SpscEvent α) : (r.step e).queue.capacity = r.queue.capacity := by
  cases e with
  | offer item => cases hpc : r.producer <;> simp [step, access, hpc]
  | produce =>
    cases hpc : r.producer with
    | readTail item head =>
      simp only [step, access, produce, hpc]
      split <;> rfl
    | _ => simp [step, access, produce, hpc]
  | poll => cases hpc : r.consumer <;> simp [step, access, hpc]
  | consume =>
    cases hpc : r.consumer with
    | readHead tail =>
      simp only [step, access, consume, hpc]
      split <;> rfl
    | _ => simp [step, access, consume, hpc]

theorem capacity_run (capacity : Nat) (es : List (SpscEvent α)) :
    capacity ≤ (runFrom step (start capacity : SpscRun α) es).queue.capacity := by
  suffices h : ∀ r : SpscRun α, capacity ≤ r.queue.capacity → capacity ≤ (runFrom step r es).queue.capacity by
    obtain ⟨k, hk, hle⟩ := PySpscRingQueue.exists_capacity (α := α) capacity
    exact h _ (hle.trans_eq hk.symm)
  induction es with
  | nil => exact fun r h => h
  | cons e es ih => exact fun r h => ih (r.step e) (h.trans_eq (capacity_step r e).symm)

end SpscRun

/-- Wherever a run is cut, what was polled is the beginning of what was offered, in order; the ring's two numbers say how much of each;
an offer that failed has seen the ring full, which has room for at least the given capacity; and no size is negative, whenever its two
numbers are read. -/
theorem spsc_linear (capacity : Nat) (es : List (SpscEvent α)) :
    let r := runFrom SpscRun.step (SpscRun.start capacity) es
    r.polled = (r.offered.take r.polled.length).map some ∧ r.polled.length ≤ r.offered.length ∧
      r.queue.head = r.offered.length ∧ r.queue.tail = r.polled.length ∧ capacity ≤ r.queue.capacity ∧
      (∀ full ∈ r.failed, full = true) ∧ ∀ head tail, 0 ≤ PySpscRingQueue.qsize head tail := by
  obtain ⟨h, -⟩ := SpscRun.inv_run capacity es
  exact ⟨h.inOrder, h.order, h.head, h.tail, SpscRun.capacity_run capacity es, h.failed, fun head tail => Int.le_max_left ..⟩

/-- Both threads are in the middle of a call: one item was polled, another one was offered. -/
example :
    let r := runFrom SpscRun.step (SpscRun.start 1)
      [.offer 'a', .produce, .poll, .produce, .produce, .consume, .offer 'b', .poll, .consume, .produce, .consume, .consume, .consume,
        .offer 'c', .produce, .produce]
    r.polled = [some 'a'] ∧ r.offered = ['a'] ∧ r.failed = [true] := by
  decide +kernel

end Mdrap
