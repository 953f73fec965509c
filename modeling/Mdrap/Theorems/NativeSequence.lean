import Mathlib.Algebra.Order.Field.Rat
import Mdrap.Lib.Window
import Mdrap.Lib.Runs
import Mdrap.Engine.Exact
import Mdrap.Lemmas.Sequence
import Mdrap.Native.Engine

/-!
# The sequence in C and in Python

`seq_check` and the second stage of `QualityEngine.evaluate` place the numbers of a stream in the same way, with the same parts to
remember. One of them differs: a number ahead of the last one ends a count of regressions in C and does not end it in Python. The
second of two far regressions then starts the sequence anew in one of them and not in the other.
-/

namespace Mdrap

open Lib

variable {V W : Type}

/-- A sequence number, and the time of its event. -/
structure Numbered (V : Type) where
  seq : Fin (2 ^ 63 - 1)
  ts : V

/-- The native check of a number, and the verdict. -/
def placeNative (limit : Int64) (sl : FastSlot W) (x : Numbered V) : Except PyError (Option Verdict) × FastSlot W :=
  let (res, sl) := sl.seqCheck limit.toInt x.seq.val .none
  (.ok (some ⟨res.status, res.reasons⟩), sl)

/-- One session and no reordering. -/
def QualityConfig.strict (limit : Int64) (slots : Nat) : QualityConfig := ⟨limit.toInt, false, slots, .strict⟩

/-- The second stage of `evaluate`, and the verdict. -/
def placeStrict (P : Py V) (limit : Int64) (slots : Nat) (sl : SlotState V) (x : Numbered V) :
    Except PyError (Option Verdict) × SlotState V :=
  match sl.place P (.strict limit slots) (.plain x.seq.val x.ts) with
  | .ok (p, sl') => (.ok p.verdict, sl')
  | .error e => (.error e, sl)

/-! ## The lists of stale numbers -/

/-- The ring of the native slot, read from its head, has the numbers of the list last. -/
structure SameStale (head : Nat) (ring stale : List Int) : Prop where
  length : ring.length = STALE_SEEN_CAPACITY
  short : stale.length ≤ STALE_SEEN_CAPACITY
  read : ring.rotate head = List.replicate (STALE_SEEN_CAPACITY - stale.length) (-1) ++ stale

theorem SameStale.empty : SameStale 0 noStale [] := ⟨by decide, by decide, by decide⟩

theorem SameStale.mem {head : Nat} {ring stale : List Int} (h : SameStale head ring stale) {seq : Int} (hseq : 0 ≤ seq) :
    seq ∈ ring ↔ seq ∈ stale := by
  rw [← List.mem_rotate (n := head), h.read, List.mem_append, List.mem_replicate]
  constructor
  · rintro (⟨-, rfl⟩ | hmem)
    · omega
    · exact hmem
  · exact .inr

theorem SameStale.push {head : Nat} {ring stale : List Int} (h : SameStale head ring stale) (seq : Int) :
    SameStale (uint 32 (head + 1)) (ring.set (head % STALE_SEEN_CAPACITY) seq) (Track.push 32 stale seq) := by
  have hlen := h.length
  have hshort := h.short
  simp only [STALE_SEEN_CAPACITY] at hlen hshort
  have hread : (ring.set (head % STALE_SEEN_CAPACITY) seq).rotate (uint 32 (head + 1)) = (ring.rotate head).tail ++ [seq] := by
    have hmod : uint 32 (head + 1) % 32 = (head + 1) % 32 := by
      simp only [uint]
      omega
    have hset : (ring.set (head % STALE_SEEN_CAPACITY) seq).length = 32 := by rw [List.length_set, hlen]
    rw [← List.rotate_mod, hset, hmod, ← hset, List.rotate_mod, show STALE_SEEN_CAPACITY = ring.length from hlen.symm]
    exact rotate_set_succ (by omega) head seq
  rw [h.read] at hread
  refine ⟨by rw [List.length_set, h.length], ?_, ?_⟩
  · simp only [Track.push, STALE_SEEN_CAPACITY]
    split <;> simp at * <;> omega
  · rw [hread, Track.push]
    rcases Nat.lt_or_ge stale.length 32 with hlt | hge
    · obtain ⟨k, hk⟩ : ∃ k, STALE_SEEN_CAPACITY - stale.length = k + 1 := ⟨31 - stale.length, by simp only [STALE_SEEN_CAPACITY]; omega⟩
      rw [if_neg (by simp; omega), hk, List.replicate_succ, List.cons_append, List.tail_cons, List.append_assoc]
      congr 2
      simp only [List.length_append, List.length_singleton]
      omega
    · have hzero : STALE_SEEN_CAPACITY - stale.length = 0 := by simp only [STALE_SEEN_CAPACITY]; omega
      rw [if_pos (by simp; omega), hzero, List.replicate_zero, List.nil_append]
      have hone : STALE_SEEN_CAPACITY - (stale ++ [seq]).tail.length = 0 := by
        simp only [STALE_SEEN_CAPACITY, List.length_tail, List.length_append, List.length_singleton]
        omega
      rw [hone, List.replicate_zero, List.nil_append, List.tail_append_of_ne_nil]
      intro hnil
      rw [hnil] at hge
      simp at hge

/-! ## The slots -/

/-- The native slot remembers what the slot remembers, but its count of regressions may have ended before. -/
structure Follows (c : FastSlot W) (sl : SlotState V) : Prop where
  hasSeq : c.hasSeq = sl.hasSeq
  first : sl.hasSeq = false → sl.regressCount = 0 ∧ sl.staleSeen = []
  last : sl.hasSeq = true → c.lastSeq = sl.lastSeq ∧ 0 ≤ sl.lastSeq ∧ sl.lastSeq < 2 ^ 63 - 1
  seen : sl.hasSeq = true → c.seen = sl.seen
  cand : (c.candPlus1 : Int) = sl.candPlus1 ∧ c.candPlus1 < 2 ^ 63
  regress : sl.regressCount ≤ 1 ∧ (c.regressCount = sl.regressCount ∨ c.regressCount = 0)
  stale : SameStale c.staleHead c.staleSeen sl.staleSeen

/-- A number from before the window that is far back and new finds the same count of regressions in both slots. -/
def SameCount (limit : Int64) (s : FastSlot W × SlotState V) (x : Numbered V) : Prop :=
  s.2.hasSeq = true → SEQUENCE_BITMAP_BITS ≤ s.2.lastSeq - x.seq.val → limit.toInt < s.2.lastSeq - x.seq.val →
    (x.seq.val : Int) ∉ s.2.staleSeen → s.1.regressCount = s.2.regressCount

instance (limit : Int64) (s : FastSlot W × SlotState V) (x : Numbered V) : Decidable (SameCount limit s x) :=
  inferInstanceAs (Decidable (_ → _ → _ → _ → _))

theorem place_strict (P : Py V) (limit : Int64) (slots : Nat) (sl : SlotState V) (seq : Int) (ts : V) :
    sl.place P (.strict limit slots) (.plain seq ts) = .ok (
      if sl.hasSeq then
        if seq > sl.lastSeq then sl.ahead (.strict limit slots) (.plain seq ts) else sl.behind (.strict limit slots) (.plain seq ts)
      else (.goesOn (.plain seq ts), { sl with lastSeq := seq, seen := 1, hasSeq := true })) := by
  rcases hs : sl.hasSeq with _ | _
  · simp [SlotState.place, SlotState.epochReset, hs, bind, Except.bind, pure, Except.pure, QualityConfig.strict, QualityEvent.plain]
  · by_cases hahead : seq > sl.lastSeq
    · simp [SlotState.place, SlotState.epochReset, hs, hahead, bind, Except.bind, pure, Except.pure, QualityConfig.strict,
        QualityEvent.plain]
    · simp [SlotState.place, SlotState.epochReset, hs, hahead, bind, Except.bind, pure, Except.pure, QualityConfig.strict,
        QualityEvent.plain]

theorem placeStrict_behind (P : Py V) (limit : Int64) (slots : Nat) {sl : SlotState V} (hseq : sl.hasSeq = true) {x : Numbered V}
    (hbehind : x.seq.val ≤ sl.lastSeq) :
    placeStrict P limit slots sl x =
      (.ok (sl.behind (.strict limit slots) (.plain x.seq.val x.ts)).1.verdict,
        (sl.behind (.strict limit slots) (.plain x.seq.val x.ts)).2) := by
  simp only [placeStrict, place_strict, hseq, if_true, gt_iff_lt, if_neg (Int.not_lt.mpr hbehind)]

/-- The last number again. -/
theorem placeStrict_again (P : Py V) (limit : Int64) (slots : Nat) {sl : SlotState V} (hseq : sl.hasSeq = true) {x : Numbered V}
    (hlast : sl.lastSeq = x.seq.val) (hseen : sl.seen = 1) :
    (placeStrict P limit slots sl x).1 = .ok (some ⟨.invalid, [.duplicate]⟩) := by
  rw [placeStrict_behind P limit slots hseq (Int.le_of_eq hlast.symm)]
  simp only [SlotState.behind, QualityEvent.plain, hlast, Int.sub_self, hseen]
  rfl

theorem shiftSeen_eq (seen : Nat) (jump : Int) :
    (if jump < 64 then uint 64 (seen <<< jump.toNat : Nat) ||| 1 else 1) = shiftSeen seen jump := by
  rw [shiftSeen, SEQUENCE_BITMAP_BITS]
  split
  · have hmask : SEQUENCE_BITMAP_MASK = 2 ^ 64 - 1 := by decide
    have huint : uint 64 (seen <<< jump.toNat : Nat) = seen <<< jump.toNat % 2 ^ 64 := by
      simp only [uint]
      omega
    rw [hmask, Nat.and_two_pow_sub_one_eq_mod, huint]
    apply Nat.eq_of_testBit_eq
    intro i
    rw [Nat.testBit_or, Nat.testBit_mod_two_pow, Nat.testBit_mod_two_pow, Nat.testBit_or]
    rcases Nat.lt_or_ge i 64 with hi | hi
    · simp [hi]
    · have hone : Nat.testBit 1 i = false := Nat.testBit_lt_two_pow (by
        calc 1 < 2 ^ 1 := by decide
          _ ≤ 2 ^ i := Nat.pow_le_pow_right (by decide) (by omega))
      simp [hone]
  · rfl

/-- The candidate of a jump, as C computes it, is the number it was noted for. -/
theorem FastSlot.near_iff {cand : Nat} (hcand : cand < 2 ^ 63) (limit : Int) {seq : Int} (hseq : 0 ≤ seq ∧ seq < 2 ^ 63 - 1) :
    (cand ≠ 0 ∧ seq > int64 (uint 64 (cand - 1)) ∧ int64 (seq - int64 (uint 64 (cand - 1))) ≤ limit) ↔
      cand ≠ 0 ∧ seq > cand - 1 ∧ seq - (cand - 1) ≤ limit := by
  rcases Nat.eq_zero_or_pos cand with hzero | hpos
  · simp [hzero]
  · have huint : uint 64 (cand - 1) = cand - 1 := by
      have hcast : (cand : Int) - 1 = ((cand - 1 : Nat) : Int) := by omega
      rw [hcast]
      exact uint_eq (by omega)
    have hint : int64 ((cand - 1 : Nat) : Int) = cand - 1 := by
      rw [int64_eq (by omega) (by omega)]
      omega
    have hsub : int64 (seq - (cand - 1)) = seq - (cand - 1) := int64_eq (by omega) (by omega)
    rw [huint, hint, hsub]

/-- How far back a number is, as C computes it. -/
theorem FastSlot.distance {last seq : Int} (hseq : 0 ≤ seq) (hle : seq ≤ last) (hlast : last < 2 ^ 63 - 1) :
    uint 64 (int64 (last - seq)) = (last - seq).toNat := by
  rw [int64_eq (by omega) (by omega)]
  have hcast : last - seq = ((last - seq).toNat : Int) := by omega
  rw [hcast]
  exact uint_eq (by omega)

namespace Follows

variable {c : FastSlot W} {sl : SlotState V}

/-- The candidate of a jump is the same number. -/
theorem near_iff (h : Follows c sl) (limit : Int64) (x : Numbered V) :
    (c.candPlus1 ≠ 0 ∧ (x.seq.val : Int) > int64 (uint 64 (c.candPlus1 - 1)) ∧
        int64 (x.seq.val - int64 (uint 64 (c.candPlus1 - 1))) ≤ limit.toInt) ↔
      sl.candPlus1 ≠ 0 ∧ (x.seq.val : Int) > sl.candPlus1 - 1 ∧ x.seq.val - (sl.candPlus1 - 1) ≤ limit.toInt := by
  have hx := x.seq.isLt
  rw [FastSlot.near_iff h.cand.2 limit.toInt (by omega), h.cand.1, ← Int.natCast_ne_zero, h.cand.1]

/-- A number ahead of the last one. -/
theorem ahead (h : Follows c sl) (hseq : sl.hasSeq = true) (limit : Int64) (slots : Nat) (x : Numbered V)
    (hahead : x.seq.val > sl.lastSeq) :
    let r := c.seqAhead limit.toInt x.seq.val .none
    let q := sl.ahead (.strict limit slots) (.plain x.seq.val x.ts)
    q.1.verdict = some ⟨r.1.status, r.1.reasons⟩ ∧ Follows r.2 q.2 := by
  obtain ⟨hlast, hnonneg, hbound⟩ := h.last hseq
  have hx := x.seq.isLt
  have hrange : 0 ≤ (x.seq.val : Int) ∧ (x.seq.val : Int) < 2 ^ 63 - 1 := by omega
  have hzero : (0 : Nat) < 2 ^ 63 := by decide
  have hjump : int64 (x.seq.val - c.lastSeq) = x.seq.val - sl.lastSeq := by
    rw [hlast]
    exact int64_eq (by omega) (by omega)
  simp only [FastSlot.seqAhead, SlotState.ahead, QualityConfig.strict, QualityEvent.plain, hjump, Bool.false_eq_true, false_and,
    if_false, h.near_iff limit x]
  by_cases hfar : (x.seq.val : Int) - sl.lastSeq > limit.toInt
  · by_cases hnear : sl.candPlus1 ≠ 0 ∧ (x.seq.val : Int) > sl.candPlus1 - 1 ∧ x.seq.val - (sl.candPlus1 - 1) ≤ limit.toInt
    · simp only [hfar, hnear, if_true, ne_eq, not_false_eq_true, and_self]
      refine ⟨rfl, h.hasSeq, fun hno => ?_, fun _ => ⟨rfl, hrange⟩, fun _ => rfl, ⟨rfl, hzero⟩,
        ⟨h.regress.1, .inr rfl⟩, h.stale⟩
      rw [hseq] at hno
      cases hno
    · simp only [hfar, hnear, if_true, if_false]
      have huint : uint 64 (uint 64 (x.seq.val : Int) + 1) = x.seq.val + 1 := by
        rw [uint_eq (by omega), show (x.seq.val : Int) + 1 = ((x.seq.val + 1 : Nat) : Int) by omega]
        exact uint_eq (by omega)
      have hcand : ((x.seq.val + 1 : Nat) : Int) = x.seq.val + 1 ∧ x.seq.val + 1 < 2 ^ 63 := by omega
      rw [huint]
      exact ⟨rfl, h.hasSeq, h.first, h.last, h.seen, hcand, h.regress, h.stale⟩
  · simp only [hfar, if_false, h.seen hseq, shiftSeen_eq]
    refine ⟨?_, h.hasSeq, fun hno => ?_, fun _ => ⟨rfl, hrange⟩, fun _ => rfl, ⟨rfl, hzero⟩,
      ⟨h.regress.1, .inr rfl⟩, h.stale⟩
    · by_cases hgap : (x.seq.val : Int) - sl.lastSeq > 1
      · simp only [hgap, if_true, decide_true]
        rfl
      · simp only [hgap, if_false, decide_false]
        rfl
    · rw [hseq] at hno
      cases hno

theorem distance (h : Follows c sl) (hseq : sl.hasSeq = true) (x : Numbered V) (hbehind : x.seq.val ≤ sl.lastSeq) :
    uint 64 (int64 (c.lastSeq - x.seq.val)) = (sl.lastSeq - x.seq.val).toNat := by
  obtain ⟨hlast, hnonneg, hbound⟩ := h.last hseq
  rw [hlast]
  exact FastSlot.distance (by omega) hbehind hbound

theorem far_iff {limit : Int64} (hlimit : 0 < limit) (d : Int) : d.toNat > uint 64 limit.toInt ↔ d > limit.toInt := by
  have hpos : 0 < limit.toInt := Int64.lt_iff_toInt_lt.mp hlimit
  have hmax := limit.toInt_lt
  have hcast : limit.toInt = (limit.toInt.toNat : Int) := by omega
  rw [hcast, uint_eq (by omega)]
  omega

/-- The last number again, or one before it: the verdicts agree, and the slots do where they count alike. -/
theorem behind (h : Follows c sl) (hseq : sl.hasSeq = true) {limit : Int64} (hlimit : 0 < limit) (slots : Nat) (x : Numbered V)
    (hbehind : x.seq.val ≤ sl.lastSeq) :
    let r := c.seqBehind limit.toInt x.seq.val .none
    let q := sl.behind (.strict limit slots) (.plain x.seq.val x.ts)
    q.1.verdict = some ⟨r.1.status, r.1.reasons⟩ ∧ (SameCount limit (c, sl) x → Follows r.2 q.2) := by
  obtain ⟨hlast, hnonneg, hbound⟩ := h.last hseq
  have hwindow : (sl.lastSeq - x.seq.val).toNat < 64 ↔ sl.lastSeq - x.seq.val < SEQUENCE_BITMAP_BITS := by
    rw [SEQUENCE_BITMAP_BITS]
    omega
  have hlater : (sl.lastSeq - x.seq.val).toNat > 0 ↔ sl.lastSeq - x.seq.val > 0 := by omega
  have hmem := h.stale.mem (show 0 ≤ (x.seq.val : Int) by omega)
  simp only [FastSlot.seqBehind, SlotState.behind, QualityConfig.strict, QualityEvent.plain,
    h.distance hseq x hbehind, far_iff hlimit, hwindow, hlater, hmem, h.seen hseq]
  by_cases hnear : sl.lastSeq - x.seq.val < SEQUENCE_BITMAP_BITS
  · by_cases hseen : sl.seen.testBit (sl.lastSeq - x.seq.val).toNat
    · simp only [hnear, hseen, if_true]
      refine ⟨?_, fun _ => h⟩
      by_cases hfirst : sl.lastSeq - x.seq.val > 0
      · simp only [hfirst, if_true, decide_true]
        rfl
      · simp only [hfirst, if_false, decide_false]
        rfl
    · simp only [hnear, hseen, if_true, Bool.false_eq_true, if_false]
      have hbit : uint 64 (1 <<< (sl.lastSeq - x.seq.val).toNat : Nat) = 1 <<< (sl.lastSeq - x.seq.val).toNat := by
        apply uint_eq
        rw [Nat.one_shiftLeft]
        exact Nat.pow_lt_pow_right (by decide) (hwindow.mpr hnear)
      refine ⟨rfl, fun _ => ⟨h.hasSeq, h.first, h.last, fun _ => ?_, h.cand, h.regress, h.stale⟩⟩
      simp only [hbit]
  · by_cases hstale : (x.seq.val : Int) ∈ sl.staleSeen
    · simp only [hnear, hstale, if_true, if_false]
      exact ⟨rfl, fun _ => h⟩
    · simp only [hnear, hstale, if_false]
      by_cases hback : sl.lastSeq - x.seq.val > limit.toInt
      · obtain ⟨hone, hcount⟩ := h.regress
        have hregress : uint 32 ((c.regressCount : Int) + 1) = c.regressCount + 1 := by
          rw [show (c.regressCount : Int) + 1 = ((c.regressCount + 1 : Nat) : Int) by omega]
          exact uint_eq (by omega)
        have hlate : some (Verdict.mk (FastResult.none.mark .suspicious REASON_OUT_OF_ORDER).status
            (FastResult.none.mark .suspicious REASON_OUT_OF_ORDER).reasons) = some ⟨.suspicious, [.outOfOrder]⟩ := rfl
        simp only [hback, if_true, hregress]
        have hsame : SameCount limit (c, sl) x → c.regressCount = sl.regressCount := fun hs =>
          hs hseq (Int.not_lt.mp hnear) hback hstale
        by_cases htwice : 2 ≤ sl.regressCount + 1
        · rw [if_pos htwice]
          have hrange : 0 ≤ (x.seq.val : Int) ∧ (x.seq.val : Int) < 2 ^ 63 - 1 := by omega
          have hzero : (0 : Nat) < 2 ^ 63 := by decide
          constructor
          · split
            · exact hlate.symm
            · exact hlate.symm
          · intro hs
            rw [if_pos (show c.regressCount + 1 ≥ 2 by rw [hsame hs]; exact htwice)]
            exact ⟨h.hasSeq, fun _ => ⟨rfl, rfl⟩, fun _ => ⟨rfl, hrange⟩, fun _ => rfl, ⟨rfl, hzero⟩, ⟨Nat.zero_le 1, .inl rfl⟩, .empty⟩
        · have honce : sl.regressCount + 1 ≤ 1 := by omega
          rw [if_neg htwice, if_neg (by omega)]
          refine ⟨hlate.symm, fun hs => ⟨h.hasSeq, fun hno => ?_, h.last, fun _ => rfl, h.cand, ⟨honce, .inl ?_⟩, h.stale.push _⟩⟩
          · rw [show sl.hasSeq = false from hno] at hseq
            cases hseq
          · exact congrArg (· + 1) (hsame hs)
      · simp only [hback, if_false]
        refine ⟨rfl, fun _ => ⟨h.hasSeq, fun hno => ?_, h.last, fun _ => rfl, h.cand, ⟨Nat.zero_le 1, .inl rfl⟩, h.stale.push _⟩⟩
        rw [show sl.hasSeq = false from hno] at hseq
        cases hseq

/-- A number in the two slots: the verdicts agree, and the slots do where they count alike. -/
theorem step (h : Follows c sl) (P : Py V) {limit : Int64} (hlimit : 0 < limit) (slots : Nat) (x : Numbered V) :
    (placeNative limit c x).1 = (placeStrict P limit slots sl x).1 ∧
      (SameCount limit (c, sl) x → Follows (placeNative limit c x).2 (placeStrict P limit slots sl x).2) := by
  have hx := x.seq.isLt
  simp only [placeNative, placeStrict, place_strict, FastSlot.seqCheck, h.hasSeq]
  rcases hseq : sl.hasSeq with _ | _
  · obtain ⟨hregress, hstale⟩ := h.first hseq
    have hrange : 0 ≤ (x.seq.val : Int) ∧ (x.seq.val : Int) < 2 ^ 63 - 1 := by omega
    simp only [Bool.not_false, if_true, Bool.false_eq_true, if_false]
    refine ⟨rfl, fun _ => ⟨rfl, fun hno => ?_, fun _ => ⟨rfl, hrange⟩, fun _ => rfl, h.cand, ⟨h.regress.1, .inl ?_⟩, ?_⟩⟩
    · cases hno
    · exact hregress.symm
    · show SameStale 0 noStale sl.staleSeen
      rw [hstale]
      exact .empty
  · simp only [Bool.not_true, Bool.false_eq_true, if_false, if_true, (h.last hseq).1]
    by_cases hahead : (x.seq.val : Int) > sl.lastSeq
    · obtain ⟨hverdict, hfollows⟩ := h.ahead hseq limit slots x hahead
      rw [if_pos hahead, if_pos hahead, hverdict]
      exact ⟨rfl, fun _ => hfollows⟩
    · obtain ⟨hverdict, hfollows⟩ := h.behind hseq hlimit slots x (Int.not_lt.mp hahead)
      rw [if_neg hahead, if_neg hahead, hverdict]
      exact ⟨rfl, hfollows⟩

/-- Where the slots do not count alike, one of them starts anew: the same number once more tells them apart. -/
theorem apart (h : Follows c sl) (P : Py V) {limit : Int64} (hlimit : 0 < limit) (slots : Nat) {x : Numbered V}
    (hx : ¬SameCount limit (c, sl) x) :
    (placeNative limit (placeNative limit c x).2 x).1 ≠ (placeStrict P limit slots (placeStrict P limit slots sl x).2 x).1 := by
  simp only [SameCount, not_forall, exists_prop] at hx
  obtain ⟨hseq, hwindow, hfar, hstale, hcount⟩ := hx
  have hbehind : (x.seq.val : Int) ≤ sl.lastSeq := by
    rw [SEQUENCE_BITMAP_BITS] at hwindow
    omega
  have hbehind' : ¬(x.seq.val : Int) > c.lastSeq := by
    rw [(h.last hseq).1]
    omega
  have hd := h.distance hseq x hbehind
  have hwindow' : ¬(sl.lastSeq - x.seq.val).toNat < 64 := by
    rw [SEQUENCE_BITMAP_BITS] at hwindow
    omega
  have hstale' : (x.seq.val : Int) ∉ c.staleSeen := (h.stale.mem (by omega)).not.mpr hstale
  obtain ⟨hone, hzero⟩ := h.regress
  have hnone : c.regressCount = 0 := by omega
  have hnative : (placeNative limit c x).2 = { c with regressCount := 1 }.pushStale x.seq.val := by
    have hregress : uint 32 (((0 : Nat) : Int) + 1) = 1 := by decide
    simp only [placeNative, FastSlot.seqCheck, h.hasSeq, hseq, Bool.not_true, Bool.false_eq_true, if_false, hbehind',
      FastSlot.seqBehind, hd, hwindow', hstale', far_iff hlimit, hfar, gt_iff_lt, if_true, hnone, hregress]
    rfl
  have hstrict : (placeStrict P limit slots sl x).2 =
      { sl with lastSeq := x.seq.val, seen := 1, regressCount := 0, candPlus1 := 0, staleSeen := [] } := by
    have htwice : 2 ≤ sl.regressCount + 1 := by omega
    simp only [placeStrict_behind P limit slots hseq hbehind, SlotState.behind, QualityConfig.strict, QualityEvent.plain, gt_iff_lt,
      if_neg (Int.not_lt.mpr hwindow), hstale, if_false, hfar, htwice, if_true]
  rw [hnative, hstrict]
  have hmem : (x.seq.val : Int) ∈ c.staleSeen.set (c.staleHead % STALE_SEEN_CAPACITY) x.seq.val := by
    apply List.mem_set
    rw [h.stale.length]
    exact Nat.mod_lt _ (by decide)
  have hagain : (placeNative limit ({ c with regressCount := 1 }.pushStale x.seq.val) x).1 =
      .ok (some ⟨.invalid, [.duplicate, .outOfOrder]⟩) := by
    simp only [placeNative, FastSlot.seqCheck, FastSlot.pushStale, h.hasSeq, hseq, Bool.not_true, Bool.false_eq_true, if_false,
      hbehind', FastSlot.seqBehind, hd, hwindow', hmem, if_true]
    rfl
  rw [hagain, placeStrict_again]
  · decide
  · exact hseq
  · rfl
  · rfl

end Follows

/-- The slot of a source and an instrument that nothing was heard of. -/
def FastSlot.fresh (F : Floats W) (ring : List W) (epoch : Nat) : FastSlot W := (FastSlot.zeroed F ring).touch F epoch

theorem Follows.fresh (F : Floats W) (ring : List W) (epoch : Nat) : Follows (FastSlot.fresh F ring epoch) (.new : SlotState V) :=
  ⟨rfl, fun _ => ⟨rfl, rfl⟩, nofun, nofun, ⟨rfl, Nat.two_pow_pos 63⟩, ⟨Nat.zero_le 1, .inl rfl⟩, .empty⟩

/-- The two engines give the same verdicts on a list of numbers, and on whatever number could come next at any point of it, exactly
when each number of it that is far back and new finds the same count of regressions in both. -/
theorem native_verdicts (P : Py V) (F : Floats W) (ring : List W) (epoch : Nat) {limit : Int64} (hlimit : 0 < limit) (slots : Nat)
    (xs : List (Numbered V)) :
    (∀ ys, ys <+: xs → ∀ y, outcomes (placeNative limit) (.fresh F ring epoch) (ys ++ [y]) =
        outcomes (placeStrict P limit slots) .new (ys ++ [y])) ↔
      Along (fun s x => ((placeNative limit s.1 x).2, (placeStrict P limit slots s.2 x).2)) (SameCount limit)
        (.fresh F ring epoch, .new) xs := by
  refine outcomes_eq_ahead_iff (R := Follows) ?_ ?_ ?_ (Follows.fresh F ring epoch) xs
  · intro c sl x h
    exact (h.step P hlimit slots x).1
  · intro c sl x h hx
    exact (h.step P hlimit slots x).2 hx
  · intro c sl x h hx
    exact ⟨x, h.apart P hlimit slots hx⟩

/-- Halts with these numbers. -/
def halted (seqs : List Nat) : List (Numbered PyNum) :=
  seqs.map (fun seq => ⟨⟨seq % (2 ^ 63 - 1), Nat.mod_lt seq (by decide)⟩, exactPy.dec 1 0⟩)

set_option maxRecDepth 4000 in
theorem native_verdicts_first :
    (0 : Int64) < 16777216 ∧
      ∀ ys, ys <+: halted [7, 8, 10, 9, 9] → ∀ y,
        outcomes (placeNative 16777216) (.fresh (Floats.exact (K := ℚ) id (fun _ => 0)) [] 0) (ys ++ [y]) =
          outcomes (placeStrict exactPy 16777216 32) .new (ys ++ [y]) :=
  ⟨by decide, (native_verdicts exactPy _ [] 0 (by decide) 32 _).mpr (by decide)⟩

set_option maxRecDepth 4000 in
/-- Two far regressions with a number ahead between them: the second one starts the sequence anew in Python alone. -/
theorem native_verdicts_false :
    ¬∀ xs : List (Numbered PyNum),
      outcomes (placeNative 16777216) (.fresh (Floats.exact (K := ℚ) id (fun _ => 0)) [] 0) xs =
        outcomes (placeStrict exactPy 16777216 32) .new xs := by
  intro h
  have hlast := congrArg List.getLast? (h (halted [33554432, 0, 33554433, 1, 1]))
  revert hlast
  decide

end Mdrap
