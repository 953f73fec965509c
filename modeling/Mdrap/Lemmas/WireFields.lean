import Mdrap.Theorems.Wire
import Mdrap.Protocol.Sbe
import Mdrap.Shm.Slot

/-!
# The fields of a frame

A field is read back from where it was put. A text comes back without the NULs at its end, and a number with its bits.
-/

namespace Mdrap

open Lib

theorem wireField_left {a : Bytes} {n : Nat} (b : Bytes) (h : a.length = n) : wireField (a ++ b) 0 n = a := by
  subst h
  exact List.take_left

theorem wireField_whole {a : Bytes} {n : Nat} (h : a.length = n) : wireField a 0 n = a := List.take_of_length_le h.le

theorem wireField_right {a : Bytes} {pos : Nat} (b : Bytes) (n : Nat) (h : a.length ≤ pos) :
    wireField (a ++ b) pos n = wireField b (pos - a.length) n := by
  unfold wireField
  rw [List.drop_append, List.drop_of_length_le h, List.nil_append]

theorem unpackDouble_eq {payload : Bytes} {pos : Nat} {bits : UInt64} (h : wireField payload pos 8 = packDouble bits) :
    unpackDouble payload pos = bits := by
  unfold unpackDouble
  rw [h, packDouble, leNat_le_of_lt bits.toNat_lt]
  exact UInt64.ofNat_toNat

/-- A text without the NULs at its end. -/
def stripNul (s : List Char) : List Char := (s.reverse.dropWhile (fun c => c = Char.ofNat 0)).reverse

theorem stripNul_zeros (s : List Char) (n : Nat) : stripNul (s ++ List.replicate n (Char.ofNat 0)) = stripNul s := by
  unfold stripNul
  rw [List.reverse_append, List.reverse_replicate]
  congr 1
  induction n with
  | zero => rfl
  | succ n ih =>
    rw [List.replicate_succ, List.cons_append, List.dropWhile_cons_of_pos (by simp)]
    exact ih

/-- A text is kept exactly where there is no NUL at its end. -/
theorem stripNul_eq_iff (s : List Char) : stripNul s = s ↔ s.getLast? ≠ some (Char.ofNat 0) := by
  unfold stripNul
  rw [List.reverse_eq_iff, List.getLast?_eq_head?_reverse]
  rcases hs : s.reverse with _ | ⟨c, rest⟩
  · simp
  · by_cases hc : c = Char.ofNat 0
    · have hlt : (rest.dropWhile (fun c => c = Char.ofNat 0)).length < (c :: rest).length :=
        Nat.lt_succ_of_le (List.dropWhile_suffix _).length_le
      rw [List.dropWhile_cons_of_pos (by simpa using hc)]
      constructor
      · intro h
        rw [h] at hlt
        exact absurd hlt (Nat.lt_irrefl _)
      · intro h
        exact absurd (congrArg some hc) h
    · rw [List.dropWhile_cons_of_neg (by simpa using hc)]
      constructor
      · rintro - h
        exact hc (Option.some.inj h)
      · intro
        rfl

theorem decode_packed {s : List Char} (h : ∀ c ∈ s, c.toNat < 128) :
    (s.map (fun c => if c.toNat < 128 then UInt8.ofNat c.toNat else 0x3f)).map
      (fun b => if b.toNat < 128 then Char.ofNat b.toNat else '\uFFFD') = s := by
  induction s with
  | nil => rfl
  | cons c s ih =>
    have hc : c.toNat < 128 := h c List.mem_cons_self
    have hbyte : (UInt8.ofNat c.toNat).toNat = c.toNat := by
      rw [UInt8.toNat_ofNat']
      omega
    rw [List.map_cons, List.map_cons, ih (fun c hc => h c (List.mem_cons_of_mem _ hc)), if_pos hc, hbyte, if_pos hc, Char.ofNat_toNat]

/-- The text in a field is the one that was packed, without the NULs at its end. -/
theorem sbeText_eq {payload : Bytes} {pos n : Nat} {s : String} (hascii : ∀ c ∈ s.toList, c.toNat < 128) (hlen : s.toList.length ≤ n)
    (h : wireField payload pos n = packText n s) : sbeText payload pos n = String.ofList (stripNul s.toList) := by
  unfold sbeText
  rw [h, packText]
  rw [List.take_of_length_le (by rwa [List.length_map]), List.map_append, decode_packed hascii, zeros, List.map_replicate]
  exact congrArg String.ofList (stripNul_zeros s.toList _)

theorem leNat_packUInt64 {n : Int} {b : Bytes} (h : packUInt64 n = some b) : (leNat b : Int) = n := by
  unfold packUInt64 at h
  split at h
  · rename_i hn
    cases h
    rw [leNat_le_of_lt (by omega)]
    omega
  · cases h

/-- A text that a field of `n` bytes holds, and that does not end in a NUL. -/
def FitsField (n : Nat) (s : String) : Prop :=
  (∀ c ∈ s.toList, c.toNat < 128) ∧ s.toList.length ≤ n ∧ s.toList.getLast? ≠ some (Char.ofNat 0)

instance (n : Nat) (s : String) : Decidable (FitsField n s) := @instDecidableAnd _ _ (List.decidableBAll _ s.toList) inferInstance

theorem stripZeros_append {b : Bytes} (k : Nat) (h : b.getLast? ≠ some 0) :
    ((b ++ zeros k).reverse.dropWhile (· = 0)).reverse = b := by
  have hzeros : ∀ x ∈ List.replicate k (0 : UInt8), decide (x = 0) = true := by
    intro x hx
    exact decide_eq_true (List.eq_of_mem_replicate hx)
  rw [List.reverse_append, zeros, List.reverse_replicate, List.dropWhile_append_of_pos hzeros]
  rw [List.getLast?_eq_head?_reverse] at h
  have hkeep : b.reverse.dropWhile (· = 0) = b.reverse := by
    rcases hb : b.reverse with _ | ⟨x, xs⟩
    · rfl
    · rw [hb] at h
      refine List.dropWhile_cons_of_neg ?_
      simpa using h
  rw [hkeep, List.reverse_reverse]

/-- A text that fits is read back. -/
theorem unpackText_eq {payload : Bytes} {pos n : Nat} {s : String} (hs : FitsField n s)
    (h : wireField payload pos n = packText n s) : unpackText payload pos n = s := by
  obtain ⟨hascii, hlen, hlast⟩ := hs
  have hlast' : (s.toList.map (fun c => if c.toNat < 128 then UInt8.ofNat c.toNat else 0x3f)).getLast? ≠ some 0 := by
    rw [List.getLast?_map]
    intro hzero
    obtain ⟨c, hc, hbyte⟩ := Option.map_eq_some_iff.mp hzero
    have hc' := hascii c (List.mem_of_getLast? hc)
    rw [if_pos hc'] at hbyte
    have hnat : c.toNat = 0 := by
      have := congrArg UInt8.toNat hbyte
      rw [UInt8.toNat_ofNat'] at this
      simp only [UInt8.toNat_zero] at this
      omega
    refine hlast (hc.trans (congrArg some ?_))
    rw [← Char.ofNat_toNat c, hnat]
  unfold unpackText
  rw [h, packText, List.take_of_length_le (by rwa [List.length_map])]
  simp only [stripZeros_append _ hlast', decode_packed hascii]
  exact String.ofList_toList

/-! ## Numbers that may be absent -/

/-- The same number, or none in both places. -/
def SameNumber : Option UInt64 → Option UInt64 → Prop
  | none, none => True
  | some a, some b => a = b ∨ isZero a ∧ isZero b
  | _, _ => False

theorem isZero_zero : isZero 0 = true := by decide

theorem orZero_of_isZero {bits : UInt64} (h : isZero bits = true) : orZero (some bits) = 0 := if_pos h

theorem orZero_of_not_isZero {bits : UInt64} (h : isZero bits = false) : orZero (some bits) = bits :=
  if_neg (Bool.eq_false_iff.mp h)

/-- What is packed for a number: a zero where there is none, and the number itself otherwise, or a zero for one. -/
def Packs (x : Option UInt64) (bits : UInt64) : Prop :=
  match x with
  | none => bits = 0
  | some b => bits = b ∨ isZero b ∧ bits = 0

theorem packs_orZero (x : Option UInt64) : Packs x (orZero x) := by
  rcases x with _ | b
  · rfl
  · rcases hb : isZero b with _ | _
    · exact .inl (orZero_of_not_isZero hb)
    · exact .inr ⟨hb, orZero_of_isZero hb⟩

/-- A number of a depth message is read as it was packed exactly when it is there. -/
theorem sameNumber_orZero_iff (x : Option UInt64) : SameNumber (some (orZero x)) x ↔ x.isSome := by
  rcases x with _ | b
  · exact iff_of_false id (by decide)
  · refine iff_of_true ?_ rfl
    rcases hb : isZero b with _ | _
    · exact .inl (orZero_of_not_isZero hb)
    · rw [orZero_of_isZero hb]
      exact .inr ⟨isZero_zero, hb⟩

end Mdrap

/-!
## What is read of a slot

The stores of a tick leave its words in its slot and nothing else changed; the bytes of these words are those of the slot, and each
field is where it was put.
-/

namespace Mdrap

open Lib

namespace ShmSegment

theorem foldl_setWord (m : ShmSegment) (slot : Nat) (src : Nat → UInt64) (n : Nat) :
    (List.range n).foldl (fun m w => m.setWord slot w (src w)) m =
      { m with words := fun i j => if i = slot ∧ j < n then src j else m.words i j } := by
  induction n with
  | zero => simp
  | succ n ih =>
    rw [List.range_succ, List.foldl_append, ih]
    simp only [List.foldl_cons, List.foldl_nil, setWord, ShmSegment.mk.injEq, true_and]
    funext i j
    by_cases hslot : i = slot
    · by_cases hj : j = n
      · simp [hslot, hj]
      · have hlt : j < n + 1 ↔ j < n := by omega
        simp [hslot, hj, hlt]
    · simp [hslot]

theorem putTick_eq (g : ShmGeometry) (m : ShmSegment) (seq : UInt64) (src : Nat → UInt64) :
    m.putTick g seq src =
      ⟨seq + 1, fun i => if i = g.slotOf seq then seq else m.commit i,
        fun i j => if i = g.slotOf seq ∧ j < payloadWords then src j else m.words i j⟩ := by
  unfold putTick
  dsimp only
  rw [foldl_setWord]
  simp only [setCommit, setHead, ShmSegment.mk.injEq, true_and, and_true]
  funext i
  split <;> rfl

/-- A tick that was just written is read. -/
theorem readSlot_putTick (g : ShmGeometry) (m : ShmSegment) (seq : UInt64) (src : Nat → UInt64) :
    (m.putTick g seq src).readSlot g seq = some ((List.range payloadWords).map src) := by
  rw [putTick_eq, readSlot]
  have hnear : ¬(seq < seq + 1 ∧ UInt64.ofNat g.slotCount < seq + 1 - seq) := by
    rintro ⟨-, hfar⟩
    have hone : seq + 1 - seq = 1 := by grind
    have hcount : g.slotCount < 2 ^ 32 := Nat.pow_lt_pow_right (by decide) g.lt
    have htwo : 0 < g.slotCount := Nat.two_pow_pos g.bits
    rw [hone, UInt64.lt_iff_toNat_lt, UInt64.toNat_ofNat'] at hfar
    have : (1 : UInt64).toNat = 1 := rfl
    omega
  rw [if_neg hnear, if_neg (by simp)]
  refine congrArg some (List.map_congr_left ?_)
  intro w hw
  exact if_pos ⟨rfl, List.mem_range.mp hw⟩

end ShmSegment

/-! ## The bytes of a slot -/

theorem packDouble_unpackDouble {b : Bytes} {pos : Nat} (h : pos + 8 ≤ b.length) :
    packDouble (unpackDouble b pos) = wireField b pos 8 := by
  have hlen : (wireField b pos 8).length = 8 := by
    rw [wireField, List.length_take, List.length_drop]
    omega
  have hlt := leNat_lt (wireField b pos 8)
  rw [hlen] at hlt
  have hback := le_leNat (wireField b pos 8)
  rw [hlen] at hback
  rw [packDouble, unpackDouble, UInt64.toNat_ofNat_of_lt' hlt, hback]

/-- The bytes of the words of a byte string are its bytes. -/
theorem wordsBytes_words {b : Bytes} {n : Nat} (h : 8 * n ≤ b.length) :
    wordsBytes ((List.range n).map (fun w => unpackDouble b (8 * w))) = b.take (8 * n) := by
  induction n with
  | zero => rfl
  | succ n ih =>
    have hword := @packDouble_unpackDouble b (8 * n) (by omega)
    have hsplit : 8 * (n + 1) = 8 * n + 8 := by omega
    have happend : ∀ ws ws', wordsBytes (ws ++ ws') = wordsBytes ws ++ wordsBytes ws' := fun ws ws' => List.flatMap_append
    rw [List.range_succ, List.map_append, happend, ih (by omega), hsplit, List.take_add, List.map_singleton]
    exact congrArg (b.take (8 * n) ++ ·) ((List.flatMap_singleton ..).trans hword)

namespace ShmSlot

theorem length_bytes (s : ShmSlot) : s.bytes.length = 8 * payloadWords := by
  simp [bytes, length_packDouble, payloadWords]

/-- The words of a slot have its bytes. -/
theorem wordsBytes_word (s : ShmSlot) : wordsBytes ((List.range payloadWords).map s.word) = s.bytes := by
  have h := wordsBytes_words (b := s.bytes) (n := payloadWords) (by rw [length_bytes])
  rwa [← s.length_bytes, List.take_length] at h

theorem byteAt_eq {b : Bytes} {pos : Nat} {x : UInt8} (h : wireField b pos 1 = [x]) : byteAt b pos = x := by
  rw [byteAt, h]
  simp [leNat, beNat]

theorem singleAt_eq {b : Bytes} {pos : Nat} {x : UInt32} (h : wireField b pos 4 = le 4 x.toNat) :
    UInt32.ofNat (leNat (wireField b pos 4)) = x := by
  rw [h, leNat_le_of_lt x.toNat_lt]
  exact UInt32.ofNat_toNat

/-- A slot is read back from its bytes, where its texts fill their fields. -/
theorem ofBytes_bytes {s : ShmSlot} (hsymbol : s.symbol.length = 16) (hsource : s.source.length = 8) : ofBytes s.bytes = s := by
  have hsym : resize 16 s.symbol = s.symbol := by simp [resize, hsymbol, zeros]
  have hsrc : resize 8 s.source = s.source := by simp [resize, hsource, zeros]
  have hb : s.bytes = [s.eventType] ++ ([s.status] ++ ([s.isCrossed] ++ ([s.present] ++ ([s.trunc] ++ (zeros 3 ++
      (packDouble s.exchangeTs ++ (packDouble s.ingestTs ++ (packDouble s.broadcastTs ++ (le 4 s.engineUs.toNat ++ (zeros 4 ++
      (packDouble s.price ++ (packDouble s.size ++ (packDouble s.bid ++ (packDouble s.ask ++ (packDouble s.bidSz ++
      (packDouble s.askSz ++ (s.symbol ++ (s.source ++ zeros 8)))))))))))))))))) := by
    simp only [bytes, hsym, hsrc, List.append_assoc, List.cons_append, List.nil_append]
  rw [hb]
  cases s
  simp only at hsymbol hsource
  simp only [ofBytes, ShmSlot.mk.injEq]
  refine ⟨byteAt_eq ?_, byteAt_eq ?_, byteAt_eq ?_, byteAt_eq ?_, byteAt_eq ?_, unpackDouble_eq ?_, unpackDouble_eq ?_,
    unpackDouble_eq ?_, singleAt_eq ?_, unpackDouble_eq ?_, unpackDouble_eq ?_, unpackDouble_eq ?_, unpackDouble_eq ?_,
    unpackDouble_eq ?_, unpackDouble_eq ?_, ?_, ?_⟩
  all_goals simp only [wireField_right, wireField_left, length_packDouble, length_le, length_zeros, hsymbol, hsource,
    List.length_cons, List.length_nil, Nat.zero_add, Nat.reduceSub, Nat.reduceLeDiff, Nat.le_refl]

end ShmSlot

end Mdrap
