import Mdrap.Lemmas.WireFields

/-!
# What a frame says of a number

A frame has no place for a number that is absent. A tick says absent where a price is zero or a size is not greater than zero, and a
depth message says zero where a number is absent.
-/

namespace Mdrap

open Lib

/-- The arguments of a tick whose fields hold its texts. -/
structure TickArgs.Legal (symbolWidth sourceWidth : Nat) (a : TickArgs) : Prop where
  seq : 0 ≤ a.seq ∧ a.seq < 2 ^ 64
  finite : ∀ x ∈ [a.price, a.size, a.bid, a.ask], ∀ bits ∈ x, isFinite bits
  status : a.status ∈ ["VALID", "SUSPICIOUS", "INVALID"]
  symbol : FitsField symbolWidth a.symbol
  source : FitsField sourceWidth a.source
  engineUs : (packSingle (orZero (some a.engineUs))).isSome

/-- The arguments of a depth message whose field holds its symbol. -/
structure DepthArgs.Legal (a : DepthArgs) : Prop where
  seq : 0 ≤ a.seq ∧ a.seq < 2 ^ 64
  finite : ∀ x ∈ [a.bestBid, a.bestAsk, a.bidSize, a.askSize, a.microPrice, a.ofi], ∀ bits ∈ x, isFinite bits
  symbol : FitsField 8 a.symbol
  engineUs : (packSingle (orZero (some a.engineUs))).isSome

/-- Its prices are not zero, and its size is above zero, as far as they are there. -/
structure TickArgs.Told (a : TickArgs) : Prop where
  prices : ∀ x ∈ [a.price, a.bid, a.ask], ∀ bits ∈ x, isZero bits = false
  size : ∀ bits ∈ a.size, isPositive bits

/-- The dictionary of a tick has the values that were packed. -/
structure TickEvent.Matches (e : TickEvent) (a : TickArgs) : Prop where
  seq : (e.seq : Int) = a.seq
  sym : e.sym = a.symbol
  source : e.source = a.source
  status : e.status = a.status
  isCrossed : e.isCrossed = a.isCrossed
  price : SameNumber e.price a.price
  size : SameNumber e.size a.size
  bid : SameNumber e.bid a.bid
  ask : SameNumber e.ask a.ask

/-- The dictionary of a depth message has the values that were packed. -/
structure DepthEvent.Matches (e : DepthEvent) (a : DepthArgs) : Prop where
  seq : (e.seq : Int) = a.seq
  sym : e.sym = a.symbol
  isCrossed : e.isCrossed = a.isCrossed
  bid : SameNumber (some e.bid) a.bestBid
  ask : SameNumber (some e.ask) a.bestAsk
  bidSize : SameNumber (some e.bidSize) a.bidSize
  askSize : SameNumber (some e.askSize) a.askSize
  microPrice : SameNumber (some e.microPrice) a.microPrice
  ofi : SameNumber (some e.ofi) a.ofi

namespace WireFrame

/-- The values fit the fields of the frame. -/
def Legal : WireFrame → Prop
  | .tick a => a.Legal 8 8
  | .tickV2 a reasonMask => a.Legal 32 16 ∧ 0 ≤ reasonMask ∧ reasonMask < 2 ^ 64
  | .depth a => a.Legal

/-- The frame is read as it was packed. -/
def ReadsBack (frame : Bytes) : WireFrame → Prop
  | .tick a => (unpackTickPayload (frame.drop wireHeaderSize)).Matches a
  | .tickV2 a _ => (unpackTickPayloadV2 (frame.drop wireHeaderSize)).Matches a
  | .depth a => (unpackDepthPayload (frame.drop wireHeaderSize)).Matches a

/-- No number says absent, and none that a depth message has is. -/
def Told : WireFrame → Prop
  | .tick a => a.Told
  | .tickV2 a _ => a.Told
  | .depth a => ∀ x ∈ [a.bestBid, a.bestAsk, a.bidSize, a.askSize, a.microPrice, a.ofi], x.isSome

end WireFrame

/-! ## Fields -/

theorem statusText_statusCode {status : String} (h : status ∈ ["VALID", "SUSPICIOUS", "INVALID"]) :
    statusText (statusCode status) = status := by
  simp only [List.mem_cons, List.not_mem_nil, or_false] at h
  rcases h with rfl | rfl | rfl <;> decide

theorem statusCode_lt (status : String) : statusCode status < 256 ^ 1 := by
  unfold statusCode
  split
  · decide
  · split
    · decide
    · split <;> decide

theorem isZero_of_isPositive {bits : UInt64} (h : isPositive bits = true) : isZero bits = false := by
  simp only [isPositive, Bool.decide_and, Bool.and_eq_true, decide_eq_true_eq, Bool.not_eq_true] at h
  exact h.2

theorem packs_getD (x : Option UInt64) : Packs x (x.getD 0) := by
  rcases x with _ | b
  · rfl
  · exact .inl rfl

/-- A price is read as it was packed exactly when it is not zero. -/
theorem sameNumber_priceValue_iff {x : Option UInt64} {bits : UInt64} (h : Packs x bits) (hfinite : ∀ b ∈ x, isFinite b) :
    SameNumber (priceValue bits) x ↔ ∀ b ∈ x, isZero b = false := by
  rcases x with _ | b
  · cases h
    exact iff_of_true trivial nofun
  · simp only [Option.mem_def, Option.some.injEq, forall_eq'] at hfinite ⊢
    unfold priceValue
    rcases h with rfl | ⟨hzero, rfl⟩
    · rcases hzero : isZero bits with _ | _
      · rw [if_pos ⟨by simp, hfinite⟩]
        exact iff_of_true (.inl rfl) rfl
      · rw [if_neg (by simp)]
        exact iff_of_false id (by decide)
    · rw [if_neg (by simp [isZero_zero]), hzero]
      exact iff_of_false id (by decide)

/-- A size is read as it was packed exactly when it is above zero. -/
theorem sameNumber_sizeValue_iff {x : Option UInt64} {bits : UInt64} (h : Packs x bits) (hfinite : ∀ b ∈ x, isFinite b) :
    SameNumber (sizeValue bits) x ↔ ∀ b ∈ x, isPositive b := by
  rcases x with _ | b
  · cases h
    exact iff_of_true trivial nofun
  · simp only [Option.mem_def, Option.some.injEq, forall_eq'] at hfinite ⊢
    unfold sizeValue
    rcases h with rfl | ⟨hzero, rfl⟩
    · rcases hpos : isPositive bits with _ | _
      · rw [if_neg (by simp)]
        exact iff_of_false id (by decide)
      · rw [if_pos ⟨rfl, hfinite⟩]
        exact iff_of_true (.inl rfl) rfl
    · rw [if_neg (by decide)]
      refine iff_of_false id ?_
      intro hpos
      rw [isZero_of_isPositive hpos] at hzero
      cases hzero

theorem packUInt64_of_range {n : Int} (h : 0 ≤ n ∧ n < 2 ^ 64) : ∃ b, packUInt64 n = some b := ⟨_, if_pos h⟩

theorem unpackDouble_of_field {payload : Bytes} {pos : Nat} {bits : UInt64} {x : Option UInt64}
    (h : wireField payload pos 8 = packDouble bits) (hbits : Packs x bits) : Packs x (unpackDouble payload pos) := by
  rwa [unpackDouble_eq h]

theorem drop_header (msgType : UInt8) (payloadLen : Nat) (payload : Bytes) :
    (packWireHeader msgType payloadLen ++ payload).drop wireHeaderSize = payload := List.drop_left' rfl

theorem leNat_status {payload : Bytes} {pos : Nat} {status : String}
    (h : wireField payload pos 1 = le 1 (statusCode status)) (hstatus : status ∈ ["VALID", "SUSPICIOUS", "INVALID"]) :
    statusText (leNat (wireField payload pos 1)) = status := by
  rw [h, leNat_le_of_lt (statusCode_lt status), statusText_statusCode hstatus]

theorem leNat_flag {payload : Bytes} {pos : Nat} {flag : Bool}
    (h : wireField payload pos 1 = le 1 (if flag then 1 else 0)) : decide (leNat (wireField payload pos 1) ≠ 0) = flag := by
  rw [h]
  cases flag <;> decide

/-! ## Frames -/

/-- What the fields of a tick's payload are. -/
structure TickFields (a : TickArgs) (e : TickEvent) : Prop where
  seq : (e.seq : Int) = a.seq
  sym : e.sym = a.symbol
  source : e.source = a.source
  status : e.status = a.status
  isCrossed : e.isCrossed = a.isCrossed
  price : ∃ bits, Packs a.price bits ∧ e.price = priceValue bits
  size : ∃ bits, Packs a.size bits ∧ e.size = sizeValue bits
  bid : ∃ bits, Packs a.bid bits ∧ e.bid = priceValue bits
  ask : ∃ bits, Packs a.ask bits ∧ e.ask = priceValue bits

/-- A tick is read as it was packed exactly when its numbers do not say absent. -/
theorem TickFields.matches_iff {a : TickArgs} {e : TickEvent} {n m : Nat} (h : TickFields a e) (ha : a.Legal n m) :
    e.Matches a ↔ a.Told := by
  obtain ⟨price, hprice, heprice⟩ := h.price
  obtain ⟨size, hsize, hesize⟩ := h.size
  obtain ⟨bid, hbid, hebid⟩ := h.bid
  obtain ⟨ask, hask, heask⟩ := h.ask
  have hfinite := ha.finite
  simp only [List.forall_mem_cons] at hfinite
  obtain ⟨hfprice, hfsize, hfbid, hfask, -⟩ := hfinite
  have hp := sameNumber_priceValue_iff hprice hfprice
  have hs := sameNumber_sizeValue_iff hsize hfsize
  have hb := sameNumber_priceValue_iff hbid hfbid
  have hk := sameNumber_priceValue_iff hask hfask
  rw [← heprice] at hp
  rw [← hesize] at hs
  rw [← hebid] at hb
  rw [← heask] at hk
  constructor
  · intro hm
    refine ⟨?_, hs.mp hm.size⟩
    simp only [List.forall_mem_cons]
    exact ⟨hp.mp hm.price, hb.mp hm.bid, hk.mp hm.ask, nofun⟩
  · intro ht
    have hprices := ht.prices
    simp only [List.forall_mem_cons] at hprices
    exact ⟨h.seq, h.sym, h.source, h.status, h.isCrossed, hp.mpr hprices.1, hs.mpr ht.size, hb.mpr hprices.2.1,
      hk.mpr hprices.2.2.1⟩

theorem packTickFrame_fields {a : TickArgs} (ha : a.Legal 8 8) :
    ∃ frame, packTickFrame a = some frame ∧ TickFields a (unpackTickPayload (frame.drop wireHeaderSize)) := by
  obtain ⟨seq, hseq⟩ := packUInt64_of_range ha.seq
  obtain ⟨engineUs, hengine⟩ := Option.isSome_iff_exists.mp ha.engineUs
  have hlenSeq := length_packUInt64 hseq
  have hlenEngine := length_packSingle hengine
  simp only [packTickFrame, hseq, hengine, Option.bind_eq_bind, Option.bind_some, Option.pure_def, Option.some.injEq, exists_eq_left',
    drop_header, List.append_assoc]
  refine ⟨?_, ?_, ?_, ?_, ?_, ?_, ?_, ?_, ?_⟩
  · show ((leNat (wireField _ 0 8) : Nat) : Int) = a.seq
    rw [wireField_left _ hlenSeq, leNat_packUInt64 hseq]
  · exact unpackText_eq ha.symbol (by simp [wireField_right, wireField_left, hlenSeq, hlenEngine, length_packDouble, length_packText])
  · exact unpackText_eq ha.source (by simp [wireField_right, wireField_whole, hlenSeq, hlenEngine, length_packDouble, length_packText])
  · exact leNat_status (by simp [wireField_right, wireField_left, hlenSeq]) ha.status
  · exact leNat_flag (by simp [wireField_right, wireField_left, hlenSeq])
  · exact ⟨_, unpackDouble_of_field (by simp [wireField_right, wireField_left, hlenSeq, hlenEngine, length_packDouble])
      (packs_orZero a.price), rfl⟩
  · exact ⟨_, unpackDouble_of_field (by simp [wireField_right, wireField_left, hlenSeq, hlenEngine, length_packDouble])
      (packs_orZero a.size), rfl⟩
  · exact ⟨_, unpackDouble_of_field (by simp [wireField_right, wireField_left, hlenSeq, hlenEngine, length_packDouble])
      (packs_orZero a.bid), rfl⟩
  · exact ⟨_, unpackDouble_of_field (by simp [wireField_right, wireField_left, hlenSeq, hlenEngine, length_packDouble])
      (packs_orZero a.ask), rfl⟩

theorem packTickFrameV2_fields {a : TickArgs} {reasonMask : Int} (ha : a.Legal 32 16) (hmask : 0 ≤ reasonMask ∧ reasonMask < 2 ^ 64) :
    ∃ frame, packTickFrameV2 a reasonMask = some frame ∧ TickFields a (unpackTickPayloadV2 (frame.drop wireHeaderSize)) := by
  obtain ⟨seq, hseq⟩ := packUInt64_of_range ha.seq
  obtain ⟨engineUs, hengine⟩ := Option.isSome_iff_exists.mp ha.engineUs
  obtain ⟨mask, hmask⟩ := packUInt64_of_range hmask
  have hlenSeq := length_packUInt64 hseq
  have hlenEngine := length_packSingle hengine
  have hlenMask := length_packUInt64 hmask
  simp only [packTickFrameV2, hseq, hengine, hmask, Option.bind_eq_bind, Option.bind_some, Option.pure_def, Option.some.injEq,
    exists_eq_left', drop_header, List.append_assoc]
  refine ⟨?_, ?_, ?_, ?_, ?_, ?_, ?_, ?_, ?_⟩
  · show ((leNat (wireField _ 0 8) : Nat) : Int) = a.seq
    rw [wireField_left _ hlenSeq, leNat_packUInt64 hseq]
  · exact unpackText_eq ha.symbol
      (by simp [wireField_right, wireField_left, hlenSeq, hlenEngine, hlenMask, length_packDouble, length_packText])
  · exact unpackText_eq ha.source
      (by simp [wireField_right, wireField_whole, hlenSeq, hlenEngine, hlenMask, length_packDouble, length_packText])
  · exact leNat_status (by simp [wireField_right, wireField_left, hlenSeq]) ha.status
  · exact leNat_flag (by simp [wireField_right, wireField_left, hlenSeq])
  · exact ⟨_, unpackDouble_of_field (by simp [wireField_right, wireField_left, hlenSeq, hlenEngine, length_packDouble])
      (packs_getD a.price), rfl⟩
  · exact ⟨_, unpackDouble_of_field (by simp [wireField_right, wireField_left, hlenSeq, hlenEngine, length_packDouble])
      (packs_getD a.size), rfl⟩
  · exact ⟨_, unpackDouble_of_field (by simp [wireField_right, wireField_left, hlenSeq, hlenEngine, length_packDouble])
      (packs_getD a.bid), rfl⟩
  · exact ⟨_, unpackDouble_of_field (by simp [wireField_right, wireField_left, hlenSeq, hlenEngine, length_packDouble])
      (packs_getD a.ask), rfl⟩

/-- What the fields of a depth message's payload are. -/
structure DepthFields (a : DepthArgs) (e : DepthEvent) : Prop where
  seq : (e.seq : Int) = a.seq
  sym : e.sym = a.symbol
  isCrossed : e.isCrossed = a.isCrossed
  bid : e.bid = orZero a.bestBid
  ask : e.ask = orZero a.bestAsk
  bidSize : e.bidSize = orZero a.bidSize
  askSize : e.askSize = orZero a.askSize
  microPrice : e.microPrice = orZero a.microPrice
  ofi : e.ofi = orZero a.ofi

theorem packDepthFrame_fields {a : DepthArgs} (ha : a.Legal) :
    ∃ frame, packDepthFrame a = some frame ∧ DepthFields a (unpackDepthPayload (frame.drop wireHeaderSize)) := by
  obtain ⟨seq, hseq⟩ := packUInt64_of_range ha.seq
  obtain ⟨engineUs, hengine⟩ := Option.isSome_iff_exists.mp ha.engineUs
  have hlenSeq := length_packUInt64 hseq
  have hlenEngine := length_packSingle hengine
  simp only [packDepthFrame, hseq, hengine, Option.bind_eq_bind, Option.bind_some, Option.pure_def, Option.some.injEq,
    exists_eq_left', drop_header, List.append_assoc]
  refine ⟨?_, ?_, ?_, ?_, ?_, ?_, ?_, ?_, ?_⟩
  · show ((leNat (wireField _ 0 8) : Nat) : Int) = a.seq
    rw [wireField_left _ hlenSeq, leNat_packUInt64 hseq]
  · exact unpackText_eq ha.symbol (by simp [wireField_right, wireField_left, hlenSeq, hlenEngine, length_packDouble, length_packText])
  · exact leNat_flag (by simp [wireField_right, wireField_left, hlenSeq])
  · exact unpackDouble_eq (by simp [wireField_right, wireField_left, hlenSeq, hlenEngine, length_packDouble])
  · exact unpackDouble_eq (by simp [wireField_right, wireField_left, hlenSeq, hlenEngine, length_packDouble])
  · exact unpackDouble_eq (by simp [wireField_right, wireField_left, hlenSeq, hlenEngine, length_packDouble])
  · exact unpackDouble_eq (by simp [wireField_right, wireField_left, hlenSeq, hlenEngine, length_packDouble])
  · exact unpackDouble_eq (by simp [wireField_right, wireField_left, hlenSeq, hlenEngine, length_packDouble])
  · exact unpackDouble_eq (by simp [wireField_right, wireField_left, hlenSeq, hlenEngine, length_packDouble])

/-- A depth message is read as it was packed exactly when all its numbers are there. -/
theorem DepthFields.matches_iff {a : DepthArgs} {e : DepthEvent} (h : DepthFields a e) : e.Matches a ↔ (WireFrame.depth a).Told := by
  simp only [WireFrame.Told, List.forall_mem_cons]
  constructor
  · rintro ⟨-, -, -, hbid, hask, hbidSize, haskSize, hmicro, hofi⟩
    rw [h.bid, sameNumber_orZero_iff] at hbid
    rw [h.ask, sameNumber_orZero_iff] at hask
    rw [h.bidSize, sameNumber_orZero_iff] at hbidSize
    rw [h.askSize, sameNumber_orZero_iff] at haskSize
    rw [h.microPrice, sameNumber_orZero_iff] at hmicro
    rw [h.ofi, sameNumber_orZero_iff] at hofi
    exact ⟨hbid, hask, hbidSize, haskSize, hmicro, hofi, nofun⟩
  · rintro ⟨hbid, hask, hbidSize, haskSize, hmicro, hofi, -⟩
    refine ⟨h.seq, h.sym, h.isCrossed, ?_, ?_, ?_, ?_, ?_, ?_⟩
    · exact h.bid ▸ (sameNumber_orZero_iff _).mpr hbid
    · exact h.ask ▸ (sameNumber_orZero_iff _).mpr hask
    · exact h.bidSize ▸ (sameNumber_orZero_iff _).mpr hbidSize
    · exact h.askSize ▸ (sameNumber_orZero_iff _).mpr haskSize
    · exact h.microPrice ▸ (sameNumber_orZero_iff _).mpr hmicro
    · exact h.ofi ▸ (sameNumber_orZero_iff _).mpr hofi

/-- A frame is packed whenever its values fit, and it is read as it was packed exactly when no number of a tick says absent and no
number of a depth message is. -/
theorem wire_round_trip (f : WireFrame) (h : f.Legal) : ∃ frame, f.pack = some frame ∧ (f.ReadsBack frame ↔ f.Told) := by
  cases f with
  | tick a =>
    obtain ⟨frame, hframe, hfields⟩ := packTickFrame_fields h
    exact ⟨frame, hframe, hfields.matches_iff h⟩
  | tickV2 a reasonMask =>
    obtain ⟨frame, hframe, hfields⟩ := packTickFrameV2_fields h.1 h.2
    exact ⟨frame, hframe, hfields.matches_iff h.1⟩
  | depth a =>
    obtain ⟨frame, hframe, hfields⟩ := packDepthFrame_fields h
    exact ⟨frame, hframe, hfields.matches_iff⟩

/-- A tick with a price of 1.5 and a size of 2. -/
def pricedTick : TickArgs := ⟨7, "ACME", "A", some 0x3FF8000000000000, some 0x4000000000000000, none, none, "VALID", false, 0, 0, 0, 0⟩

theorem forall_held {p : UInt64 → Bool} {b : Bool} {xs : List (Option UInt64)} (h : xs.all (fun x => x.all (fun bits => p bits = b)) = true) :
    ∀ x ∈ xs, ∀ bits ∈ x, p bits = b := by
  intro x hx bits hbits
  have hall := List.all_eq_true.mp h x hx
  rw [Option.mem_def.mp hbits] at hall
  exact of_decide_eq_true hall

theorem pricedTick_legal : (WireFrame.tickV2 pricedTick 5).Legal :=
  ⟨⟨by decide, forall_held (by decide), by decide, by decide, by decide, by decide⟩, by decide, by decide⟩

/-- It is read as it was packed. -/
theorem wire_round_trip_priced : ∃ frame, (WireFrame.tickV2 pricedTick 5).pack = some frame ∧
    (WireFrame.tickV2 pricedTick 5).ReadsBack frame := by
  obtain ⟨frame, hframe, hiff⟩ := wire_round_trip (.tickV2 pricedTick 5) pricedTick_legal
  refine ⟨frame, hframe, hiff.mpr ⟨forall_held (by decide), ?_⟩⟩
  intro bits hbits
  cases hbits
  decide

/-- A price of zero. -/
def zeroPriced : TickArgs := { bareTick with price := some 0 }

/-- A price of zero and a size below zero. -/
def zeroPricedShort : TickArgs := { zeroPriced with size := some 0xBFF0000000000000 }

/-- A depth message without numbers. -/
def bareDepth : DepthArgs := ⟨7, "ACME", none, none, none, none, none, none, false, 0, 0, 0, 0⟩

/-- A price of zero is read as none, and so is a size below zero; what is absent of a depth message is read as zero. -/
theorem wire_round_trip_false :
    (∃ frame, (WireFrame.tick zeroPriced).pack = some frame ∧ ¬(WireFrame.tick zeroPriced).ReadsBack frame) ∧
      (∃ frame, (WireFrame.tickV2 zeroPricedShort 0).pack = some frame ∧ ¬(WireFrame.tickV2 zeroPricedShort 0).ReadsBack frame) ∧
      (∃ frame, (WireFrame.depth bareDepth).pack = some frame ∧ ¬(WireFrame.depth bareDepth).ReadsBack frame) := by
  have htick : zeroPriced.Legal 8 8 := ⟨by decide, forall_held (by decide), by decide, by decide, by decide, by decide⟩
  have hshort : zeroPricedShort.Legal 32 16 := ⟨by decide, forall_held (by decide), by decide, by decide, by decide, by decide⟩
  have hdepth : bareDepth.Legal := ⟨by decide, forall_held (by decide), by decide, by decide⟩
  refine ⟨?_, ?_, ?_⟩
  · obtain ⟨frame, hframe, hfields⟩ := packTickFrame_fields htick
    refine ⟨frame, hframe, fun hm => ?_⟩
    have hzero := ((hfields.matches_iff htick).mp hm).prices _ List.mem_cons_self 0 rfl
    exact absurd hzero (by decide)
  · obtain ⟨frame, hframe, hfields⟩ := @packTickFrameV2_fields _ 0 hshort (by decide)
    refine ⟨frame, hframe, fun hm => ?_⟩
    have hpositive := ((hfields.matches_iff hshort).mp hm).size _ rfl
    exact absurd hpositive (by decide)
  · obtain ⟨frame, hframe, hfields⟩ := packDepthFrame_fields hdepth
    exact ⟨frame, hframe, fun hm => nomatch hfields.matches_iff.mp hm _ List.mem_cons_self⟩

end Mdrap
