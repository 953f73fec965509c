import Mathlib.Data.Bool.AllAny
import Mdrap.Gateway.Normalize
import Mdrap.Lemmas.WireFields

/-!
# The two ways through the gateway

A tick goes through the gateway as a frame or as a dictionary. A frame has no place for a price that is absent, so that every frame
gives a trade, and nothing of it is checked.
-/

namespace Mdrap

open Lib

/-! ## Frames -/

/-- What the gateway reads of a frame. -/
structure Unpacked (a : SbeTickArgs) (tick : SbeTickMessage) : Prop where
  seq : (tick.seq : Int) = a.seq
  exchangeTs : tick.exchangeTs = a.exchangeTs
  price : tick.price = orZero a.price
  size : tick.size = orZero a.size
  symbol : tick.symbol = String.ofList (stripNul a.symbol.toList)

theorem unpackSbeTick_header {payload : Bytes} (h : payload.length = 120) :
    unpackSbeTick (le 2 sbeTickPayloadSize ++ le 2 templateTick ++ le 2 1 ++ le 2 1 ++ payload) = some (unpackSbePayload payload) := by
  unfold unpackSbeTick
  rw [if_neg (by simp [h]), if_neg, List.drop_left' (by simp)]
  intro hne
  apply hne
  simp only [List.append_assoc]
  rw [wireField_right _ _ (by simp), length_le, wireField_left _ (by simp)]
  decide

/-- A frame is unpacked. -/
theorem unpackSbeTick_pack {a : SbeTickArgs} {frame : Bytes} (hascii : ∀ c ∈ a.symbol.toList, c.toNat < 128)
    (hlen : a.symbol.toList.length ≤ 16) (h : packSbeTick a = some frame) :
    128 ≤ frame.length ∧ ∃ tick, unpackSbeTick frame = some tick ∧ Unpacked a tick := by
  simp only [packSbeTick, Option.bind_eq_bind, Option.bind_eq_some_iff, Option.pure_def, Option.some.injEq] at h
  obtain ⟨seq, hseq, engineUs, hengine, rfl⟩ := h
  have hlenSeq := length_packUInt64 hseq
  have hlenEngine := length_packSingle hengine
  constructor
  · simp only [List.length_append, hlenSeq, hlenEngine, length_packDouble, length_packText, length_le, length_zeros]
    decide
  · refine ⟨_, unpackSbeTick_header ?_, ?_⟩
    · simp only [List.length_append, hlenSeq, hlenEngine, length_packDouble, length_packText, length_le, length_zeros]
    · simp only [List.append_assoc]
      constructor
      · show ((leNat (wireField _ 0 8) : Nat) : Int) = a.seq
        rw [wireField_left _ hlenSeq, leNat_packUInt64 hseq]
      · exact unpackDouble_eq (by simp [wireField_right, wireField_left, hlenSeq, length_packDouble])
      · exact unpackDouble_eq (by simp [wireField_right, wireField_left, hlenSeq, length_packDouble])
      · exact unpackDouble_eq (by simp [wireField_right, wireField_left, hlenSeq, length_packDouble])
      · exact sbeText_eq hascii hlen
          (by simp [wireField_right, wireField_left, hlenSeq, hlenEngine, length_packDouble, length_packText])

/-! ## Ticks -/

/-- A tick and its frame. -/
structure GatewayTick extends SbeTickArgs where
  symbol_ascii : ∀ c ∈ symbol.toList, c.toNat < 128
  symbol_ne : symbol ≠ ""
  symbol_le : symbol.toList.length ≤ 16
  seq_range : 0 ≤ seq ∧ seq < 2 ^ 63
  wire : Bytes
  packed : packSbeTick toSbeTickArgs = some wire

/-- A number that can be absent. -/
def optionalField (name : String) (x : Option UInt64) : List (String × PyValue) := (x.map (fun bits => (name, .float bits))).toList

/-- The dictionary form of a tick. -/
def dictForm (t : SbeTickArgs) : Dict String PyValue :=
  let head (eventType : String) : List (String × PyValue) :=
    [("event_type", .str eventType), ("instrument", .str t.symbol), ("exchange_ts", .float t.exchangeTs), ("sequence", .int t.seq)]
  match t.price with
  | some price => ⟨head "TRADE" ++ ("price", .float price) :: optionalField "quantity" t.size⟩
  | none =>
    ⟨head "QUOTE" ++ optionalField "bid" t.bid ++ optionalField "ask" t.ask ++ optionalField "bid_size" t.bidSize ++
      optionalField "ask_size" t.askSize⟩

/-- The fields of an event that go with its type. -/
def SameFields (e e' : GatewayEvent) : Prop :=
  match e.eventType with
  | .trade => e.price = e'.price ∧ e.quantity = e'.quantity
  | .quote => e.bidPrice = e'.bidPrice ∧ e.askPrice = e'.askPrice ∧ e.bidSize = e'.bidSize ∧ e.askSize = e'.askSize
  | _ => True

/-- Both raise, or both give the same event. -/
def GatewayAgree (r r' : Except GatewayError GatewayEvent) : Prop :=
  match r, r' with
  | .error (.schema _), .error (.schema _) => True
  | .ok e, .ok e' =>
    e.eventType = e'.eventType ∧ e.instrumentId = e'.instrumentId ∧ e.exchangeTimestamp = e'.exchangeTimestamp ∧
      e.sequenceNumber = e'.sequenceNumber ∧ SameFields e e'
  | _, _ => False

/-- A finite number above zero. -/
def IsAmount (x : Option UInt64) : Prop := ∃ bits, x = some bits ∧ isFinite bits ∧ isPositive bits

namespace GatewayTick

/-- The event with the frame of a tick and without a payload, which is an empty dictionary or none. -/
def wireRaw (t : GatewayTick) (raw : GatewayRaw) (dict : Bool) : GatewayRaw :=
  { raw with wire := t.wire, payload := if dict then some .empty else none }

/-- The event with the dictionary of a tick, from the same source and received at the same time as another one. -/
def dictRaw (t : GatewayTick) (raw raw' : GatewayRaw) : GatewayRaw :=
  { raw' with source := raw.source, receiveTimestamp := raw.receiveTimestamp, payload := some (dictForm t.toSbeTickArgs) }

/-- A trade whose numbers are good, of a symbol without a NUL at its end. -/
def Plain (t : GatewayTick) : Prop :=
  IsAmount t.price ∧ IsAmount t.size ∧ isFinite t.exchangeTs ∧ t.symbol.toList.getLast? ≠ some (Char.ofNat 0)

theorem instrument_eq_iff (t : GatewayTick) :
    Gateway.textOr (String.ofList (stripNul t.symbol.toList)) "UNKNOWN" = t.symbol ↔
      t.symbol.toList.getLast? ≠ some (Char.ofNat 0) := by
  rw [← stripNul_eq_iff]
  unfold Gateway.textOr
  constructor
  · intro h
    split at h
    · -- a symbol of nothing but NULs has become another one
      rw [← h]
      decide
    · have hlist := congrArg String.toList h
      rwa [String.toList_ofList] at hlist
  · intro h
    rw [h, String.ofList_toList, if_neg t.symbol_ne]

end GatewayTick

namespace Gateway

variable (env : GatewayEnv)

/-- A frame gives a trade. -/
theorem normalize_wire (t : GatewayTick) (now : UInt64) (raw : GatewayRaw) (g : Gateway) (hwire : raw.wire = t.wire)
    (hpayload : (raw.payload.map (·.items)).getD [] = []) :
    ∃ e, (normalize env now raw g).1 = .ok e ∧ e.eventType = .trade ∧
      e.instrumentId = textOr (String.ofList (stripNul t.symbol.toList)) "UNKNOWN" ∧ e.exchangeTimestamp = t.exchangeTs ∧
      e.sequenceNumber = some t.seq ∧ e.price = some (orZero t.price) ∧ e.quantity = some (orZero t.size) := by
  obtain ⟨hlen, tick, htick, hunpacked⟩ := unpackSbeTick_pack t.symbol_ascii t.symbol_le t.packed
  have hne : raw.wire ≠ [] := by
    rw [hwire]
    rintro hnil
    rw [hnil] at hlen
    cases hlen
  unfold normalize tryNormalizeWire
  rw [if_pos ⟨hne, hpayload⟩, hwire, if_pos (by omega), htick]
  refine ⟨_, rfl, rfl, ?_, hunpacked.exchangeTs, congrArg some hunpacked.seq, congrArg some hunpacked.price,
    congrArg some hunpacked.size⟩
  show textOr tick.symbol "UNKNOWN" = _
  rw [hunpacked.symbol]

theorem bind_eq_ok {ε α β : Type} {x : Except ε α} {f : α → Except ε β} {b : β} (h : (x >>= f) = .ok b) :
    ∃ a, x = .ok a ∧ f a = .ok b := by
  rcases x with e | a
  · cases h
  · exact ⟨a, rfl, h⟩

theorem checkFinite_float (bits : UInt64) (e : SchemaError) :
    checkFinite env (.float bits) e = if isFinite bits then .ok () else .error e.raised := by
  unfold checkFinite
  rw [if_neg (by simp [isNumber, isHuge])]
  rfl

theorem positive_float (bits : UInt64) (e : SchemaError) :
    positive env (.float bits) e = if isFinite bits ∧ isPositive bits then .ok bits else .error e.raised := by
  unfold positive
  rw [checkFinite_float]
  by_cases hfinite : isFinite bits
  · by_cases hpos : isPositive bits
    · simp [hfinite, hpos, notPositive, toFloat, bind, Except.bind]
    · simp [hfinite, hpos, notPositive, throw, throwThe, MonadExceptOf.throw, bind, Except.bind]
  · simp [hfinite, bind, Except.bind]

/-- An error about a float can be shown. -/
theorem raised_float {e : SchemaError} {bits : UInt64} (h : e.shown = some (.float bits)) : e.raised = .schema e := by
  rw [SchemaError.raised, h]
  rfl

/-- The dictionary of a tick names no kind of a source, so that there is a text for it. -/
theorem sourceKindOf_dictForm (source : String) (t : SbeTickArgs) : ∃ kind, sourceKindOf env source (dictForm t) = .ok kind := by
  have hkind : (dictForm t).get? "source_kind" = none := by
    unfold dictForm
    rcases t.price with _ | price <;> rcases t.size with _ | size <;> rcases t.bid with _ | bid <;> rcases t.ask with _ | ask <;>
      rcases t.bidSize with _ | bidSize <;> rcases t.askSize with _ | askSize <;> simp [Dict.get?, optionalField]
  unfold sourceKindOf
  rw [hkind]
  split
  · exact ⟨_, rfl⟩
  split
  · exact ⟨_, rfl⟩
  · exact ⟨_, rfl⟩

/-- What is read of the dictionary of a trade that has a size. -/
theorem headOf_trade {t : GatewayTick} {price size : UInt64} (receiveTimestamp : UInt64) (hprice : t.price = some price)
    (hsize : t.size = some size) :
    headOf env receiveTimestamp (dictForm t.toSbeTickArgs) =
      if isFinite t.exchangeTs then .ok ⟨.trade, "EXCHANGE", t.exchangeTs, some t.seq, t.symbol⟩
      else .error (.schema (.exchangeTsNotFinite (.float t.exchangeTs))) := by
  have hseq : ¬(t.seq < -9223372036854775808 ∨ 9223372036854775807 < t.seq) := by
    have := t.seq_range
    omega
  by_cases hfinite : isFinite t.exchangeTs
  · simp [headOf, dictForm, hprice, hsize, optionalField, Dict.get?, Dict.contains, eventTypeOf, requiredFields, exchangeTsOf, isNumber,
      checkFinite_float, hfinite, sequenceOf, hseq, instrumentOf, t.symbol_ne, toFloat, bind, Except.bind, pure, Except.pure]
  · simp [headOf, dictForm, hprice, hsize, optionalField, Dict.get?, Dict.contains, eventTypeOf, requiredFields, exchangeTsOf, isNumber,
      checkFinite_float, hfinite, bind, Except.bind, raised_float (e := .exchangeTsNotFinite _) rfl]

theorem headOf_no_size {t : GatewayTick} {price : UInt64} (receiveTimestamp : UInt64) (hprice : t.price = some price)
    (hsize : t.size = none) :
    headOf env receiveTimestamp (dictForm t.toSbeTickArgs) = .error (.schema (.missing ["quantity"])) := by
  simp [headOf, dictForm, hprice, hsize, optionalField, Dict.get?, Dict.contains, eventTypeOf, requiredFields, bind, Except.bind, throw,
    throwThe, MonadExceptOf.throw]

theorem headOf_quote {t : GatewayTick} {receiveTimestamp : UInt64} {head : PayloadHead} (hprice : t.price = none)
    (h : headOf env receiveTimestamp (dictForm t.toSbeTickArgs) = .ok head) : head.eventType = .quote := by
  have htype : eventTypeOf ((dictForm t.toSbeTickArgs).get? "event_type") = .ok .quote := by
    simp [dictForm, hprice, Dict.get?, eventTypeOf]
  unfold headOf at h
  rw [htype] at h
  obtain ⟨eventType, heventType, h⟩ := bind_eq_ok h
  cases heventType
  dsimp only at h
  split at h
  · cases h
  · obtain ⟨exchangeTs, -, h⟩ := bind_eq_ok h
    obtain ⟨sequence, -, h⟩ := bind_eq_ok h
    obtain ⟨instrument, -, h⟩ := bind_eq_ok h
    obtain ⟨bits, -, h⟩ := bind_eq_ok h
    cases h
    rfl

/-- The type of an event stays. -/
theorem setFields_quote {p : Dict String PyValue} {event event' : GatewayEvent} (hquote : event.eventType = .quote)
    (h : setFields env p event = .ok event') : event'.eventType = .quote := by
  unfold setFields at h
  rw [hquote] at h
  dsimp only at h
  obtain ⟨bidAsk, -, h⟩ := bind_eq_ok h
  obtain ⟨sizes, -, h⟩ := bind_eq_ok h
  cases h
  rfl

theorem setFields_trade {t : GatewayTick} {price size : UInt64} {event : GatewayEvent} (hprice : t.price = some price)
    (hsize : t.size = some size) (htrade : event.eventType = .trade) :
    setFields env (dictForm t.toSbeTickArgs) event =
      if isFinite price ∧ isPositive price then
        if isFinite size ∧ isPositive size then .ok { event with price := some price, quantity := some size }
        else .error (.schema (.quantity (.float size)))
      else .error (.schema (.price (.float price))) := by
  have hgetPrice : (dictForm t.toSbeTickArgs).get? "price" = some (.float price) := by
    simp [dictForm, hprice, hsize, optionalField, Dict.get?]
  have hgetSize : (dictForm t.toSbeTickArgs).get? "quantity" = some (.float size) := by
    simp [dictForm, hprice, hsize, optionalField, Dict.get?]
  unfold setFields
  rw [htrade, hgetPrice, hgetSize]
  simp only [Option.getD_some, positive_float]
  split
  · split
    · rfl
    · rfl
  · rfl

/-- A dictionary does not go the way of a frame. -/
theorem normalize_dict (t : GatewayTick) (now : UInt64) (raw : GatewayRaw) (g : Gateway)
    (hpayload : raw.payload = some (dictForm t.toSbeTickArgs)) :
    normalize env now raw g = normalizePayload env raw (dictForm t.toSbeTickArgs) g := by
  have hitems : (dictForm t.toSbeTickArgs).items ≠ [] := by
    unfold dictForm
    rcases t.price with _ | price
    · exact List.cons_ne_nil _ _
    · exact List.cons_ne_nil _ _
  unfold normalize
  rw [hpayload, if_neg]
  rintro ⟨-, hnil⟩
  exact hitems hnil

/-- The dictionary of a trade whose numbers are good gives the trade. -/
theorem normalizePayload_trade {t : GatewayTick} {price size : UInt64} (raw : GatewayRaw) (g : Gateway) (hprice : t.price = some price)
    (hsize : t.size = some size) (hpriceOk : isFinite price ∧ isPositive price) (hsizeOk : isFinite size ∧ isPositive size)
    (hfinite : isFinite t.exchangeTs) :
    ∃ e, (normalizePayload env raw (dictForm t.toSbeTickArgs) g).1 = .ok e ∧ e.eventType = .trade ∧ e.instrumentId = t.symbol ∧
      e.exchangeTimestamp = t.exchangeTs ∧ e.sequenceNumber = some t.seq ∧ e.price = some price ∧ e.quantity = some size := by
  obtain ⟨kind, hkind⟩ := sourceKindOf_dictForm env raw.source t.toSbeTickArgs
  unfold normalizePayload
  rw [headOf_trade env _ hprice hsize, if_pos hfinite]
  dsimp only
  rw [hkind]
  dsimp only
  rw [setFields_trade env hprice hsize rfl, if_pos hpriceOk, if_pos hsizeOk]
  exact ⟨_, rfl, rfl, rfl, rfl, rfl, rfl, rfl⟩

/-- The dictionary of a tick gives a trade only where its numbers are good. -/
theorem of_normalizePayload_trade {t : GatewayTick} {raw : GatewayRaw} {g : Gateway} {e : GatewayEvent}
    (h : (normalizePayload env raw (dictForm t.toSbeTickArgs) g).1 = .ok e) (htrade : e.eventType = .trade) :
    ∃ price size, t.price = some price ∧ t.size = some size ∧ (isFinite price ∧ isPositive price) ∧
      (isFinite size ∧ isPositive size) ∧ isFinite t.exchangeTs := by
  obtain ⟨kind, hkind⟩ := sourceKindOf_dictForm env raw.source t.toSbeTickArgs
  unfold normalizePayload at h
  rcases hprice : t.price with _ | price
  · rcases hhead : headOf env raw.receiveTimestamp (dictForm t.toSbeTickArgs) with err | head
    · rw [hhead] at h
      cases h
    · rw [hhead] at h
      dsimp only at h
      rw [hkind] at h
      have hquote := setFields_quote env (headOf_quote env hprice hhead) h
      rw [htrade] at hquote
      cases hquote
  · rcases hsize : t.size with _ | size
    · rw [headOf_no_size env _ hprice hsize] at h
      cases h
    · rw [headOf_trade env _ hprice hsize] at h
      by_cases hfinite : isFinite t.exchangeTs
      · rw [if_pos hfinite] at h
        dsimp only at h
        rw [hkind] at h
        dsimp only at h
        rw [setFields_trade env hprice hsize rfl] at h
        split at h
        · rename_i hpriceOk
          split at h
          · rename_i hsizeOk
            exact ⟨price, size, rfl, rfl, hpriceOk, hsizeOk, hfinite⟩
          · cases h
        · cases h
      · rw [if_neg hfinite] at h
        cases h

end Gateway

theorem orZero_of_isPositive {bits : UInt64} (h : isPositive bits) : orZero (some bits) = bits := by
  have hzero : ¬isZero bits := by
    unfold isPositive at h
    exact (of_decide_eq_true h).2
  unfold orZero
  exact if_neg hzero

/-- A tick goes through the gateway alike as a frame and as a dictionary exactly where it is a trade whose numbers are good. -/
theorem gateway_agree_iff (env : GatewayEnv) (t : GatewayTick) (raw raw' : GatewayRaw) (dict : Bool) (now now' : UInt64)
    (g g' : Gateway) :
    GatewayAgree (Gateway.normalize env now (t.wireRaw raw dict) g).1 (Gateway.normalize env now' (t.dictRaw raw raw') g').1 ↔
      t.Plain := by
  have hpayload : (((t.wireRaw raw dict).payload).map (·.items)).getD [] = [] := by
    unfold GatewayTick.wireRaw
    cases dict
    · rfl
    · rfl
  obtain ⟨e, he, htrade, hinstrument, hts, hseq, hprice, hsize⟩ := Gateway.normalize_wire env t now (t.wireRaw raw dict) g rfl hpayload
  rw [he, Gateway.normalize_dict env t now' (t.dictRaw raw raw') g' rfl]
  constructor
  · intro h
    rcases hdict : (Gateway.normalizePayload env (t.dictRaw raw raw') (dictForm t.toSbeTickArgs) g').1 with err | e'
    · rw [hdict] at h
      exact h.elim
    · rw [hdict] at h
      obtain ⟨htype, hsame, -⟩ := h
      obtain ⟨price, size, hp, hs, hpriceOk, hsizeOk, hfinite⟩ :=
        Gateway.of_normalizePayload_trade env hdict (htype.symm.trans htrade)
      obtain ⟨e'', he'', -, hsymbol, -⟩ :=
        Gateway.normalizePayload_trade env (t.dictRaw raw raw') g' hp hs hpriceOk hsizeOk hfinite
      rw [hdict] at he''
      cases he''
      refine ⟨⟨price, hp, hpriceOk⟩, ⟨size, hs, hsizeOk⟩, hfinite, t.instrument_eq_iff.mp ?_⟩
      rw [← hinstrument, hsame, hsymbol]
  · rintro ⟨⟨price, hp, hpriceOk⟩, ⟨size, hs, hsizeOk⟩, hfinite, hsymbol⟩
    obtain ⟨e', he', htrade', hinstrument', hts', hseq', hprice', hsize'⟩ :=
      Gateway.normalizePayload_trade env (t.dictRaw raw raw') g' hp hs hpriceOk hsizeOk hfinite
    rw [he']
    refine ⟨htrade.trans htrade'.symm, ?_, hts.trans hts'.symm, hseq.trans hseq'.symm, ?_⟩
    · rw [hinstrument, hinstrument', t.instrument_eq_iff.mpr hsymbol]
    · unfold SameFields
      rw [htrade]
      rw [hp, orZero_of_isPositive hpriceOk.2] at hprice
      rw [hs, orZero_of_isPositive hsizeOk.2] at hsize
      exact ⟨hprice.trans hprice'.symm, hsize.trans hsize'.symm⟩

/-- A quote of 100 against 101. -/
def quoteArgs : SbeTickArgs where
  seq := 1
  symbol := "ACME"
  bid := some 0x4059000000000000
  ask := some 0x4059400000000000
  exchangeTs := 0x3FF0000000000000

theorem quoteArgs_packed : (packSbeTick quoteArgs).isSome := by decide

def quoteTick : GatewayTick where
  toSbeTickArgs := quoteArgs
  symbol_ascii := List.all_iff_forall_prop.mp (by decide)
  symbol_ne := by decide
  symbol_le := by decide
  seq_range := by decide
  wire := (packSbeTick quoteArgs).get quoteArgs_packed
  packed := (Option.some_get quoteArgs_packed).symm

/-- An environment without symbology. -/
def bareEnv : GatewayEnv := ⟨fun _ => some 0, fun _ _ => 0, fun _ => "", fun _ => none⟩

def bareRaw : GatewayRaw := ⟨"CME", none, 0, "raw-1", [], none⟩

def bareGateway : Gateway := ⟨"run", 1, .empty, .empty, .empty⟩

/-- As a frame a quote is a trade at a price of zero, as a dictionary it is a quote. -/
theorem gateway_agree_false :
    ¬GatewayAgree (Gateway.normalize bareEnv 0 (quoteTick.wireRaw bareRaw false) bareGateway).1
      (Gateway.normalize bareEnv 0 (quoteTick.dictRaw bareRaw bareRaw) bareGateway).1 := by
  obtain ⟨e, he, htrade, -⟩ := Gateway.normalize_wire bareEnv quoteTick 0 (quoteTick.wireRaw bareRaw false) bareGateway rfl rfl
  rw [he, Gateway.normalize_dict bareEnv quoteTick 0 (quoteTick.dictRaw bareRaw bareRaw) bareGateway rfl]
  rcases hdict : (Gateway.normalizePayload bareEnv (quoteTick.dictRaw bareRaw bareRaw) (dictForm quoteTick.toSbeTickArgs)
    bareGateway).1 with err | e'
  · exact id
  · rintro ⟨htype, -⟩
    obtain ⟨price, -, hprice, -⟩ := Gateway.of_normalizePayload_trade bareEnv hdict (htype.symm.trans htrade)
    cases hprice

end Mdrap
