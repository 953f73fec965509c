import Mathlib.Data.List.TakeWhile
import Mdrap.Lemmas.WireFields
import Mdrap.Shm.Writer
import Mdrap.Theorems.Seqlock

/-!
# What comes back from a slot

A message that is written to a slot and read again has its numbers, its texts and its status, whichever routines write and read it, with
some exceptions: a text ends at a NUL for C, a number of 32 bits may be another one, an unknown status of a depth message turns valid,
and the extension makes up numbers of a depth message that are not there.
-/

namespace Mdrap

open Lib

/-! ## Texts -/

/-- There is no NUL in a text. -/
def NulFree (s : String) : Prop := ∀ c ∈ s.toList, c ≠ Char.ofNat 0

instance (s : String) : Decidable (NulFree s) := List.decidableBAll _ s.toList

/-- The byte of a character. -/
def asciiByte (c : Char) : UInt8 := if c.toNat < 128 then UInt8.ofNat c.toNat else 0x3f

theorem asciiByte_eq_zero_iff {c : Char} (h : c.toNat < 128) : asciiByte c = 0 ↔ c = Char.ofNat 0 := by
  unfold asciiByte
  rw [if_pos h]
  constructor
  · intro hzero
    have hnat := congrArg UInt8.toNat hzero
    rw [UInt8.toNat_ofNat', UInt8.toNat_zero] at hnat
    have hc : c.toNat = 0 := by omega
    rw [← Char.ofNat_toNat c, hc]
  · rintro rfl
    rfl

section Ascii

variable {cs : List Char}

/-- A text of C ends at its first NUL. -/
theorem takeWhile_ascii (h : ∀ c ∈ cs, c.toNat < 128) :
    (cs.map asciiByte).takeWhile (· ≠ 0) = (cs.takeWhile (· ≠ Char.ofNat 0)).map asciiByte := by
  induction cs with
  | nil => rfl
  | cons c cs ih =>
    have hc := asciiByte_eq_zero_iff (h c List.mem_cons_self)
    have hrest := ih (fun c hc => h c (List.mem_cons_of_mem _ hc))
    rw [List.map_cons]
    by_cases hzero : c = Char.ofNat 0
    · rw [List.takeWhile_cons_of_neg (by simpa using hc.mpr hzero), List.takeWhile_cons_of_neg (by simpa using hzero)]
      rfl
    · rw [List.takeWhile_cons_of_pos (by simpa using fun h => hzero (hc.mp h)),
        List.takeWhile_cons_of_pos (by simpa using hzero), hrest, List.map_cons]

theorem takeWhile_zeros (b : Bytes) (k : Nat) : (b ++ zeros k).takeWhile (· ≠ 0) = b.takeWhile (· ≠ 0) := by
  induction b with
  | nil =>
    cases k with
    | zero => rfl
    | succ k => rfl
  | cons x b ih =>
    by_cases hx : x = 0
    · rw [List.cons_append, List.takeWhile_cons_of_neg (by simpa using hx), List.takeWhile_cons_of_neg (by simpa using hx)]
    · rw [List.cons_append, List.takeWhile_cons_of_pos (by simpa using hx), List.takeWhile_cons_of_pos (by simpa using hx), ih]

theorem getLast?_ascii (h : ∀ c ∈ cs, c.toNat < 128) (hlast : cs.getLast? ≠ some (Char.ofNat 0)) :
    (cs.map asciiByte).getLast? ≠ some 0 := by
  rw [List.getLast?_map]
  intro hzero
  obtain ⟨c, hc, hbyte⟩ := Option.map_eq_some_iff.mp hzero
  exact hlast (hc.trans (congrArg some ((asciiByte_eq_zero_iff (h c (List.mem_of_getLast? hc))).mp hbyte)))

theorem unpackText_ascii (h : ∀ c ∈ cs, c.toNat < 128) (hlast : cs.getLast? ≠ some (Char.ofNat 0)) {k n : Nat}
    (hlen : cs.length + k ≤ n) : unpackText (cs.map asciiByte ++ zeros k) 0 n = String.ofList cs := by
  have hwhole : wireField (cs.map asciiByte ++ zeros k) 0 n = cs.map asciiByte ++ zeros k := by
    refine List.take_of_length_le ?_
    rw [List.drop_zero, List.length_append, List.length_map, length_zeros]
    exact hlen
  unfold unpackText
  rw [hwhole, stripZeros_append k (getLast?_ascii h hlast)]
  exact congrArg String.ofList (decode_packed h)

theorem utf8EncodeChar_ascii {c : Char} (h : c.toNat < 128) : String.utf8EncodeChar c = [asciiByte c] := by
  have hle : c.val.toNat ≤ 0x7f := Nat.le_of_lt_succ h
  unfold String.utf8EncodeChar asciiByte
  rw [if_pos h]
  simp only [if_pos hle]
  rfl

theorem utf8_ascii (h : ∀ c ∈ cs, c.toNat < 128) : cs.flatMap String.utf8EncodeChar = cs.map asciiByte := by
  induction cs with
  | nil => rfl
  | cons c cs ih =>
    rw [List.flatMap_cons, List.map_cons, utf8EncodeChar_ascii (h c List.mem_cons_self),
      ih (fun c hc => h c (List.mem_cons_of_mem _ hc))]
    rfl

theorem fromUTF8?_ascii (h : ∀ c ∈ cs, c.toNat < 128) : String.fromUTF8? (cs.map asciiByte).toByteArray = some (String.ofList cs) := by
  have hbytes : (cs.map asciiByte).toByteArray = (String.ofList cs).toByteArray := by
    rw [← utf8_ascii h, String.toByteArray_ofList]
    rfl
  rw [hbytes, String.fromUTF8?, dif_pos (String.ofList cs).isValidUTF8]
  rfl

/-- What is read of a text: for C it ends at its first NUL. -/
theorem shmText_ascii (native : NativeShm) (h : ∀ c ∈ cs, c.toNat < 128) (hlast : cs.getLast? ≠ some (Char.ofNat 0)) (k : Nat) :
    shmText native (cs.map asciiByte ++ zeros k) =
      some (String.ofList (if native = .absent then cs else cs.takeWhile (· ≠ Char.ofNat 0))) := by
  have hascii : ∀ c ∈ cs.takeWhile (· ≠ Char.ofNat 0), c.toNat < 128 := fun c hc => h c (List.takeWhile_subset _ hc)
  have hcut : (cs.map asciiByte ++ zeros k).takeWhile (· ≠ 0) = (cs.takeWhile (· ≠ Char.ofNat 0)).map asciiByte :=
    (takeWhile_zeros _ k).trans (takeWhile_ascii h)
  cases native with
  | extension =>
    rw [shmText, hcut, fromUTF8?_ascii hascii]
    rfl
  | ctypes =>
    have hend : (cs.takeWhile (· ≠ Char.ofNat 0)).getLast? ≠ some (Char.ofNat 0) := by
      intro hnul
      have := List.mem_takeWhile_imp (List.mem_of_getLast? hnul)
      simp at this
    have hread := unpackText_ascii hascii hend (k := 0) (n := (cs.map asciiByte ++ zeros k).length) (by
      rw [List.length_append, List.length_map]
      exact Nat.le_add_right_of_le (List.takeWhile_prefix _).length_le)
    rw [zeros, List.replicate_zero, List.append_nil] at hread
    rw [shmText, hcut, hread]
    rfl
  | absent =>
    rw [shmText, unpackText_ascii h hlast (by rw [List.length_append, List.length_map, length_zeros])]
    rfl

end Ascii

section Texts

variable {s : String} {n : Nat}

theorem ofList_takeWhile_iff (s : String) : String.ofList (s.toList.takeWhile (· ≠ Char.ofNat 0)) = s ↔ NulFree s := by
  constructor
  · intro h
    have hlist := congrArg String.toList h
    rw [String.toList_ofList, List.takeWhile_eq_self_iff] at hlist
    exact fun c hc => of_decide_eq_true (hlist c hc)
  · intro h
    rw [List.takeWhile_eq_self_iff.mpr (fun c hc => decide_eq_true (h c hc)), String.ofList_toList]

/-- A text that Python packed comes back, unless C reads it and there is a NUL in it. -/
theorem shmText_packText_iff (hs : FitsField n s) (native : NativeShm) :
    shmText native (packText n s) = some s ↔ (native ≠ .absent → NulFree s) := by
  obtain ⟨hascii, hlen, hlast⟩ := hs
  have hpack : packText n s = s.toList.map asciiByte ++ zeros (n - s.toList.length) := by
    unfold packText
    rw [List.take_of_length_le (by rwa [List.length_map])]
    dsimp only
    rw [List.length_map]
    rfl
  rw [hpack, shmText_ascii native hascii hlast, Option.some.injEq]
  by_cases hnative : native = .absent
  · rw [if_pos hnative, String.ofList_toList]
    exact iff_of_true rfl (fun hne => absurd hnative hne)
  · rw [if_neg hnative, ofList_takeWhile_iff]
    exact ⟨fun h _ => h, fun h => h hnative⟩

/-- A text that C packed comes back unless there is a NUL in it. -/
theorem shmText_native_iff (hs : FitsField n s) (hn : n < 64) {b : Bytes} (hb : b = utf8Bytes s ∨ b = (encodeAscii s).take n)
    (native : NativeShm) : shmText native (resize n (cText (b ++ [0]))) = some s ↔ NulFree s := by
  obtain ⟨hascii, hlen, hlast⟩ := hs
  have hbytes : b = s.toList.map asciiByte := by
    rcases hb with rfl | rfl
    · exact utf8_ascii hascii
    · exact List.take_of_length_le (by rwa [encodeAscii, List.length_map])
  have htext : cText (b ++ [0]) = (s.toList.takeWhile (· ≠ Char.ofNat 0)).map asciiByte := by
    unfold cText
    rw [hbytes, List.take_of_length_le (by rw [List.length_append, List.length_map]; exact Nat.succ_le_of_lt (hlen.trans_lt hn))]
    exact (takeWhile_zeros _ 1).trans (takeWhile_ascii hascii)
  have hshort : ((s.toList.takeWhile (· ≠ Char.ofNat 0)).map asciiByte).length ≤ n := by
    rw [List.length_map]
    exact (List.takeWhile_prefix _).length_le.trans hlen
  have hcut : ∀ c ∈ s.toList.takeWhile (· ≠ Char.ofNat 0), c ≠ Char.ofNat 0 := by
    intro c hc
    have hkept := List.mem_takeWhile_imp hc
    exact of_decide_eq_true hkept
  have hend : (s.toList.takeWhile (· ≠ Char.ofNat 0)).getLast? ≠ some (Char.ofNat 0) := fun hnul =>
    hcut _ (List.mem_of_getLast? hnul) rfl
  have hagain : (s.toList.takeWhile (· ≠ Char.ofNat 0)).takeWhile (· ≠ Char.ofNat 0) = s.toList.takeWhile (· ≠ Char.ofNat 0) :=
    List.takeWhile_eq_self_iff.mpr (fun c hc => decide_eq_true (hcut c hc))
  rw [htext, resize, List.take_of_length_le hshort,
    shmText_ascii native (fun c hc => hascii c (List.takeWhile_subset _ hc)) hend, hagain, ite_self, Option.some.injEq,
    ofList_takeWhile_iff]

end Texts

/-! ## Numbers and codes -/

/-- The bits of a mask, each one of a field. -/
theorem presentMask_bits : ∀ a b c d e f : Bool,
    let bit (x : Bool) (n : Nat) : UInt8 := if x then UInt8.ofNat n else 0
    let mask := bit a SHM3_PRESENT_PRICE ||| bit b SHM3_PRESENT_SIZE ||| bit c SHM3_PRESENT_BID ||| bit d SHM3_PRESENT_ASK |||
      bit e SHM3_PRESENT_BSZ ||| bit f SHM3_PRESENT_ASZ
    (mask &&& UInt8.ofNat SHM3_PRESENT_PRICE ≠ 0 ↔ a) ∧ (mask &&& UInt8.ofNat SHM3_PRESENT_SIZE ≠ 0 ↔ b) ∧
      (mask &&& UInt8.ofNat SHM3_PRESENT_BID ≠ 0 ↔ c) ∧ (mask &&& UInt8.ofNat SHM3_PRESENT_ASK ≠ 0 ↔ d) ∧
      (mask &&& UInt8.ofNat SHM3_PRESENT_BSZ ≠ 0 ↔ e) ∧ (mask &&& UInt8.ofNat SHM3_PRESENT_ASZ ≠ 0 ↔ f) := by
  decide

/-- A number that is there comes back, and one that is not there does not. -/
theorem sameNumber_field {s : ShmSlot} {bit : Nat} {x : Option UInt64} (h : s.present &&& UInt8.ofNat bit ≠ 0 ↔ x.isSome) :
    SameNumber (s.field bit (orZero x)) x := by
  unfold ShmSlot.field
  rcases x with _ | b
  · rw [if_neg (by simpa using h)]
    trivial
  · rw [if_pos (h.mpr rfl)]
    exact (sameNumber_orZero_iff (some b)).mpr rfl

/-- What a status is to be read as. -/
def expectedStatus (status : String) : String :=
  if status ∈ ["VALID", "SUSPICIOUS", "INVALID"] then status else "UNKNOWN"

theorem statusText_zero (status : String) : statusText (shmStatusCode status 0).toNat = expectedStatus status := by
  unfold shmStatusCode expectedStatus
  by_cases hu : status = "UNKNOWN"
  · subst hu
    decide
  · by_cases hv : status = "VALID"
    · subst hv
      decide
    · by_cases hs : status = "SUSPICIOUS"
      · subst hs
        decide
      · by_cases hi : status = "INVALID"
        · subst hi
          decide
        · rw [if_neg hu, if_neg hv, if_neg hs, if_neg hi, if_neg (by simp [hv, hs, hi])]
          decide

/-- An unknown status of a depth message is read as valid. -/
theorem statusText_one_iff (status : String) :
    statusText (shmStatusCode status 1).toNat = expectedStatus status ↔ status ∈ ["UNKNOWN", "VALID", "SUSPICIOUS", "INVALID"] := by
  by_cases hknown : status ∈ ["UNKNOWN", "VALID", "SUSPICIOUS", "INVALID"]
  · refine iff_of_true ?_ hknown
    simp only [List.mem_cons, List.not_mem_nil, or_false] at hknown
    rcases hknown with rfl | rfl | rfl | rfl <;> decide
  · refine iff_of_false ?_ hknown
    simp only [List.mem_cons, List.not_mem_nil, or_false, not_or] at hknown
    obtain ⟨hu, hv, hs, hi⟩ := hknown
    unfold shmStatusCode expectedStatus
    rw [if_neg hu, if_neg hv, if_neg hs, if_neg hi, if_neg (by simp [hv, hs, hi])]
    decide

/-- A number of 64 bits is one of 32. -/
def IsSingle (bits : UInt64) : Prop :=
  ∃ single, toSingle (orZero (some bits)) = some single ∧ SameNumber (some (ofSingle single)) (some bits)

/-- An infinite number is none that was too large. -/
theorem sameNumber_cSingle_iff (bits : UInt64) : SameNumber (some (ofSingle (cSingle (orZero (some bits))))) (some bits) ↔ IsSingle bits := by
  unfold IsSingle cSingle
  rcases hsingle : toSingle (orZero (some bits)) with _ | single
  · refine iff_of_false ?_ (by rintro ⟨single, h, -⟩; cases h)
    have hfinite : isFinite bits = true := by
      unfold isFinite
      refine decide_eq_true ?_
      intro hmax
      have hzero : isZero bits = false := by
        unfold isZero
        refine decide_eq_false ?_
        simp only [doubleParts] at hmax
        omega
      rw [orZero_of_not_isZero hzero] at hsingle
      unfold toSingle at hsingle
      simp only [hmax, if_true] at hsingle
      cases hsingle
    rw [Option.getD_none]
    split
    · rintro (h | ⟨h, -⟩)
      · rw [← h] at hfinite
        revert hfinite
        decide
      · revert h
        decide
    · rintro (h | ⟨h, -⟩)
      · rw [← h] at hfinite
        revert hfinite
        decide
      · revert h
        decide
  · simp

theorem flag_eq (c : Bool) : decide ((if c then (1 : UInt8) else 0) ≠ 0) = c := by cases c <;> rfl

/-! ## Messages -/

/-- A message for a slot. -/
inductive ShmMessage where
  | tick (a : ShmTickArgs)
  | depth (a : ShmDepthArgs)

/-- The dictionary of a tick has the values that were written. -/
structure ShmTickItem.Matches (t : ShmTickItem) (a : ShmTickArgs) : Prop where
  seq : t.seq = a.seq
  sym : t.sym = some a.symbol
  source : t.source = some a.source
  price : SameNumber t.price a.price
  size : SameNumber t.size a.size
  bid : SameNumber t.bid a.bid
  ask : SameNumber t.ask a.ask
  bidSize : SameNumber t.bidSize a.bidSize
  askSize : SameNumber t.askSize a.askSize
  status : t.status = expectedStatus a.status
  isCrossed : t.isCrossed = a.isCrossed
  exchangeTs : SameNumber (some t.exchangeTs) (some a.exchangeTs)
  ingestTs : SameNumber (some t.ingestTs) (some a.ingestTs)
  broadcastTs : SameNumber (some t.broadcastTs) (some a.broadcastTs)
  engineUs : SameNumber (some t.engineUs) (some a.engineUs)

/-- The dictionary of a depth message has the values that were written. -/
structure ShmDepthItem.Matches (d : ShmDepthItem) (a : ShmDepthArgs) : Prop where
  seq : d.seq = a.seq
  sym : d.sym = some a.symbol
  microPrice : SameNumber d.microPrice a.microPrice
  ofi : SameNumber d.ofi a.ofi
  bid : SameNumber d.bid a.bestBid
  ask : SameNumber d.ask a.bestAsk
  bidSize : SameNumber d.bidSize a.bidSize
  askSize : SameNumber d.askSize a.askSize
  status : d.status = expectedStatus a.status
  isCrossed : d.isCrossed = a.isCrossed
  exchangeTs : SameNumber (some d.exchangeTs) (some a.exchangeTs)
  ingestTs : SameNumber (some d.ingestTs) (some a.ingestTs)
  broadcastTs : SameNumber (some d.broadcastTs) (some a.broadcastTs)
  engineUs : SameNumber (some d.engineUs) (some a.engineUs)

namespace ShmMessage

variable (g : ShmGeometry) (writer reader : NativeShm) (m : ShmSegment)

/-- The number of a message. -/
def seq : ShmMessage → UInt64
  | tick a => a.seq
  | depth a => a.seq

/-- The texts fit their fields. -/
def Legal : ShmMessage → Prop
  | tick a => FitsField 16 a.symbol ∧ FitsField 8 a.source
  | depth a => FitsField 16 a.symbol

/-- A message is written. -/
def write : ShmMessage → Option ShmSegment
  | tick a => m.pyWriteTick g writer a
  | depth a => m.pyWriteDepth g a

/-- An item has the values of a message. -/
def Matches : ShmMessage → ShmItem → Prop
  | tick a, .tick t => t.Matches a
  | depth a, .depth d => d.Matches a
  | _, _ => False

/-- A message is written, and read from its slot as it was written. -/
def ReadsBack (x : ShmMessage) : Prop := ∃ m' ∈ x.write g writer m, ∃ item ∈ m'.pyReadSlot g reader x.seq, x.Matches item

/-- The compiled routines write a tick. -/
def IsNative (a : ShmTickArgs) : Prop := writer ≠ .absent ∧ a.seq = m.head

instance (a : ShmTickArgs) : Decidable (IsNative writer m a) := inferInstanceAs (Decidable (_ ∧ _))

/-- What it takes: a number that Python can go on from, unless C writes; a number of 32 bits for the time of the engine; no NUL in a
text that goes through C; and for a depth message a known status, and both of its first numbers for the extension. -/
def Survives : ShmMessage → Prop
  | tick a =>
    (IsNative writer m a ∨ a.seq ≠ uncommitted) ∧ IsSingle a.engineUs ∧
      (IsNative writer m a ∨ reader ≠ .absent → NulFree a.symbol ∧ NulFree a.source)
  | depth a =>
    a.seq ≠ uncommitted ∧ IsSingle a.engineUs ∧ (reader ≠ .absent → NulFree a.symbol) ∧
      a.status ∈ ["UNKNOWN", "VALID", "SUSPICIOUS", "INVALID"] ∧ (reader = .extension → a.microPrice.isSome ∧ a.ofi.isSome)

variable {g writer reader m}

/-- A slot that was just written is read. -/
theorem pyReadSlot_putTick (seq : UInt64) {s : ShmSlot} (hsymbol : s.symbol.length = 16) (hsource : s.source.length = 8) :
    (m.putTick g seq s.word).pyReadSlot g reader seq = some (s.item reader seq) := by
  rw [ShmSegment.pyReadSlot, ShmSegment.readSlot_putTick, Option.map_some, ShmSlot.wordsBytes_word,
    ShmSlot.ofBytes_bytes hsymbol hsource]

theorem sameNumber_some (bits : UInt64) : SameNumber (some (orZero (some bits))) (some bits) :=
  (sameNumber_orZero_iff (some bits)).mpr rfl

/-- What a tick is read as, by what its texts and the time of the engine are read as. -/
theorem tick_item_iff {a : ShmTickArgs} {s : ShmSlot} (htype : s.eventType = EVENT_TYPE_TICK)
    (hstatus : statusText s.status.toNat = expectedStatus a.status) (hcrossed : s.isCrossed = if a.isCrossed then 1 else 0)
    (hpresent : s.present = presentMask a.price a.size a.bid a.ask a.bidSize a.askSize)
    (hnumbers : s.price = orZero a.price ∧ s.size = orZero a.size ∧ s.bid = orZero a.bid ∧ s.ask = orZero a.ask ∧
      s.bidSz = orZero a.bidSize ∧ s.askSz = orZero a.askSize)
    (htimes : s.exchangeTs = orZero (some a.exchangeTs) ∧ s.ingestTs = orZero (some a.ingestTs) ∧
      s.broadcastTs = orZero (some a.broadcastTs)) :
    (tick a).Matches (s.item reader a.seq) ↔ shmText reader s.symbol = some a.symbol ∧ shmText reader s.source = some a.source ∧
      SameNumber (some (ofSingle s.engineUs)) (some a.engineUs) := by
  obtain ⟨hprice, hsize, hbid, hask, hbidSz, haskSz⟩ := hnumbers
  obtain ⟨hexchange, hingest, hbroadcast⟩ := htimes
  obtain ⟨bprice, bsize, bbid, bask, bbidSize, baskSize⟩ :=
    presentMask_bits a.price.isSome a.size.isSome a.bid.isSome a.ask.isSome a.bidSize.isSome a.askSize.isSome
  have hitem : s.item reader a.seq = .tick
      { seq := a.seq
        sym := shmText reader s.symbol
        price := s.field SHM3_PRESENT_PRICE s.price
        size := s.field SHM3_PRESENT_SIZE s.size
        bid := s.field SHM3_PRESENT_BID s.bid
        ask := s.field SHM3_PRESENT_ASK s.ask
        bidSize := s.field SHM3_PRESENT_BSZ s.bidSz
        askSize := s.field SHM3_PRESENT_ASZ s.askSz
        source := shmText reader s.source
        status := statusText s.status.toNat
        isCrossed := s.isCrossed ≠ 0
        exchangeTs := s.exchangeTs
        ingestTs := s.ingestTs
        broadcastTs := s.broadcastTs
        engineUs := ofSingle s.engineUs } := by
    rw [ShmSlot.item, if_neg (by rw [htype]; decide)]
  rw [hitem]
  constructor
  · intro h
    exact ⟨h.sym, h.source, h.engineUs⟩
  · rintro ⟨hsym, hsource, hengine⟩
    refine ⟨rfl, hsym, hsource, ?_, ?_, ?_, ?_, ?_, ?_, hstatus, ?_, ?_, ?_, ?_, hengine⟩
    · exact hprice ▸ sameNumber_field (hpresent ▸ bprice)
    · exact hsize ▸ sameNumber_field (hpresent ▸ bsize)
    · exact hbid ▸ sameNumber_field (hpresent ▸ bbid)
    · exact hask ▸ sameNumber_field (hpresent ▸ bask)
    · exact hbidSz ▸ sameNumber_field (hpresent ▸ bbidSize)
    · exact haskSz ▸ sameNumber_field (hpresent ▸ baskSize)
    · exact hcrossed ▸ flag_eq a.isCrossed
    · exact hexchange ▸ sameNumber_some a.exchangeTs
    · exact hingest ▸ sameNumber_some a.ingestTs
    · exact hbroadcast ▸ sameNumber_some a.broadcastTs

theorem nativeStatus (status : String) :
    statusText (if (if status = "VALID" then (1 : UInt8) else if status = "SUSPICIOUS" then 2 else if status = "INVALID" then 3 else 0) ≤ 3
      then (if status = "VALID" then (1 : UInt8) else if status = "SUSPICIOUS" then 2 else if status = "INVALID" then 3 else 0)
      else 0).toNat = expectedStatus status := by
  unfold expectedStatus
  by_cases hv : status = "VALID"
  · subst hv
    decide
  · by_cases hs : status = "SUSPICIOUS"
    · subst hs
      decide
    · by_cases hi : status = "INVALID"
      · subst hi
        decide
      · have hnone : status ∉ ["VALID", "SUSPICIOUS", "INVALID"] := by simp [hv, hs, hi]
        rw [if_neg hv, if_neg hs, if_neg hi, if_neg hnone]
        decide

/-- A tick that C wrote. -/
theorem native_reads_back_iff {a : ShmTickArgs} (h : (tick a).Legal) (hnative : IsNative writer m a) :
    (tick a).ReadsBack g writer reader m ↔ IsSingle a.engineUs ∧ NulFree a.symbol ∧ NulFree a.source := by
  obtain ⟨hsymbol, hsource⟩ := h
  have hsym : (nativeTick writer a).slot.symbol.length = 16 := length_resize _ _
  have hsrc : (nativeTick writer a).slot.source.length = 8 := length_resize _ _
  have hwrite : (tick a).write g writer m = some (m.putTick g a.seq (nativeTick writer a).slot.word) := by
    have hboth : writer ≠ .absent ∧ a.seq = m.head := hnative
    rw [write, ShmSegment.pyWriteTick, if_pos hboth, ShmSegment.writeTick, if_neg (not_not_intro hnative.2)]
  have hmatches := @tick_item_iff reader a (nativeTick writer a).slot rfl (nativeStatus a.status) rfl rfl
    ⟨rfl, rfl, rfl, rfl, rfl, rfl⟩ ⟨rfl, rfl, rfl⟩
  have hbytes : ∀ {n : Nat} {t : String}, (if writer = .extension then utf8Bytes t else (encodeAscii t).take n) = utf8Bytes t ∨
      (if writer = .extension then utf8Bytes t else (encodeAscii t).take n) = (encodeAscii t).take n := by
    intro n t
    split
    · exact .inl rfl
    · exact .inr rfl
  have hs : shmText reader (nativeTick writer a).slot.symbol = some a.symbol ↔ NulFree a.symbol :=
    shmText_native_iff hsymbol (by decide) hbytes reader
  have ht : shmText reader (nativeTick writer a).slot.source = some a.source ↔ NulFree a.source :=
    shmText_native_iff hsource (by decide) hbytes reader
  have hread : (tick a).ReadsBack g writer reader m ↔ (tick a).Matches ((nativeTick writer a).slot.item reader a.seq) := by
    unfold ReadsBack
    rw [hwrite]
    simp only [Option.mem_some_iff, exists_eq_left', seq]
    rw [pyReadSlot_putTick a.seq hsym hsrc]
    simp only [Option.mem_some_iff, exists_eq_left']
  rw [hread, hmatches, hs, ht]
  have hengine : SameNumber (some (ofSingle (nativeTick writer a).slot.engineUs)) (some a.engineUs) ↔ IsSingle a.engineUs :=
    sameNumber_cSingle_iff a.engineUs
  rw [hengine]
  constructor
  · rintro ⟨h1, h2, h3⟩
    exact ⟨h3, h1, h2⟩
  · rintro ⟨h3, h1, h2⟩
    exact ⟨h1, h2, h3⟩

/-- A slot that Python writes is read, unless its number is the last one of all. -/
theorem put_reads_back_iff {x : ShmMessage} {s : ShmSlot} (hsymbol : s.symbol.length = 16) (hsource : s.source.length = 8)
    (hwrite : x.write g writer m = m.putSlot g x.seq s) :
    x.ReadsBack g writer reader m ↔ x.seq ≠ uncommitted ∧ x.Matches (s.item reader x.seq) := by
  unfold ReadsBack
  rw [hwrite, ShmSegment.putSlot]
  by_cases hlast : x.seq = uncommitted
  · rw [if_pos hlast]
    refine iff_of_false ?_ (fun h => h.1 hlast)
    rintro ⟨m', hm', -⟩
    cases hm'
  · rw [if_neg hlast, and_iff_right hlast]
    simp only [Option.mem_some_iff, exists_eq_left']
    rw [pyReadSlot_putTick x.seq hsymbol hsource]
    simp only [Option.mem_some_iff, exists_eq_left']

/-- A tick that Python wrote. -/
theorem python_reads_back_iff {a : ShmTickArgs} (h : (tick a).Legal) (hnative : ¬IsNative writer m a) :
    (tick a).ReadsBack g writer reader m ↔
      a.seq ≠ uncommitted ∧ IsSingle a.engineUs ∧ (reader ≠ .absent → NulFree a.symbol ∧ NulFree a.source) := by
  obtain ⟨hsymbol, hsource⟩ := h
  have hboth : ¬(writer ≠ .absent ∧ a.seq = m.head) := hnative
  have hwrite : (tick a).write g writer m = (tickSlot a).bind (m.putSlot g a.seq) := by
    rw [write, ShmSegment.pyWriteTick, if_neg hboth]
  unfold IsSingle
  rcases hengine : toSingle (orZero (some a.engineUs)) with _ | single
  · rw [tickSlot, hengine, Option.map_none, Option.bind_none] at hwrite
    refine iff_of_false ?_ ?_
    · rintro ⟨m', hm', -⟩
      rw [hwrite] at hm'
      cases hm'
    · rintro ⟨-, ⟨single, hsingle, -⟩, -⟩
      exact Option.some_ne_none single hsingle.symm
  · rw [tickSlot, hengine, Option.map_some, Option.bind_some] at hwrite
    rw [put_reads_back_iff (length_packText 16 a.symbol) (length_packText 8 a.source) hwrite, seq,
      tick_item_iff rfl (statusText_zero a.status) rfl rfl ⟨rfl, rfl, rfl, rfl, rfl, rfl⟩ ⟨rfl, rfl, rfl⟩]
    have hs := shmText_packText_iff hsymbol reader
    have ht := shmText_packText_iff hsource reader
    simp only [Option.some.injEq, exists_eq_left']
    constructor
    · rintro ⟨hlast, h1, h2, h3⟩
      exact ⟨hlast, h3, fun hr => ⟨hs.mp h1 hr, ht.mp h2 hr⟩⟩
    · rintro ⟨hlast, h3, h12⟩
      exact ⟨hlast, hs.mpr (fun hr => (h12 hr).1), ht.mpr (fun hr => (h12 hr).2), h3⟩

/-- The first numbers of a depth message: the extension gives them whether they are there or not. -/
theorem sameNumber_extension_iff {s : ShmSlot} {bit : Nat} {x : Option UInt64} (h : s.present &&& UInt8.ofNat bit ≠ 0 ↔ x.isSome) :
    SameNumber (if reader = .extension then some (orZero x) else s.field bit (orZero x)) x ↔ (reader = .extension → x.isSome) := by
  by_cases hreader : reader = .extension
  · rw [if_pos hreader, sameNumber_orZero_iff]
    exact ⟨fun h _ => h, fun h => h hreader⟩
  · rw [if_neg hreader]
    exact iff_of_true (sameNumber_field h) (fun heq => absurd heq hreader)

/-- A depth message. -/
theorem depth_reads_back_iff {a : ShmDepthArgs} (h : (depth a).Legal) :
    (depth a).ReadsBack g writer reader m ↔ (depth a).Survives writer reader m := by
  have hwrite : (depth a).write g writer m = (depthSlot a).bind (m.putSlot g a.seq) := rfl
  simp only [Survives, IsSingle]
  rcases hengine : toSingle (orZero (some a.engineUs)) with _ | single
  · rw [depthSlot, hengine, Option.map_none, Option.bind_none] at hwrite
    refine iff_of_false ?_ ?_
    · rintro ⟨m', hm', -⟩
      rw [hwrite] at hm'
      cases hm'
    · rintro ⟨-, ⟨single, hsingle, -⟩, -⟩
      exact Option.some_ne_none single hsingle.symm
  · rw [depthSlot, hengine, Option.map_some, Option.bind_some] at hwrite
    rw [put_reads_back_iff (length_packText 16 a.symbol) (length_packText 8 "DEPTH") hwrite, seq]
    obtain ⟨bprice, bsize, bbid, bask, bbidSize, baskSize⟩ :=
      presentMask_bits a.microPrice.isSome a.ofi.isSome a.bestBid.isSome a.bestAsk.isSome a.bidSize.isSome a.askSize.isSome
    have hs := shmText_packText_iff h reader
    have hst := statusText_one_iff a.status
    simp only [Option.some.injEq, exists_eq_left', ShmSlot.item, Matches]
    refine and_congr_right (fun _ => ?_)
    constructor
    · intro hm
      have hprice := (@sameNumber_extension_iff reader _ _ _ bprice).mp hm.microPrice
      have hofi := (@sameNumber_extension_iff reader _ _ _ bsize).mp hm.ofi
      exact ⟨hm.engineUs, hs.mp hm.sym, hst.mp hm.status, fun hr => ⟨hprice hr, hofi hr⟩⟩
    · rintro ⟨hsingle, hsym, hstatus, hboth⟩
      refine ⟨rfl, hs.mpr hsym, ?_, ?_, ?_, ?_, ?_, ?_, hst.mpr hstatus, flag_eq a.isCrossed, sameNumber_some a.exchangeTs,
        sameNumber_some a.ingestTs, sameNumber_some a.broadcastTs, hsingle⟩
      · exact (sameNumber_extension_iff bprice).mpr (fun hr => (hboth hr).1)
      · exact (sameNumber_extension_iff bsize).mpr (fun hr => (hboth hr).2)
      · exact sameNumber_field bbid
      · exact sameNumber_field bask
      · exact sameNumber_field bbidSize
      · exact sameNumber_field baskSize

end ShmMessage

/-- A message comes back from its slot as it was written if and only if it survives its way. -/
theorem shm_round_trip (g : ShmGeometry) (writer reader : NativeShm) (m : ShmSegment) (x : ShmMessage) (h : x.Legal) :
    x.ReadsBack g writer reader m ↔ x.Survives writer reader m := by
  rcases x with a | a
  · by_cases hnative : ShmMessage.IsNative writer m a
    · rw [ShmMessage.native_reads_back_iff h hnative]
      simp only [ShmMessage.Survives, hnative, true_or, true_and, forall_const]
    · rw [ShmMessage.python_reads_back_iff h hnative]
      simp only [ShmMessage.Survives, hnative, false_or]
  · exact ShmMessage.depth_reads_back_iff h

/-- A valid tick of X, bid at zero with no size. -/
def zeroBid : ShmTickArgs where
  seq := 0
  symbol := "X"
  source := "A"
  price := none
  size := none
  bid := some 0
  ask := some 0x4059000000000000
  bidSize := none
  askSize := some 0x3FF0000000000000
  status := "VALID"
  isCrossed := false
  exchangeTs := 0x4059000000000000
  ingestTs := 0x4059000000000000
  broadcastTs := 0x4059000000000000
  engineUs := 0x4000000000000000

/-- A tick that the extension writes and `ctypes` reads. -/
theorem shm_round_trip_zero_bid : (ShmMessage.tick zeroBid).ReadsBack twoSlots .extension .ctypes .init :=
  (shm_round_trip twoSlots .extension .ctypes .init (.tick zeroBid) ⟨by decide, by decide⟩).mpr
    ⟨.inl ⟨by decide, rfl⟩, ⟨0x40000000, by decide, .inl (by decide)⟩, fun _ => by decide⟩

/-- A depth message of a market that was halted. -/
def haltedDepth : ShmDepthArgs where
  seq := 0
  symbol := "X"
  bestBid := none
  bestAsk := none
  bidSize := none
  askSize := none
  microPrice := none
  ofi := none
  isCrossed := false
  exchangeTs := 0
  ingestTs := 0
  broadcastTs := 0
  engineUs := 0
  status := "HALTED"

/-- The status of a depth message that is none of the four is read as valid. -/
theorem shm_round_trip_false :
    (ShmMessage.depth haltedDepth).Legal ∧ haltedDepth.status ∉ ["VALID", "SUSPICIOUS", "INVALID"] ∧
      (∃ m item, ShmSegment.init.pyWriteDepth twoSlots haltedDepth = some m ∧
        m.pyReadSlot twoSlots .absent 0 = some (.depth item) ∧ item.status = "VALID") ∧
      ¬(ShmMessage.depth haltedDepth).ReadsBack twoSlots .absent .absent .init := by
  have hslot : depthSlot haltedDepth = some (depthSlotWith haltedDepth 0) := by
    rw [depthSlot, show toSingle (orZero (some haltedDepth.engineUs)) = some 0 by decide, Option.map_some]
  have hwrite : ShmSegment.init.pyWriteDepth twoSlots haltedDepth =
      some (ShmSegment.init.putTick twoSlots 0 (depthSlotWith haltedDepth 0).word) := by
    rw [ShmSegment.pyWriteDepth, hslot]
    rfl
  have hread := @ShmMessage.pyReadSlot_putTick twoSlots .absent .init 0
    (s := depthSlotWith haltedDepth 0) (length_packText 16 haltedDepth.symbol) (length_packText 8 "DEPTH")
  have hlegal : FitsField 16 haltedDepth.symbol := by decide
  refine ⟨hlegal, by decide, ⟨_, _, hwrite, hread, rfl⟩, ?_⟩
  rintro ⟨m, hm, item, hitem, hmatches⟩
  obtain rfl := Option.some.inj (hwrite.symm.trans hm)
  obtain rfl := Option.some.inj (hread.symm.trans hitem)
  exact absurd hmatches.status (by decide)

end Mdrap
