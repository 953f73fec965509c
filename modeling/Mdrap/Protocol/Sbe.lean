import Mdrap.Protocol.Wire

/-!
# Ticks in the binary encoding of the exchange

A frame of 128 bytes: a header of four numbers and a payload. A field that is absent is packed as zero.
-/

namespace Mdrap

open Lib

/-- `TEMPLATE_TICK`. -/
def templateTick : Nat := 101

/-- `TICK_PAYLOAD_SIZE`. -/
def sbeTickPayloadSize : Nat := 120

/-- The arguments of `pack_sbe_tick`. -/
structure SbeTickArgs where
  seq : Int
  symbol : String
  source : String := ""
  price : Option UInt64 := none
  size : Option UInt64 := none
  bid : Option UInt64 := none
  ask : Option UInt64 := none
  bidSize : Option UInt64 := none
  askSize : Option UInt64 := none
  status : String := "VALID"
  isCrossed : Bool := false
  exchangeTs : UInt64 := 0
  ingestTs : UInt64 := 0
  broadcastTs : UInt64 := 0
  engineUs : UInt64 := 0

/-- The code of a status. -/
def sbeStatusCode (status : String) : Nat := if status = "VALID" then 1 else if status = "SUSPICIOUS" then 2 else 3

/-- `pack_sbe_tick`. -/
def packSbeTick (a : SbeTickArgs) : Option Bytes := do
  let seq ← packUInt64 a.seq
  let engineUs ← packSingle a.engineUs
  return le 2 sbeTickPayloadSize ++ le 2 templateTick ++ le 2 1 ++ le 2 1 ++
    (seq ++ packDouble a.exchangeTs ++ packDouble a.ingestTs ++ packDouble a.broadcastTs ++
      packDouble (orZero a.price) ++ packDouble (orZero a.size) ++ packDouble (orZero a.bid) ++ packDouble (orZero a.ask) ++
      packDouble (orZero a.bidSize) ++ packDouble (orZero a.askSize) ++
      le 1 (sbeStatusCode a.status) ++ le 1 (if a.isCrossed then 1 else 0) ++ zeros 2 ++ engineUs ++
      packText 16 a.symbol ++ packText 16 a.source)

/-- `SBETickMessage`. -/
structure SbeTickMessage where
  seq : Nat
  exchangeTs : UInt64
  ingestTs : UInt64
  broadcastTs : UInt64
  price : UInt64
  size : UInt64
  bid : UInt64
  ask : UInt64
  bidSize : UInt64
  askSize : UInt64
  status : String
  isCrossed : Bool
  engineUs : UInt64
  symbol : String
  source : String

/-- A text in a field: `decode("ascii", errors="replace").rstrip("\x00")`. -/
def sbeText (payload : Bytes) (pos n : Nat) : String :=
  let chars := (wireField payload pos n).map (fun b => if b.toNat < 128 then Char.ofNat b.toNat else '\uFFFD')
  String.ofList (chars.reverse.dropWhile (fun c => c = Char.ofNat 0)).reverse

/-- The payload of a tick. -/
def unpackSbePayload (payload : Bytes) : SbeTickMessage where
  seq := leNat (wireField payload 0 8)
  exchangeTs := unpackDouble payload 8
  ingestTs := unpackDouble payload 16
  broadcastTs := unpackDouble payload 24
  price := unpackDouble payload 32
  size := unpackDouble payload 40
  bid := unpackDouble payload 48
  ask := unpackDouble payload 56
  bidSize := unpackDouble payload 64
  askSize := unpackDouble payload 72
  status :=
    let code := leNat (wireField payload 80 1)
    if code = 1 then "VALID" else if code = 2 then "SUSPICIOUS" else "INVALID"
  isCrossed := leNat (wireField payload 81 1) ≠ 0
  engineUs := unpackSingle payload 84
  symbol := sbeText payload 88 16
  source := sbeText payload 104 16

/-- `unpack_sbe_tick`, at the beginning of the bytes. -/
def unpackSbeTick (data : Bytes) : Option SbeTickMessage :=
  if data.length < 128 then none
  else if leNat (wireField data 2 2) ≠ templateTick then none
  else some (unpackSbePayload (data.drop 8))

end Mdrap
