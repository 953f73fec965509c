import Mdrap.Lib.JsonText
import Mdrap.Lib.Ieee
import Mdrap.IngestLog.Frame

/-!
# Events and the records they are logged as

A raw event is loosely typed, as the feed delivered it: every field is a JSON value, and the wire image may be bytes. The log
writes a record, a JSON object, and reading the log makes an event of the record again.
-/

namespace Mdrap

open Lib

/-- Python's truth value of a JSON value. -/
def truthy : Json → Bool
  | .null => false
  | .bool b => b
  | .int n => n != 0
  | .float (.dec d) => d.mant != 0
  | .float _ => true
  | .str s => s != ""
  | .arr xs => !xs.isEmpty
  | .obj kvs => !kvs.isEmpty

/-- The wire image of an event. -/
inductive Wire where
  | bytes (b : Bytes)
  | json (j : Json)

/-- `RawEvent`. -/
structure RawEvent where
  source : Json
  payload : Json
  receiveTimestamp : Json
  rawId : Json
  wire : Wire
  sessionId : Json

/-- What `append` and `append_batch` take: an event, or a record given as a dictionary. -/
inductive RawInput where
  | event (e : RawEvent)
  | dict (record : List (String × Json))

/-! ## Hexadecimal text -/

/-- `bytes.hex`. -/
def hexText (b : Bytes) : String := String.ofList (b.flatMap (fun x => [(x.toNat / 16).digitChar, (x.toNat % 16).digitChar]))

/-- The blanks that `bytes.fromhex` skips. -/
def isAsciiSpace (c : Char) : Bool := c == ' ' || (9 ≤ c.toNat && c.toNat ≤ 13)

/-- `bytes.fromhex`: blanks may stand between two bytes, not within one. -/
def fromHexChars : List Char → Option Bytes
  | [] => some []
  | [c] => if isAsciiSpace c then some [] else none
  | a :: b :: r =>
    if isAsciiSpace a then fromHexChars (b :: r)
    else
      match hexVal a, hexVal b with
      | some x, some y => (fromHexChars r).map (UInt8.ofNat (x * 16 + y) :: ·)
      | _, _ => none

/-! ## Writing an event -/

/-- Give a key of a dictionary a value: in its place if the dictionary has it, at the end otherwise. -/
def setMember (k : String) (v : Json) (kvs : List (String × Json)) : List (String × Json) :=
  if kvs.any (fun kv => kv.1 == k) then kvs.map (fun kv => if kv.1 == k then (k, v) else kv) else kvs ++ [(k, v)]

/-- The time stamp an event is logged with: its own, or the current time where it has none. -/
def stampOr (j : Json) (now : UInt64) : Json := if truthy j then j else .float (Float64.ofBits now)

/-- The session of an event, where it has one. -/
def sessionMember (e : RawEvent) : List (String × Json) :=
  if truthy e.sessionId then [("session_id", e.sessionId)] else []

/-- The wire image of an event, where it has one: bytes in hexadecimal, a text as it is. -/
def wireMember (e : RawEvent) : List (String × Json) :=
  match e.wire with
  | .bytes b => if b = [] then [] else [("wire", .str (hexText b))]
  | .json (.str s) => if s = "" then [] else [("wire", .str s)]
  | .json _ => []

/-- A dictionary with a time stamp. -/
def stampDict (record : List (String × Json)) (now : UInt64) : List (String × Json) :=
  if truthy ((Json.obj record).get "receive_timestamp") then record
  else setMember "receive_timestamp" (.float (Float64.ofBits now)) record

/-- The record `append` writes. -/
def appendRecord (now : UInt64) : RawInput → List (String × Json)
  | .event e =>
    [("raw_id", e.rawId), ("source", e.source), ("payload", e.payload),
      ("receive_timestamp", stampOr e.receiveTimestamp now)] ++ sessionMember e ++ wireMember e
  | .dict record => stampDict record now

/-- The record `append_batch` writes: the same members in another order. -/
def batchRecord (now : UInt64) : RawInput → List (String × Json)
  | .event e =>
    [("source", e.source), ("payload", e.payload), ("receive_timestamp", stampOr e.receiveTimestamp now),
      ("raw_id", e.rawId)] ++ sessionMember e ++ wireMember e
  | .dict record => stampDict record now

/-- The payload of a frame for a record. -/
def recordBytes (record : List (String × Json)) : Bytes := (Json.obj record).dumps

/-! ## Reading an event -/

/-- The wire image of a record: a text is read as hexadecimal when the record has no payload. -/
def wireOf (rec : Json) : Wire :=
  match (rec.get? "wire").getD (.str "") with
  | .str s =>
    if s ≠ "" ∧ ¬truthy (rec.get "payload") then
      match fromHexChars s.toList with
      | some [] => .json (.str "")
      | some b => .bytes b
      | none => .json (.str s)
    else .json (.str s)
  | j => .json (if truthy j then j else .str "")

/-- The event of a record, as `iter_from` makes it. The time of the frame stands in for a missing time stamp. -/
def eventOfRecord (ts : UInt64) (rec : Json) : RawEvent where
  source := (rec.get? "source").getD (.str "")
  payload := if (rec.get "payload").isObj then rec.get "payload" else .obj []
  receiveTimestamp := stampOr (rec.get "receive_timestamp") ts
  rawId := rec.get "raw_id"
  wire := wireOf rec
  sessionId := rec.get "session_id"

/-- The event of a frame. A payload that is not a JSON object is passed over. -/
def decodeRecord (f : Frame) : Option RawEvent :=
  match Json.loads f.payload with
  | some (.obj kvs) => some (eventOfRecord f.ts (.obj kvs))
  | _ => none

/-- A logged record is read as the event of that record. -/
theorem decodeRecord_recordBytes (offset : Nat) (ts : UInt64) (record : List (String × Json)) :
    decodeRecord ⟨offset, ts, recordBytes record⟩ = some (eventOfRecord ts (.obj record)) := by
  simp [decodeRecord, recordBytes, Json.loads_dumps]

end Mdrap
