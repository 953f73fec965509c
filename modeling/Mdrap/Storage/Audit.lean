import Mdrap.Engine.Exact
import Mdrap.Lib.AsciiText

/-!
# The audit log

`Store` keeps a table of audit entries. Each row holds the hash of the row before it and a hash of its own, over that hash and over
its fields, in one of two formats. Three functions follow the chain again: `verify_audit_integrity` over the table, with an anchor
that was taken earlier or without one, and `verify_standalone_proof` over an exported copy of the rows.

SHA-256 and a few functions on numbers and on texts are left open. A column of SQLite changes what is put into it by its declared
type: a column of type REAL makes a floating-point number of an integer, keeps no sign of zero, since it stores a number without a
fraction as an integer, and holds nothing for what is not a number. Texts are of Unicode characters; SQLite takes no others. A file
of an exported copy is not modelled, and neither are the connection and its locks.
-/

namespace Mdrap

open Lib

/-! ## Values -/

/-- A value in a row, as Python reads it. -/
inductive AuditCell where
  | null
  | int (n : Int)
  | real (x : Float64)
  | text (s : String)
  | blob (b : Bytes)
  deriving DecidableEq

/-- What is left open: SHA-256; `float` of an integer of 64 bits, and of a text or of bytes; a number to six places; the number that
SQLite takes a text for, and the text it makes of a number. -/
structure AuditEnv where
  sha256 : Bytes → Bytes
  ofInt : Int → Float64
  parseFloat : AuditCell → Except PyError Float64
  fixed6 : Float64 → List Char
  numeric : String → Option Float64
  realText : Float64 → String

/-- An integer of 64 bits. -/
def isInt64 (n : Int) : Bool := -9223372036854775808 ≤ n ∧ n ≤ 9223372036854775807

/-- `repr` of bytes. -/
def bytesRepr (b : Bytes) : String :=
  let q : UInt8 := if b.contains 39 && !b.contains 34 then 34 else 39
  let esc (x : UInt8) : List Char :=
    if x = 92 ∨ x = q then ['\\', Char.ofNat x.toNat]
    else if x = 9 then ['\\', 't']
    else if x = 10 then ['\\', 'n']
    else if x = 13 then ['\\', 'r']
    else if x < 32 ∨ 127 ≤ x then ['\\', 'x', (x.toNat / 16).digitChar, (x.toNat % 16).digitChar]
    else [Char.ofNat x.toNat]
  String.ofList ('b' :: Char.ofNat q.toNat :: b.flatMap esc ++ [Char.ofNat q.toNat])

namespace AuditCell

/-- `str`. -/
def str : AuditCell → String
  | .null => "None"
  | .int n => String.ofList (intText n)
  | .real x => reprFloat x
  | .text s => s
  | .blob b => bytesRepr b

/-- The value as `json.dumps` takes it. -/
def json : AuditCell → Except PyError Json
  | .null => .ok .null
  | .int n => .ok (.int n)
  | .real x => .ok (.float x)
  | .text s => .ok (.str s)
  | .blob _ => .error ⟨"TypeError", "Object of type bytes is not JSON serializable"⟩

/-- `float`. -/
def toFloat (env : AuditEnv) : AuditCell → Except PyError Float64
  | .null => .error ⟨"TypeError", "float() argument must be a string or a real number, not 'NoneType'"⟩
  | .int n => .ok (env.ofInt n)
  | .real x => .ok x
  | v => env.parseFloat v

/-- Equal to the integer one. -/
def isOne : AuditCell → Bool
  | .int n => n = 1
  | .real x => x = .dec ⟨false, 1, 0, .inl (by decide)⟩
  | _ => false

/-- `v[:12]`, as a text. -/
def head12 : AuditCell → Except PyError String
  | .text s => .ok (String.ofList (s.toList.take 12))
  | .blob b => .ok (bytesRepr (b.take 12))
  | .null => .error ⟨"TypeError", "'NoneType' object is not subscriptable"⟩
  | .int _ => .error ⟨"TypeError", "'int' object is not subscriptable"⟩
  | .real _ => .error ⟨"TypeError", "'float' object is not subscriptable"⟩

end AuditCell

namespace AuditEnv

variable (env : AuditEnv)

theorem zero_normal : (0 : Nat) % 10 ≠ 0 ∨ (0 : Nat) = 0 ∧ (0 : Int) = 0 := .inr ⟨rfl, rfl⟩

/-- What a column of type REAL makes of a value. -/
def realColumn : AuditCell → AuditCell
  | .int n => .real (env.ofInt n)
  | .real .nan => .null
  | .real (.dec d) => .real (.dec (if d.mant = 0 then ⟨false, 0, 0, zero_normal⟩ else d))
  | .text s => (env.numeric s).elim (.text s) .real
  | v => v

/-- What a column of type TEXT makes of a value. -/
def textColumn : AuditCell → AuditCell
  | .int n => .text (String.ofList (intText n))
  | .real x => .text (env.realText x)
  | v => v

/-! ## Hashes -/

/-- `hashlib.sha256(data).hexdigest()`. -/
def hexdigest (data : Bytes) : String := hexText (env.sha256 data)

/-- A bar is escaped, a backslash is not. -/
def escapeBar (s : String) : List Char := s.toList.flatMap (fun c => if c = '|' then ['\\', '|'] else [c])

/-- `audit_bytes_v1`. -/
def auditBytesV1 (prevHash : AuditCell) (ts : Float64) (actor role action details : AuditCell) : Bytes :=
  encodeUtf8 (prevHash.str.toList ++ '|' :: env.fixed6 ts ++ '|' :: escapeBar actor.str ++ '|' :: escapeBar role.str ++
    '|' :: escapeBar action.str ++ '|' :: escapeBar details.str)

/-- `audit_bytes_v2`. -/
def auditBytesV2 (prevHash ts actor role action details : AuditCell) : Except PyError Bytes := do
  let ts ← ts.json
  return encodeUtf8 ((Json.arr [.int 2, .str prevHash.str, ts, .str actor.str, .str role.str, .str action.str, .str details.str]).text .ascii)

/-- `compute_audit_hash`. -/
def computeAuditHash (prevHash ts actor role action details formatVersion : AuditCell) : Except PyError String :=
  if formatVersion.isOne then do
    let ts ← ts.toFloat env
    return env.hexdigest (env.auditBytesV1 prevHash ts actor role action details)
  else do
    let data ← auditBytesV2 prevHash ts actor role action details
    return env.hexdigest data

end AuditEnv

/-! ## The table -/

/-- A row of `audit_log`. -/
structure AuditRow where
  entryId : Int
  timestamp : AuditCell
  actor : AuditCell
  role : AuditCell
  action : AuditCell
  details : AuditCell
  prevHash : AuditCell
  entryHash : AuditCell
  formatVersion : AuditCell
  deriving DecidableEq

/-- The rows by their ids. -/
abbrev AuditTable := List AuditRow

def GENESIS_HASH : String := "GENESIS_0000000000000000000000000000000000000000000000000000000000000000"

/-- A timestamp that a caller gives. -/
inductive Stamp where
  | int (n : Int)
  | float (x : Float64)
  deriving DecidableEq

def Stamp.cell : Stamp → AuditCell
  | .int n => .int n
  | .float x => .real x

/-- What `append_audit` is given; the timestamp is the current time where the caller gives none. -/
structure AuditCall where
  actor : String
  role : String
  action : String
  details : String
  timestamp : Stamp
  formatVersion : Int
  deriving DecidableEq

namespace AuditTable

/-- `get_latest_audit_hash`. -/
def getLatestAuditHash (t : AuditTable) : AuditCell := (t.getLast?.map (·.entryHash)).getD (.text GENESIS_HASH)

/-- `query_audit_log`: the newest rows first. -/
def queryAuditLog (t : AuditTable) (limit : Int) : List AuditRow := t.reverse.take (min (max 1 limit) 10000).toNat

/-- The id of the next row. -/
def nextId (t : AuditTable) : Int := (t.getLast?.map (·.entryId)).getD 0 + 1

/-- `get_audit_anchor`. -/
def getAuditAnchor (t : AuditTable) : Int × AuditCell := (t.length, t.getLatestAuditHash)

end AuditTable

namespace AuditEnv

variable (env : AuditEnv)

/-- SQLite takes integers of 64 bits. -/
def Stamp.binds : Stamp → Bool
  | .int n => isInt64 n
  | .float _ => true

/-- The row for a call, with its hash. -/
def rowOf (t : AuditTable) (c : AuditCall) : Except PyError (AuditRow × String) := do
  let prevHash := t.getLatestAuditHash
  let hash ← env.computeAuditHash prevHash c.timestamp.cell (.text c.actor) (.text c.role) (.text c.action) (.text c.details)
    (.int c.formatVersion)
  if Stamp.binds c.timestamp && isInt64 c.formatVersion then
    return (⟨t.nextId, env.realColumn c.timestamp.cell, env.textColumn (.text c.actor), env.textColumn (.text c.role),
      env.textColumn (.text c.action), env.textColumn (.text c.details), env.textColumn prevHash, env.textColumn (.text hash),
      .int c.formatVersion⟩, hash)
  else .error ⟨"OverflowError", "Python int too large to convert to SQLite INTEGER"⟩

/-- `append_audit`: a row, or an exception and no row. -/
def appendAudit (t : AuditTable) (c : AuditCall) : Except PyError String × AuditTable :=
  match env.rowOf t c with
  | .ok (row, hash) => (.ok hash, t ++ [row])
  | .error e => (.error e, t)

/-- `log_audit`, of a manager with a store. -/
def logAudit (t : AuditTable) (action actor role details : String) (timestamp : Stamp) : Except PyError String × AuditTable :=
  env.appendAudit t ⟨actor, role, action, details, timestamp, 2⟩

/-! ## Batches -/

/-- `hash_leaf`, as bytes. -/
def hashLeaf (data : String) : Bytes := env.sha256 (0 :: encodeUtf8 data.toList)

/-- `hash_node`, as bytes. -/
def hashNode (left right : Bytes) : Bytes := env.sha256 (1 :: left ++ right)

/-- The next level: pairs, and a single node as it is. -/
def nextLevel : List Bytes → List Bytes
  | left :: right :: rest => env.hashNode left right :: nextLevel rest
  | level => level

theorem length_nextLevel_le (level : List Bytes) : (env.nextLevel level).length ≤ level.length := by
  induction level using nextLevel.induct with
  | case1 left right rest ih =>
    simp only [nextLevel, List.length_cons]
    omega
  | case2 level h =>
    rw [nextLevel]
    intro left right rest hlevel
    exact h left right rest hlevel

/-- The levels up to the root. -/
def rootOf : List Bytes → Bytes
  | left :: right :: rest => rootOf (env.nextLevel (left :: right :: rest))
  | [root] => root
  | [] => env.sha256 []
termination_by level => level.length
decreasing_by
  have h := env.length_nextLevel_le rest
  simp only [nextLevel, List.length_cons]
  omega

/-- `MerkleAuditTree.compute_root`. -/
def computeRoot (leaves : List String) : String := hexText (env.rootOf (leaves.map env.hashLeaf))

/-- The hashes of rows as texts. -/
def entryHashes : List AuditRow → Except PyError (List String)
  | [] => .ok []
  | r :: rows =>
    match r.entryHash with
    | .text s => (entryHashes rows).map (s :: ·)
    | _ => .error ⟨"AttributeError", "object has no attribute 'encode'"⟩

/-- The leaves of a batch: the hashes of the newest rows, or the one an empty log begins with. -/
def batchLeaves (t : AuditTable) (batchSize : Int) : Except PyError (List String) :=
  match t.queryAuditLog batchSize with
  | [] => .ok [GENESIS_HASH]
  | rows => entryHashes rows

/-- `anchor_audit_batch`, at this time. -/
def anchorAuditBatch (t : AuditTable) (batchSize : Int) (now : Float64) : Except PyError String × AuditTable :=
  match batchLeaves t batchSize with
  | .error e => (.error e, t)
  | .ok leaves =>
    let root := env.computeRoot leaves
    let count := leaves.length
    match env.logAudit t "MERKLE_BATCH_ANCHOR" "security_subsystem" "ADMIN" s!"count={count} root={root}" (.float now) with
    | (.ok _, t) => (.ok root, t)
    | (.error e, t) => (.error e, t)

/-! ## Verification -/

/-- Follow the chain: the text and the id of the first row that does not fit, if there is one. -/
def followRows (linkName : String) : AuditCell → List AuditRow → Except PyError (Option (String × Int))
  | _, [] => .ok none
  | expected, r :: rows =>
    let id := r.entryId
    if r.prevHash ≠ expected then do
      let want ← expected.head12
      let got ← r.prevHash.head12
      return some (s!"Broken chain link at entry #{id}: expected {linkName} '{want}...', got '{got}...'", id)
    else do
      let recomputed ← env.computeAuditHash r.prevHash r.timestamp r.actor r.role r.action r.details
        (if r.formatVersion = .null then .int 1 else r.formatVersion)
      if .text recomputed ≠ r.entryHash then do
        let stored ← r.entryHash.head12
        let calculated := String.ofList (recomputed.toList.take 12)
        return some (s!"Tampered entry #{id}: hash mismatch (stored '{stored}...', calculated '{calculated}...')", id)
      else followRows linkName r.entryHash rows

/-- What a verification gives. -/
structure AuditReport where
  ok : Bool
  message : String
  entry : Int
  deriving DecidableEq

/-- The check of an anchor against the rows, before the chain is followed. -/
def anchorFault (rows : List AuditRow) (anchor : Int × AuditCell) : Except PyError (Option AuditReport) :=
  let (expectedCount, expectedHead) := anchor
  let got := rows.length
  if expectedCount < 0 then .ok (some ⟨false, "Invalid checkpoint: entry count cannot be negative", 0⟩)
  else if expectedCount = 0 ∧ expectedHead ≠ .text GENESIS_HASH then .ok (some ⟨false, "Checkpoint genesis hash mismatch", 0⟩)
  else if (rows.length : Int) < expectedCount then
    .ok (some ⟨false, s!"Tail truncation detected: expected {expectedCount} entries, got {got}", rows.length⟩)
  else
    match expectedCount.toNat with
    | 0 => .ok none
    | n + 1 =>
      match rows[n]? with
      | none => .ok none
      | some r =>
        if r.entryHash ≠ expectedHead then do
          let want ← expectedHead.head12
          let head ← r.entryHash.head12
          return some ⟨false,
            s!"Checkpoint prefix mismatch at entry #{expectedCount}: expected '{want}...', got '{head}...'", expectedCount⟩
        else .ok none

/-- The rows that are followed, and the hash before them. -/
def rowsSince (t : AuditTable) : Option Int → AuditCell × List AuditRow
  | some since =>
    if 1 < since then
      (((t.find? (fun r => r.entryId = since - 1)).map (·.entryHash)).getD (.text GENESIS_HASH), t.filter (fun r => since ≤ r.entryId))
    else (.text GENESIS_HASH, t)
  | none => (.text GENESIS_HASH, t)

/-- The anchor is looked at only where all rows are followed. -/
def anchorCheck (rows : List AuditRow) : Option (Int × AuditCell) → Option Int → Except PyError (Option AuditReport)
  | some anchor, none => anchorFault rows anchor
  | _, _ => .ok none

/-- The report of what following the rows has found. -/
def chainReport (rows : List AuditRow) (anchored : Bool) : Option (String × Int) → AuditReport
  | some (message, id) => ⟨false, message, id⟩
  | none =>
    let count := rows.length
    ⟨true,
      if anchored then s!"Anchored audit chain verified ({count} entries intact)"
      else s!"Unanchored audit chain integrity verified ({count} entries intact); historical authenticity is not established",
      (rows.getLast?.map (·.entryId)).getD 0⟩

/-- The chain, where the anchor is not at fault. -/
def reportRows (expectedPrev : AuditCell) (rows : List AuditRow) (anchored : Bool) : Option AuditReport → Except PyError AuditReport
  | some report => .ok report
  | none =>
    if rows = [] then .ok ⟨true, "Audit log is empty (valid)", 0⟩
    else (env.followRows "prev_hash" expectedPrev rows).map (chainReport rows anchored)

/-- `verify_audit_integrity`. -/
def verifyAuditIntegrity (t : AuditTable) (anchor : Option (Int × AuditCell)) (since : Option Int) : Except PyError AuditReport := do
  let fault ← anchorCheck (rowsSince t since).2 anchor since
  env.reportRows (rowsSince t since).1 (rowsSince t since).2 anchor.isSome fault

/-! ## Exported copies -/

/-- An exported copy. -/
structure AuditProof where
  genesisHash : AuditCell
  totalEntries : Option Int
  latestHash : Option AuditCell
  entries : List AuditRow

/-- `export_audit_proof`. -/
def exportAuditProof (t : AuditTable) : AuditProof where
  genesisHash := .text GENESIS_HASH
  totalEntries := some t.length
  latestHash := some t.getLatestAuditHash
  entries := t.map (fun r => { r with formatVersion := if r.formatVersion = .null then .int 1 else r.formatVersion })

/-- What a copy says of itself against its rows. -/
def declaredFault (p : AuditProof) : Option AuditReport :=
  let latest := (p.entries.getLast?.map (·.entryHash)).getD p.genesisHash
  let total := p.entries.length
  let calculated := latest.str
  match p.latestHash.filter (· ≠ latest), p.totalEntries.filter (· ≠ (p.entries.length : Int)) with
  | some declared, _ =>
    let stated := declared.str
    some ⟨false, s!"Latest hash mismatch: declared '{stated}', calculated '{calculated}'", 0⟩
  | none, some declared => some ⟨false, s!"Total entries mismatch: declared {declared}, actual {total}", 0⟩
  | none, none => none

/-- The anchor against the rows of a copy, which has at least one. -/
def proofAnchorFault (entries : List AuditRow) (last : AuditRow) (anchor : Int × AuditCell) : Except PyError (Option AuditReport) :=
  let (expectedCount, expectedHead) := anchor
  let got := entries.length
  if (entries.length : Int) ≠ expectedCount then
    .ok (some ⟨false, s!"Anchor count mismatch: expected {expectedCount}, got {got}", entries.length⟩)
  else if last.entryHash ≠ expectedHead then do
    let want ← expectedHead.head12
    let head ← last.entryHash.head12
    return some ⟨false, s!"Anchor head hash mismatch: expected '{want}...', got '{head}...'", entries.length⟩
  else .ok none

/-- The report of what following the rows of a copy has found. -/
def proofReport (entries : List AuditRow) : Option (String × Int) → AuditReport
  | some (message, id) => ⟨false, message, id⟩
  | none =>
    let count := entries.length
    ⟨true, s!"Independent cryptographic audit proof verified ({count} entries intact)", entries.length⟩

/-- The chain of a copy, where the anchor is not at fault. -/
def reportProof (p : AuditProof) : Option AuditReport → Except PyError AuditReport
  | some report => .ok report
  | none => (env.followRows "prev" p.genesisHash p.entries).map (proofReport p.entries)

/-- `verify_standalone_proof`. -/
def verifyStandaloneProof (p : AuditProof) (anchor : Option (Int × AuditCell)) : Except PyError AuditReport :=
  match declaredFault p with
  | some report => .ok report
  | none =>
    match p.entries.getLast? with
    | none =>
      if anchor.any (fun a => a.1 = 0) then .ok ⟨true, "Audit proof is empty (valid by anchor)", 0⟩
      else .ok ⟨false, "Audit proof is empty (invalid without confirmed anchor)", 0⟩
    | some last => do
      let fault ← anchor.elim (.ok none) (proofAnchorFault p.entries last)
      env.reportProof p fault

end AuditEnv

end Mdrap

/-!
## Inclusion proofs

`MerkleAuditTree` gives for a leaf of a batch the siblings on the way to the root, as texts with their sides, and checks such a proof
against a root. A digest between two hashes is kept as bytes, not as its text.
-/

namespace Mdrap

open Lib

namespace AuditEnv

variable (env : AuditEnv)

/-- What a level gives to the proof: the sibling of the node at the index, in the pair that begins at the second number. -/
def pairProof (idx : Nat) : Nat → List Bytes → List (String × String)
  | i, left :: right :: rest =>
    if i = idx then (hexText right, "R") :: pairProof idx (i + 2) rest
    else if i + 1 = idx then (hexText left, "L") :: pairProof idx (i + 2) rest
    else pairProof idx (i + 2) rest
  | _, _ => []

/-- The siblings of all levels. -/
def proofLevels (idx : Nat) : List Bytes → List (String × String)
  | left :: right :: rest =>
    pairProof idx 0 (left :: right :: rest) ++ proofLevels (idx / 2) (env.nextLevel (left :: right :: rest))
  | _ => []
termination_by level => level.length
decreasing_by
  have h := env.length_nextLevel_le rest
  simp only [nextLevel, List.length_cons]
  omega

/-- `generate_proof`. -/
def generateProof (leafDataList : List String) (leafIndex : Int) : Except PyError (List (String × String)) :=
  if 0 ≤ leafIndex ∧ leafIndex < leafDataList.length then .ok (env.proofLevels leafIndex.toNat (leafDataList.map env.hashLeaf))
  else .error ⟨"IndexError", s!"Leaf index out of bounds: {leafIndex}"⟩

/-- A digest with a sibling; a sibling that is no hexadecimal text raises an exception. -/
def proofStep (curr : Bytes) (e : String × String) : Option Bytes :=
  (fromHexChars e.1.toList).map (fun sibling => if e.2 = "R" then env.hashNode curr sibling else env.hashNode sibling curr)

/-- `verify_proof`, or nothing where it raises an exception: `compare_digest` takes ASCII texts only. -/
def verifyProof (leafData : String) (proof : List (String × String)) (expectedRoot : String) : Option Bool := do
  let curr ← proof.foldlM env.proofStep (env.hashLeaf leafData)
  if expectedRoot.toList.all (fun c => c.toNat < 128) then some (hexText curr = expectedRoot) else none

end AuditEnv

end Mdrap
