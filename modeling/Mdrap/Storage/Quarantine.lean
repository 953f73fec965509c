import Mdrap.Lib.Merkle
import Mdrap.Storage.Audit

/-!
# The log of quarantined batches

`Store` keeps for every batch of quarantined rows an entry with the root of a tree over the rows, chained to the entry before it. The
hash of an entry is that of the audit log. A row is a tuple of numbers, texts and nothing; texts are of Unicode characters, and
integers may have any number of digits. A transaction that raises an exception leaves no entry.
-/

namespace Mdrap

open Lib

/-- A row of the quarantine. -/
abbrev QuarantinedRow := List { j : Json // j.isScalar = true }

/-- A batch of rows, and the time it is given. -/
structure QuarantineBatch where
  rows : List QuarantinedRow
  timestamp : Stamp

/-- A row of `quarantine_merkle_log`. -/
structure QuarantineLogEntry where
  timestamp : AuditCell
  entryHash : String
  prevRoot : String
  batchRoot : String
  batchSize : Nat
  formatVersion : Int
  deriving DecidableEq

/-- The entries by their ids. -/
abbrev QuarantineLog := List QuarantineLogEntry

/-- The hash that an entry is chained to. -/
def QuarantineLog.latest (log : QuarantineLog) : String := (log.getLast?.map (·.entryHash)).getD GENESIS_HASH

/-- `json.dumps(row, default=str, sort_keys=True).encode("utf-8")`. -/
def rowBytes (row : QuarantinedRow) : Bytes := encodeUtf8 ((Json.arr (row.map (·.1))).text .default)

namespace AuditEnv

variable (env : AuditEnv)

/-- `_compute_merkle_root`. -/
def computeMerkleRoot (leafHashes : List Bytes) : String :=
  match summit (fun left right => env.sha256 (left ++ right)) leafHashes with
  | some root => hexText root
  | none => env.hexdigest (encodeUtf8 "EMPTY_BATCH".toList)

/-- The root of the rows of a batch. -/
def batchRoot (rows : List QuarantinedRow) : String := env.computeMerkleRoot (rows.map (fun row => env.sha256 (rowBytes row)))

/-- `details`. -/
def batchDetails (rows : List QuarantinedRow) : String :=
  String.ofList ("n=".toList ++ intText rows.length ++ ",root=".toList ++ (env.batchRoot rows).toList)

/-- The hash of the entry of a batch. -/
def entryHash (prevRoot : String) (b : QuarantineBatch) : Except PyError String :=
  env.computeAuditHash (.text prevRoot) b.timestamp.cell (.text "system") (.text "pipeline") (.text "QUARANTINE_BATCH")
    (.text (env.batchDetails b.rows)) (.int 3)

/-- `_append_quarantine_merkle_batch_in_tx`. -/
def appendQuarantineMerkleBatchInTx (log : QuarantineLog) (b : QuarantineBatch) : Except PyError (Option String) × QuarantineLog :=
  if b.rows = [] then (.ok none, log)
  else
    match env.entryHash log.latest b with
    | .error e => (.error e, log)
    | .ok hash =>
      if Stamp.binds b.timestamp = false then (.error ⟨"OverflowError", "Python int too large to convert to SQLite INTEGER"⟩, log)
      else if env.realColumn b.timestamp.cell = .null then
        (.error ⟨"IntegrityError", "NOT NULL constraint failed: quarantine_merkle_log.timestamp"⟩, log)
      else
        (.ok (some hash),
          log ++ [⟨env.realColumn b.timestamp.cell, hash, log.latest, env.batchRoot b.rows, b.rows.length, 3⟩])

/-- The log after batches, from an empty one. -/
def merkleLog (batches : List QuarantineBatch) : QuarantineLog :=
  batches.foldl (fun log b => (env.appendQuarantineMerkleBatchInTx log b).2) []

end AuditEnv

end Mdrap
