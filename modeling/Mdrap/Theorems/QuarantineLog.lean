import Mdrap.Storage.Quarantine
import Mdrap.Theorems.MerkleProof

/-!
# What the log of quarantined batches proves

The hash of the last entry fixes the hash before it, the number of rows and the root. For one number of rows, the root fixes the rows,
although the last node of a level may be taken twice. A batch without rows leaves no entry, and neither does one that raises an
exception.
-/

namespace Mdrap

open Lib

namespace AuditEnv

variable {env : AuditEnv}

/-! ## Entries -/

/-- The batch leaves an entry. -/
def storesBatch (env : AuditEnv) (b : QuarantineBatch) : Bool :=
  !b.rows.isEmpty && Stamp.binds b.timestamp && env.realColumn b.timestamp.cell ≠ .null

/-- A timestamp as `json.dumps` takes it. -/
def stampJson : Stamp → Json
  | .int n => .int n
  | .float x => .float x

theorem isScalar_stampJson (s : Stamp) : (stampJson s).isScalar = true := by cases s <;> rfl

/-- The fields of an entry that are hashed. -/
def entryFields (env : AuditEnv) (prevRoot : String) (b : QuarantineBatch) : List Json :=
  [.int 2, .str prevRoot, stampJson b.timestamp, .str "system", .str "pipeline", .str "QUARANTINE_BATCH", .str (env.batchDetails b.rows)]

theorem isScalar_entryFields {prevRoot : String} {b : QuarantineBatch} : ∀ j ∈ env.entryFields prevRoot b, j.isScalar = true := by
  simp [entryFields, isScalar_stampJson]

/-- The bytes of an entry that are hashed. -/
def entryBytes (env : AuditEnv) (prevRoot : String) (b : QuarantineBatch) : Bytes :=
  encodeUtf8 ((Json.arr (env.entryFields prevRoot b)).text .ascii)

theorem entryHash_eq (prevRoot : String) (b : QuarantineBatch) :
    env.entryHash prevRoot b = .ok (env.hexdigest (env.entryBytes prevRoot b)) := by
  obtain ⟨rows, timestamp⟩ := b
  cases timestamp <;> rfl

theorem append_of_storesBatch {log : QuarantineLog} {b : QuarantineBatch} (h : env.storesBatch b = true) :
    (env.appendQuarantineMerkleBatchInTx log b).2.latest = env.hexdigest (env.entryBytes log.latest b) := by
  simp only [storesBatch, Bool.and_eq_true, Bool.not_eq_true', List.isEmpty_eq_false_iff, decide_eq_true_eq] at h
  rw [appendQuarantineMerkleBatchInTx, if_neg h.1.1, entryHash_eq]
  simp [h.1.2, h.2, QuarantineLog.latest]

theorem append_of_not_storesBatch {log : QuarantineLog} {b : QuarantineBatch} (h : env.storesBatch b = false) :
    (env.appendQuarantineMerkleBatchInTx log b).2 = log := by
  rw [appendQuarantineMerkleBatchInTx, entryHash_eq]
  split
  · rfl
  · rename_i hrows
    dsimp only
    split
    · rfl
    · rename_i hbinds
      split
      · rfl
      · rename_i hcolumn
        simp [storesBatch, hrows, hcolumn, Bool.not_eq_false] at h hbinds
        rw [h] at hbinds
        cases hbinds

/-- The hash of the last of some entries. -/
def headOf (env : AuditEnv) (batches : List QuarantineBatch) : String :=
  batches.foldl (fun head b => env.hexdigest (env.entryBytes head b)) GENESIS_HASH

theorem latest_merkleLog (batches : List QuarantineBatch) :
    (env.merkleLog batches).latest = env.headOf (batches.filter env.storesBatch) := by
  induction batches using List.reverseRecOn with
  | nil => rfl
  | append_singleton batches b ih =>
    rw [merkleLog, List.foldl_concat, List.filter_append, headOf, List.foldl_append]
    by_cases hb : env.storesBatch b = true
    · rw [append_of_storesBatch hb, List.filter_cons_of_pos hb]
      exact congrArg (fun head => env.hexdigest (env.entryBytes head b)) ih
    · rw [append_of_not_storesBatch (by simpa using hb), List.filter_cons_of_neg hb]
      exact ih

/-! ## Roots -/

/-- What is hashed for the rows of a batch. -/
def rowMessages (env : AuditEnv) (rows : List QuarantinedRow) : List Bytes :=
  rows.map rowBytes ++ summitMessages env.sha256 (· ++ ·) (rows.map (fun row => env.sha256 (rowBytes row)))

theorem rowBytes_injective : Function.Injective rowBytes := by
  intro row row' h
  have htext := encodeUtf8_injective h
  have hrow := isAscii_default.arr_inj (by simp +contextual) (by simp +contextual) htext
  exact List.map_injective_iff.mpr Subtype.val_injective hrow

/-- Of as many rows, the root fixes the rows. -/
theorem batchRoot_inj (hlength : ∀ b, (env.sha256 b).length = 32) {rows rows' : List QuarantinedRow} (hrows : rows ≠ [])
    (hlen : rows.length = rows'.length) (hfree : NoCollision env.sha256 (env.rowMessages rows ++ env.rowMessages rows'))
    (h : env.batchRoot rows = env.batchRoot rows') : rows = rows' := by
  have hrows' : rows' ≠ [] := by
    rintro rfl
    exact hrows (List.eq_nil_of_length_eq_zero hlen)
  have hsummit : ∀ rs : List QuarantinedRow, rs ≠ [] →
      ∃ root, summit (fun left right => env.sha256 (left ++ right)) (rs.map (fun row => env.sha256 (rowBytes row))) = some root := by
    intro rs hrs
    refine Option.ne_none_iff_exists'.mp (fun hnone => hrs ?_)
    exact List.map_eq_nil_iff.mp (summit_eq_none hnone)
  obtain ⟨root, hroot⟩ := hsummit rows hrows
  obtain ⟨root', hroot'⟩ := hsummit rows' hrows'
  simp only [batchRoot, computeMerkleRoot, hroot, hroot'] at h
  have htop := hroot.trans ((congrArg some (hexText_injective h)).trans hroot'.symm)
  have hpair : ∀ a b c d : Bytes, a.length = 32 → c.length = 32 → a ++ b = c ++ d → a = c ∧ b = d :=
    fun a b c d ha hc heq => List.append_inj heq (ha.trans hc.symm)
  have hdigests := summit_inj (P := fun d => d.length = 32) hlength hpair (by simpa using hlen) (by simp [hlength]) (by simp [hlength])
    (hfree.mono (by simp only [rowMessages]; grind)) htop
  refine map_inj_of_mem ?_ hdigests
  intro row hrow row' hrow' hsame
  refine rowBytes_injective (hfree _ ?_ _ ?_ hsame)
  · exact List.mem_append_left _ (List.mem_append_left _ (List.mem_map_of_mem hrow))
  · exact List.mem_append_right _ (List.mem_append_left _ (List.mem_map_of_mem hrow'))

/-- The details of an entry fix the number of its rows and their root. -/
theorem batchDetails_inj {rows rows' : List QuarantinedRow} (h : env.batchDetails rows = env.batchDetails rows') :
    rows.length = rows'.length ∧ env.batchRoot rows = env.batchRoot rows' := by
  have htext := String.ofList_injective h
  rw [List.append_assoc, List.append_assoc, List.append_assoc, List.append_assoc] at htext
  have hrest := List.append_cancel_left htext
  have hstops : ∀ r : List Char, Stops (",root=".toList ++ r) := fun r => stops_cons (.inl rfl) _
  have hread := parseNumber_intText (rows.length : Int) (hstops (env.batchRoot rows).toList)
  rw [hrest, parseNumber_intText (rows'.length : Int) (hstops _)] at hread
  simp only [Option.some.injEq, Prod.mk.injEq, Json.int.injEq, Nat.cast_inj] at hread
  exact ⟨hread.1.symm, (String.toList_injective (List.append_cancel_left hread.2)).symm⟩

/-! ## The chain -/

/-- What is hashed for batches that leave entries, after an entry with the given hash. -/
def entryMessages (env : AuditEnv) : String → List QuarantineBatch → List Bytes
  | _, [] => []
  | head, b :: batches =>
    env.entryBytes head b :: (env.rowMessages b.rows ++ entryMessages env (env.hexdigest (env.entryBytes head b)) batches)

/-- What is hashed for a log. -/
def logMessages (env : AuditEnv) (batches : List QuarantineBatch) : List Bytes :=
  env.entryMessages GENESIS_HASH (batches.filter env.storesBatch)

theorem entryMessages_concat (head : String) (batches : List QuarantineBatch) (b : QuarantineBatch) :
    env.entryMessages head (batches ++ [b]) =
      env.entryMessages head batches ++
        env.entryBytes (batches.foldl (fun head b => env.hexdigest (env.entryBytes head b)) head) b :: env.rowMessages b.rows := by
  induction batches generalizing head with
  | nil => simp [entryMessages]
  | cons c batches ih =>
    rw [List.cons_append, entryMessages, ih, entryMessages]
    simp

theorem genesis_ne_hexdigest (b : Bytes) : GENESIS_HASH ≠ env.hexdigest b := by
  intro h
  have hdigit : ∀ n < 16, n.digitChar ≠ 'G' := by decide
  have htext := congrArg String.toList h
  rw [hexdigest, hexText, String.toList_ofList] at htext
  rcases hdigest : env.sha256 b with _ | ⟨x, xs⟩
  · rw [hdigest] at htext
    exact absurd htext (by decide)
  · have hx := x.toNat_lt
    have hfirst := congrArg List.head? htext
    rw [hdigest] at hfirst
    have hG : GENESIS_HASH.toList.head? = some 'G' := by decide
    rw [hG] at hfirst
    simp only [List.flatMap_cons, List.cons_append, List.head?_cons, Option.some.injEq] at hfirst
    exact hdigit _ (by omega) hfirst.symm

/-- The hash of the last entry fixes the rows of all batches. -/
theorem headOf_inj (hlength : ∀ b, (env.sha256 b).length = 32) {batches batches' : List QuarantineBatch}
    (hrows : ∀ b ∈ batches, b.rows ≠ [])
    (hfree : NoCollision env.sha256 (env.entryMessages GENESIS_HASH batches ++ env.entryMessages GENESIS_HASH batches'))
    (h : env.headOf batches = env.headOf batches') : batches.map (·.rows) = batches'.map (·.rows) := by
  induction batches using List.reverseRecOn generalizing batches' with
  | nil =>
    rcases List.eq_nil_or_concat batches' with rfl | ⟨earlier', b', rfl⟩
    · rfl
    · rw [List.concat_eq_append, headOf, headOf, List.foldl_concat] at h
      exact absurd h (genesis_ne_hexdigest _)
  | append_singleton earlier b ih =>
    rcases List.eq_nil_or_concat batches' with rfl | ⟨earlier', b', rfl⟩
    · rw [headOf, headOf, List.foldl_concat] at h
      exact absurd h.symm (genesis_ne_hexdigest _)
    · rw [List.concat_eq_append] at h hfree ⊢
      rw [headOf, headOf, List.foldl_concat, List.foldl_concat] at h
      rw [entryMessages_concat, entryMessages_concat] at hfree
      have hbytes := hfree _ (by simp) _ (by simp) (hexText_injective h)
      have hfields := isAscii_ascii.arr_inj isScalar_entryFields isScalar_entryFields (encodeUtf8_injective hbytes)
      simp only [entryFields, List.cons.injEq, Json.str.injEq, true_and, and_true] at hfields
      obtain ⟨hhead, -, hdetails⟩ := hfields
      obtain ⟨hlen, hroot⟩ := batchDetails_inj hdetails
      have hlast := batchRoot_inj hlength (hrows b (by simp)) hlen (hfree.mono (by grind)) hroot
      have hearlier := ih (fun c hc => hrows c (by simp [hc])) (hfree.mono (by grind)) hhead
      rw [List.map_append, List.map_append, hearlier, List.map_singleton, List.map_singleton, hlast]

theorem rows_ne_nil_of_storesBatch {b : QuarantineBatch} (h : env.storesBatch b = true) : b.rows ≠ [] := by
  simp only [storesBatch, Bool.and_eq_true, Bool.not_eq_true', List.isEmpty_eq_false_iff] at h
  exact h.1.1

/-- A row of a quarantined event. -/
def oneRow : QuarantinedRow := [⟨.str "e1", rfl⟩, ⟨.null, rfl⟩, ⟨.int 7, rfl⟩]

/-- A batch of this row. -/
def oneRowBatch : QuarantineBatch := ⟨[oneRow], .int 5⟩

set_option maxRecDepth 20000 in
theorem storesBatch_oneRow : sqliteAudit.storesBatch oneRowBatch = true := by decide

theorem batchRoot_oneRow : sqliteAudit.batchRoot [oneRow] = hexText (Lib.sha256 (rowBytes oneRow)) := by
  simp [batchRoot, computeMerkleRoot, summit, sqliteAudit]

theorem batchDetails_oneRow :
    sqliteAudit.batchDetails [oneRow] =
      String.ofList ("n=".toList ++ intText 1 ++ ",root=".toList ++ (hexText (Lib.sha256 (rowBytes oneRow))).toList) := by
  rw [batchDetails, batchRoot_oneRow]
  generalize hexText (Lib.sha256 (rowBytes oneRow)) = root
  rfl

/-- The message of the entry of a batch of this row. -/
def oneRowEntry : Bytes :=
  encodeUtf8 ((Json.arr [.int 2, .str GENESIS_HASH, .int 5, .str "system", .str "pipeline", .str "QUARANTINE_BATCH",
    .str (String.ofList ("n=".toList ++ intText 1 ++ ",root=".toList ++ (hexText (Lib.sha256 (rowBytes oneRow))).toList))]).text .ascii)

theorem logMessages_oneRow (batches : List QuarantineBatch) (h : batches.filter sqliteAudit.storesBatch = [oneRowBatch]) :
    sqliteAudit.logMessages batches =
      [oneRowEntry, rowBytes oneRow] := by
  rw [logMessages, h, entryMessages, entryMessages, entryBytes, entryFields, oneRowBatch, batchDetails_oneRow]
  simp [rowMessages, summitMessages, stampJson, oneRowEntry]

set_option maxRecDepth 20000 in
theorem noCollision_oneRow {messages : List Bytes} (h : ∀ m ∈ messages, m = oneRowEntry ∨ m = rowBytes oneRow) :
    NoCollision sqliteAudit.sha256 messages := by
  have hne : sqliteAudit.sha256 oneRowEntry ≠ sqliteAudit.sha256 (rowBytes oneRow) := by decide
  intro m hm m' hm' heq
  rcases h m hm with rfl | rfl
  · rcases h m' hm' with rfl | rfl
    · rfl
    · exact absurd heq hne
  · rcases h m' hm' with rfl | rfl
    · exact absurd heq.symm hne
    · rfl

end AuditEnv

end Mdrap
