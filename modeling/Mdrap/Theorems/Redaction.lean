import Mathlib.Data.Bool.AllAny
import Mdrap.Lib.Runs
import Mdrap.Storage.Paths
import Mdrap.Theorems.CrashJournal

/-!
# Redaction in the quarantine

Four ways lead to the table of the quarantine, and only `write_quarantine_batch` redacts. The table holds no sensitive values as long
as the rows that come in the other ways have none.
-/

namespace Mdrap

open Lib

variable {V : Type}

/-- The value of a name in an object; the last one of the members of the name counts. -/
def PyJson.member (k : PyText) (kvs : List (PyText × PyJson V)) : Option (PyJson V) :=
  (kvs.reverse.find? (fun kv => kv.1 = k)).map (·.2)

/-! ## Runs -/

/-- What is done with a store. -/
inductive StoreOp (V : Type) where
  | writeQuarantineBatch (now : V) (rows : List (List (PyJson V))) (fault : Option Nat)
  | writeBatchesAtomic (now : V) (canonical : List (StoreEvent V)) (quarantine lineage : List (List (PyJson V))) (fault : Bool)
  | apply (now : V) (batch : List (StoreItem V)) (offset : Int) (fault : Option StoreStmt)
  | commit
  | reopen (clock : RecoveryClock V) (journal : Bytes)

/-- A store, and the rows for the quarantine it was given. -/
structure StoreRun (V : Type) where
  store : SqliteStore V
  given : List (List (PyJson V))

/-- A run on a new database. -/
def StoreRun.new : StoreRun V := ⟨.new, []⟩

namespace StoreEnv

variable (env : StoreEnv V)

/-- The rows for the quarantine that a journal holds, with those for malformed lines. -/
def journalRows (clock : RecoveryClock V) (journal : Bytes) : List (List (PyJson V)) :=
  ((readLines env.toRecoveryEnv clock.line 0 (fileLines [] journal)).map (rowsFor .quarantine)).elim [] (·.map (·.row))

/-- The rows for the quarantine that an operation brings. -/
def rowsOf : StoreOp V → List (List (PyJson V))
  | .writeQuarantineBatch _ rows _ => rows
  | .writeBatchesAtomic _ _ quarantine _ _ => quarantine
  | .apply _ batch _ _ => batch.flatMap env.quarantineRows
  | .commit => []
  | .reopen clock journal => env.journalRows clock journal

section Run

variable [DecidableEq V]

/-- An operation on the store. -/
def runOp (s : SqliteStore V) : StoreOp V → SqliteStore V
  | .writeQuarantineBatch now rows fault => env.writeQuarantineBatch now rows fault s
  | .writeBatchesAtomic now canonical quarantine lineage fault => env.writeBatches now canonical quarantine lineage fault s
  | .apply now batch offset fault => env.apply now batch offset fault s
  | .commit => s.commit
  | .reopen clock journal => env.reopen clock journal s

/-- One operation of a run. -/
def step (r : StoreRun V) (op : StoreOp V) : StoreRun V := ⟨env.runOp r.store op, r.given ++ env.rowsOf op⟩

end Run

/-! ## Statements -/

/-- A text that is a JSON object. -/
def IsObject (payload : PyText) (kvs : List (PyText × PyJson V)) : Prop :=
  encodable payload = true ∧ env.loadsText payload = .ok (.obj kvs)

/-- An object with its sensitive members redacted, and the others as they were. -/
def Redacts (kvs kvs' : List (PyText × PyJson V)) : Prop :=
  ∀ k, PyJson.member k kvs' = if env.isSensitive k then (PyJson.member k kvs).map (fun _ => redactedValue) else PyJson.member k kvs

/-- A stored row is that of a given row but for the payload; and a payload that is an object is stored redacted. -/
structure KeepsRow (row : List (PyJson V)) (stored : List (SqlValue V)) : Prop where
  others : ∃ payload, storedRow env.toRecoveryEnv ⟨.quarantine, row.set 5 payload⟩ = some stored
  payload : ∀ text kvs, row[5]? = some (.str text) → env.IsObject text kvs →
    ∃ text' kvs', stored[5]? = some (.text text') ∧ env.loadsText text' = .ok (.obj kvs') ∧ env.Redacts kvs kvs'

/-- Every row of the quarantine is that of a given one, with the payload redacted. -/
def RedactedIn (given : List (List (PyJson V))) (t : StoreTables V) : Prop :=
  ∀ stored ∈ t.db.rows .quarantine, ∃ row ∈ given, env.KeepsRow row stored

/-- What is committed and what the connection sees is redacted. -/
structure Redacted (r : StoreRun V) : Prop where
  saved : env.RedactedIn r.given r.store.saved
  current : env.RedactedIn r.given r.store.current

/-- No sensitive name of the payload object of a row has a value that is to be redacted. -/
def CleanPayload (row : List (PyJson V)) : Prop :=
  ∀ text kvs, row[5]? = some (.str text) → env.IsObject text kvs → ∀ k v, env.isSensitive k = true →
    PyJson.member k kvs = some v → v = redactedValue

/-- What is documented of `json`, of `str.lower` and of columns for texts. -/
structure Documented : Prop where
  columnText : ∀ s, env.column .text (.text s) = .text s
  lowerLower : ∀ s : String, (∀ c ∈ s.toList, c.isLower = true ∨ c = '_') → env.lower (pyText s) = pyText s
  loadsEmpty : ∀ x, env.loadsText [] ≠ .ok x
  loadsDumps : ∀ kvs kvs', env.loadsText (pyText (env.dumps (.obj kvs))) = .ok (.obj kvs') → kvs'.map (·.1) = kvs.map (·.1)
  dumpsLoads : ∀ payload kvs, env.IsObject payload kvs → ∃ text, env.dumpsText (.obj (env.redactMembers kvs)) = .ok text ∧
    env.loadsText text = .ok (.obj (env.redactMembers kvs))

/-- The rows for the quarantine that the caller has made. -/
def madeRows : StoreItem V → List (List (PyJson V))
  | .decision d => d.quarantineRow.toList
  | .row r => [r]
  | .canonical _ | .other => []

/-- A line of the journal is a row for the quarantine. -/
def InJournal (journal : Bytes) (row : List (PyJson V)) : Prop :=
  ∃ line ∈ fileLines [] journal, IsEntry env.toRecoveryEnv line ⟨.quarantine, row⟩

section Statements

variable [DecidableEq V]

/-- The rows that an insertion adds: those whose id is not there yet. -/
def added (table : List (List (SqlValue V))) : List (List (PyJson V)) → List (List (PyJson V))
  | [] => []
  | row :: rows =>
    match storedRow env.toRecoveryEnv ⟨.quarantine, row⟩ with
    | none => added table rows
    | some stored => if conflicts table stored then added table rows else row :: added (table ++ [stored]) rows

/-- The rows that an operation adds without redaction, of those it is given, have clean payloads. -/
def CleanOp (r : StoreRun V) : StoreOp V → Prop
  | .writeQuarantineBatch _ _ _ | .commit => True
  | .writeBatchesAtomic _ _ quarantine _ fault => r.store.inTransaction = false → fault = false →
    ∀ row ∈ env.added (r.store.current.db.rows .quarantine) quarantine, env.CleanPayload row
  | .apply _ batch _ fault => r.store.inTransaction = false → env.fails batch fault = false →
    ∀ row ∈ env.added (r.store.current.db.rows .quarantine) (batch.flatMap env.quarantineRows), row ∈ batch.flatMap madeRows →
      env.CleanPayload row
  | .reopen clock journal => ∀ row ∈ env.added (r.store.saved.db.rows .quarantine) (env.journalRows clock journal),
    env.InJournal journal row → env.CleanPayload row

end Statements

variable {env}

/-! ## Rows -/

theorem getElem?_mapM {α β : Type} {f : α → Option β} {l : List α} {bs : List β} (h : l.mapM f = some bs) (i : Nat) :
    bs[i]? = l[i]?.bind f := by
  induction l generalizing bs i with
  | nil =>
    cases h
    rfl
  | cons a l ih =>
    simp only [List.mapM_cons, Option.bind_eq_bind, Option.bind_eq_some_iff, Option.pure_def, Option.some.injEq] at h
    obtain ⟨b, hb, bs', hbs', rfl⟩ := h
    cases i with
    | zero => simp [hb]
    | succ i => simpa using ih hbs' i

theorem filterMap_of_mapM {α β : Type} {f : α → Option β} {l : List α} {bs : List β} (h : l.mapM f = some bs) : l.filterMap f = bs := by
  induction l generalizing bs with
  | nil =>
    cases h
    rfl
  | cons a l ih =>
    simp only [List.mapM_cons, Option.bind_eq_bind, Option.bind_eq_some_iff, Option.pure_def, Option.some.injEq] at h
    obtain ⟨b, hb, bs', hbs', rfl⟩ := h
    rw [List.filterMap_cons_some hb, ih hbs']

/-- A row of the quarantine has seven values. -/
theorem length_of_stored {row : List (PyJson V)} {stored : List (SqlValue V)}
    (h : storedRow env.toRecoveryEnv ⟨.quarantine, row⟩ = some stored) : row.length = 7 := by
  unfold storedRow at h
  split at h
  · assumption
  · cases h

/-- The payload is stored as the text that it is. -/
theorem stored_payload (hdoc : env.Documented) {row : List (PyJson V)} {stored : List (SqlValue V)} {text : PyText}
    (h : storedRow env.toRecoveryEnv ⟨.quarantine, row⟩ = some stored) (htext : row[5]? = some (.str text)) :
    stored[5]? = some (.text text) := by
  have hlength := length_of_stored h
  unfold storedRow at h
  rw [if_pos (by exact hlength), Option.map_eq_some_iff] at h
  obtain ⟨values, hvalues, rfl⟩ := h
  have hbound : bindValue env.toRecoveryEnv (.str text) ≠ none := by
    intro hnone
    have := mapM_eq_none.mpr ⟨_, List.mem_of_getElem? htext, hnone⟩
    rw [this] at hvalues
    cases hvalues
  have hvalue := getElem?_mapM hvalues 5
  rw [htext, Option.bind_some] at hvalue
  unfold bindValue at hbound hvalue
  dsimp only at hbound hvalue
  split at hvalue
  · rw [List.getElem?_zipWith, hvalue]
    simp [JournalTable.columns, hdoc.columnText]
  · rename_i hencodable
    exact absurd (if_neg hencodable) hbound

/-! ## Redaction -/

theorem member_mem {k : PyText} {kvs : List (PyText × PyJson V)} {v : PyJson V} (h : PyJson.member k kvs = some v) :
    k ∈ kvs.map (·.1) := by
  unfold PyJson.member at h
  obtain ⟨kv, hfind, -⟩ := Option.map_eq_some_iff.mp h
  have hname := List.find?_some hfind
  rw [decide_eq_true_eq] at hname
  exact List.mem_map.mpr ⟨kv, List.mem_reverse.mp (List.mem_of_find?_eq_some hfind), hname⟩

theorem redacts_redactMembers (kvs : List (PyText × PyJson V)) : env.Redacts kvs (env.redactMembers kvs) := by
  intro k
  unfold PyJson.member redactMembers
  rw [← List.map_reverse]
  induction kvs.reverse with
  | nil => simp
  | cons kv l ih =>
    obtain ⟨k', v⟩ := kv
    by_cases hk : k' = k
    · subst hk
      by_cases hs : env.isSensitive k' = true <;> simp [hs]
    · have hf : (if env.isSensitive k' = true then (k', redactedValue) else (k', v)).1 = k' := by split <;> rfl
      simpa [List.find?_cons, hf, hk] using ih

/-- Where nothing sensitive is left, nothing has to be redacted. -/
theorem redacts_self {kvs : List (PyText × PyJson V)}
    (h : ∀ k v, env.isSensitive k = true → PyJson.member k kvs = some v → v = redactedValue) : env.Redacts kvs kvs := by
  intro k
  split
  · rename_i hk
    rcases hmember : PyJson.member k kvs with _ | v
    · rfl
    · rw [h k v hk hmember, Option.map_some]
  · rfl

/-- An object is stored with its sensitive members redacted. -/
theorem redactPayloadStr_object (hdoc : env.Documented) {payload : PyText} {kvs : List (PyText × PyJson V)}
    (h : env.IsObject payload kvs) :
    ∃ kvs', env.loadsText (env.redactPayloadStr payload) = .ok (.obj kvs') ∧ env.Redacts kvs kvs' := by
  have hne : payload ≠ [] := by
    rintro rfl
    exact hdoc.loadsEmpty _ h.2
  unfold redactPayloadStr
  rw [if_neg hne, h.2]
  dsimp only
  split
  · obtain ⟨text, hdumps, hloads⟩ := hdoc.dumpsLoads payload kvs h
    rw [hdumps]
    exact ⟨_, hloads, redacts_redactMembers kvs⟩
  · rename_i hnone
    refine ⟨kvs, h.2, redacts_self ?_⟩
    intro k v hk hmember
    obtain ⟨kv, hkv, rfl⟩ := List.mem_map.mp (member_mem hmember)
    exact absurd (List.any_eq_true.mpr ⟨kv, hkv, hk⟩) hnone

/-- A row is redacted in its payload if it has seven values and that is a text, and otherwise stays. -/
theorem redactRow_cases (row : List (PyJson V)) :
    (∃ payload, row[5]? = some (.str payload) ∧ env.redactRow row = row.set 5 (.str (env.redactPayloadStr payload))) ∨
      (env.redactRow row = row ∧ (row.length = 7 → ∀ payload, row[5]? ≠ some (.str payload))) := by
  unfold redactRow
  split
  · rename_i a b c d e payload g
    exact .inl ⟨payload, rfl, rfl⟩
  · rename_i hother
    refine .inr ⟨rfl, fun hlength payload hpayload => ?_⟩
    rcases row with _ | ⟨a, _ | ⟨b, _ | ⟨c, _ | ⟨d, _ | ⟨e, _ | ⟨x, _ | ⟨g, _ | ⟨y, l⟩⟩⟩⟩⟩⟩⟩⟩ <;>
      simp only [List.length_nil, List.length_cons] at hlength <;> try omega
    obtain rfl : x = .str payload := by simpa using hpayload
    exact hother a b c d e payload g rfl

/-- A row that is written as it is has its own payload. -/
theorem set_payload {row : List (PyJson V)} {stored : List (SqlValue V)}
    (h : storedRow env.toRecoveryEnv ⟨.quarantine, row⟩ = some stored) :
    ∃ payload, storedRow env.toRecoveryEnv ⟨.quarantine, row.set 5 payload⟩ = some stored := by
  have hlength := length_of_stored h
  refine ⟨row[5], ?_⟩
  rw [List.set_getElem_self]
  exact h

/-- A row that is written with its payload redacted. -/
theorem KeepsRow.of_redactRow (hdoc : env.Documented) {row : List (PyJson V)} {stored : List (SqlValue V)}
    (h : storedRow env.toRecoveryEnv ⟨.quarantine, env.redactRow row⟩ = some stored) : env.KeepsRow row stored := by
  have hlength := length_of_stored h
  rcases @redactRow_cases _ env row with ⟨payload, hpayload, hredact⟩ | ⟨hredact, hnone⟩
  · rw [hredact] at h hlength
    rw [List.length_set] at hlength
    refine ⟨⟨_, h⟩, fun text kvs htext hobject => ?_⟩
    obtain rfl : payload = text := by simpa using hpayload.symm.trans htext
    obtain ⟨kvs', hloads, hredacts⟩ := redactPayloadStr_object hdoc hobject
    exact ⟨_, kvs', stored_payload hdoc h (List.getElem?_set_self (by omega)), hloads, hredacts⟩
  · rw [hredact] at h hlength
    exact ⟨set_payload h, fun text kvs htext _ => absurd htext (hnone hlength text)⟩

/-- A row that is written as it is, with a clean payload. -/
theorem KeepsRow.of_clean (hdoc : env.Documented) {row : List (PyJson V)} {stored : List (SqlValue V)}
    (h : storedRow env.toRecoveryEnv ⟨.quarantine, row⟩ = some stored) (hclean : env.CleanPayload row) : env.KeepsRow row stored := by
  refine ⟨set_payload h, fun text kvs htext hobject => ?_⟩
  exact ⟨text, kvs, stored_payload hdoc h htext, hobject.2, redacts_self (hclean text kvs htext hobject)⟩

/-! ## Rows that the program makes -/

theorem pyText_injective {s t : String} (h : pyText s = pyText t) : s = t := by
  have hchar : Function.Injective Char.toNat := fun a b hab => Char.ext (UInt32.toNat_inj.mp hab)
  exact String.toList_injective (hchar.list_map h)

/-- A name in lower-case letters that is not in the list is not sensitive. -/
theorem isSensitive_lower (hdoc : env.Documented) {s : String} (hlower : ∀ c ∈ s.toList, c.isLower = true ∨ c = '_')
    (hnot : s ∉ redactKeys) : env.isSensitive (pyText s) = false := by
  unfold isSensitive
  rw [List.any_eq_false]
  intro key hkey hsame
  rw [hdoc.lowerLower s hlower, decide_eq_true_eq] at hsame
  exact hnot (pyText_injective hsame ▸ hkey)

/-- A payload that `json.dumps` has written is clean if none of its names is sensitive. -/
theorem cleanPayload_dumps (hdoc : env.Documented) {row : List (PyJson V)} {kvs : List (PyText × PyJson V)}
    (hrow : row[5]? = some (.str (pyText (env.dumps (.obj kvs))))) (hnames : ∀ k ∈ kvs.map (·.1), env.isSensitive k = false) :
    env.CleanPayload row := by
  intro text kvs' htext hobject k v hk hmember
  obtain rfl : pyText (env.dumps (.obj kvs)) = text := by simpa using hrow.symm.trans htext
  have hmem := member_mem hmember
  rw [hdoc.loadsDumps kvs kvs' hobject.2] at hmem
  rw [hnames k hmem] at hk
  cases hk

theorem cleanPayload_invalidRow (hdoc : env.Documented) (e : StoreEvent V) : env.CleanPayload (env.invalidRow e) := by
  refine cleanPayload_dumps hdoc rfl fun k hk => ?_
  obtain rfl : k = pyText "raw_id" := by simpa using hk
  exact isSensitive_lower hdoc (List.all_iff_forall_prop.mp (by decide)) (by decide)

theorem cleanPayload_corruptRow (hdoc : env.Documented) (now : V) (rawLine : List Char) (error : PyText) (lineIdx : Nat) :
    env.CleanPayload (corruptRow env.toRecoveryEnv now rawLine error lineIdx) := by
  refine cleanPayload_dumps hdoc rfl fun k hk => ?_
  rcases (by simpa using hk : k = pyText "raw_line" ∨ k = pyText "error") with rfl | rfl
  · exact isSensitive_lower hdoc (List.all_iff_forall_prop.mp (by decide)) (by decide)
  · exact isSensitive_lower hdoc (List.all_iff_forall_prop.mp (by decide)) (by decide)

/-- A row of a batch that the caller has not made is one for an invalid event. -/
theorem clean_of_not_made (hdoc : env.Documented) {batch : List (StoreItem V)} {row : List (PyJson V)}
    (hrow : row ∈ batch.flatMap env.quarantineRows) (hclean : row ∈ batch.flatMap madeRows → env.CleanPayload row) :
    env.CleanPayload row := by
  obtain ⟨item, hitem, hrow⟩ := List.mem_flatMap.mp hrow
  have hmade : row ∈ madeRows item → env.CleanPayload row := fun h => hclean (List.mem_flatMap.mpr ⟨item, hitem, h⟩)
  cases item with
  | decision d => exact hmade (List.mem_filter.mp hrow).1
  | canonical e =>
    rw [quarantineRows] at hrow
    split at hrow
    · rw [List.mem_singleton.mp hrow]
      exact cleanPayload_invalidRow hdoc e
    · cases hrow
  | row r =>
    rw [quarantineRows] at hrow
    split at hrow
    · exact hmade hrow
    · cases hrow
  | other => cases hrow

/-! ## Tables -/

section Tables

variable [DecidableEq V]

theorem mem_of_added {table : List (List (SqlValue V))} {rows : List (List (PyJson V))} {row : List (PyJson V)}
    (h : row ∈ env.added table rows) : row ∈ rows := by
  induction rows generalizing table with
  | nil => cases h
  | cons row' rows ih =>
    unfold added at h
    split at h
    · exact List.mem_cons_of_mem _ (ih h)
    · split at h
      · exact List.mem_cons_of_mem _ (ih h)
      · rcases List.mem_cons.mp h with rfl | h
        · exact List.mem_cons_self
        · exact List.mem_cons_of_mem _ (ih h)

/-- What is in a table after an insertion was there before or is of a row that was added. -/
theorem mem_inserted {table : List (List (SqlValue V))} {rows : List (List (PyJson V))} {stored : List (SqlValue V)}
    (h : stored ∈ (rows.filterMap (fun r => storedRow env.toRecoveryEnv ⟨.quarantine, r⟩)).foldl insertIgnore table) :
    stored ∈ table ∨ ∃ row ∈ env.added table rows, storedRow env.toRecoveryEnv ⟨.quarantine, row⟩ = some stored := by
  induction rows generalizing table with
  | nil => exact .inl h
  | cons row rows ih =>
    unfold added
    rcases hrow : storedRow env.toRecoveryEnv ⟨.quarantine, row⟩ with _ | new
    · simp only [List.filterMap_cons, hrow] at h
      exact ih h
    · simp only [List.filterMap_cons, hrow, List.foldl_cons] at h
      unfold insertIgnore at h
      dsimp only
      split at h
      · rename_i hconflict
        rw [if_pos hconflict]
        exact ih h
      · rename_i hconflict
        rw [if_neg hconflict]
        rcases ih h with h | ⟨row', hrow', hstored⟩
        · rcases List.mem_append.mp h with h | h
          · exact .inl h
          · rw [List.mem_singleton.mp h]
            exact .inr ⟨row, List.mem_cons_self, hrow⟩
        · exact .inr ⟨row', List.mem_cons_of_mem _ hrow', hstored⟩

theorem insertMany_rows {env : RecoveryEnv V} {table : JournalTable} {entries : List (JournalEntry V)} {db db' : StoreDb V}
    (h : insertMany env table entries db = some db') (t : JournalTable) :
    db'.rows t = if t = table then (entries.filterMap (storedRow env)).foldl insertIgnore (db.rows t) else db.rows t := by
  unfold insertMany at h
  simp only [Option.bind_eq_bind, Option.bind_eq_some_iff, Option.pure_def, Option.some.injEq] at h
  obtain ⟨rows, hrows, rfl⟩ := h
  rw [filterMap_of_mapM hrows]

/-- The quarantine after `write_batches_atomic`. -/
theorem writeBatchesAtomic_rows {env : RecoveryEnv V} {now : V} {canonical quarantine lineage : List (JournalEntry V)}
    {db db' : StoreDb V} (h : writeBatchesAtomic env now canonical quarantine lineage db = some db') :
    db'.rows .quarantine = (quarantine.filterMap (storedRow env)).foldl insertIgnore (db.rows .quarantine) := by
  unfold writeBatchesAtomic at h
  simp only [Option.bind_eq_bind, Option.bind_eq_some_iff] at h
  obtain ⟨db₁, h₁, db₂, h₂, h₃⟩ := h
  simp [insertMany_rows h₃, rows_appendMerkle, insertMany_rows h₂, insertMany_rows h₁]

theorem applyBatch_rows {now : V} {batch : List (StoreItem V)} {offset : Int} {fault : Option StoreStmt} {t t' : StoreTables V}
    (h : env.applyBatch now batch offset fault t = some t') :
    env.fails batch fault = false ∧ t'.checkpoint = some offset ∧
      t'.db.rows .quarantine = ((entries .quarantine (batch.flatMap env.quarantineRows)).filterMap
        (storedRow env.toRecoveryEnv)).foldl insertIgnore (t.db.rows .quarantine) := by
  unfold applyBatch at h
  split at h
  · cases h
  · rename_i hfails
    simp only [Option.bind_eq_bind, Option.bind_eq_some_iff] at h
    obtain ⟨db₁, h₁, db₂, h₂, h₃⟩ := h
    split at h₃
    · cases h₃
      refine ⟨by simpa using hfails, rfl, ?_⟩
      simp [rows_appendMerkle, insertMany_rows h₂, insertMany_rows h₁]
    · cases h₃

omit [DecidableEq V] in
theorem filterMap_entries (rows : List (List (PyJson V))) :
    (entries .quarantine rows).filterMap (storedRow env.toRecoveryEnv) =
      rows.filterMap (fun r => storedRow env.toRecoveryEnv ⟨.quarantine, r⟩) := by
  rw [entries, List.filterMap_map]
  rfl

/-! ## Runs -/

omit [DecidableEq V] in
theorem RedactedIn.mono {given rows : List (List (PyJson V))} {t : StoreTables V} (h : env.RedactedIn given t) :
    env.RedactedIn (given ++ rows) t := by
  intro stored hstored
  obtain ⟨row, hrow, hkeeps⟩ := h stored hstored
  exact ⟨row, List.mem_append_left _ hrow, hkeeps⟩

/-- An insertion of rows with clean payloads. -/
theorem RedactedIn.insert (hdoc : env.Documented) {given rows : List (List (PyJson V))} {t t' : StoreTables V}
    (h : env.RedactedIn given t)
    (hrows : t'.db.rows .quarantine =
      (rows.filterMap (fun r => storedRow env.toRecoveryEnv ⟨.quarantine, r⟩)).foldl insertIgnore (t.db.rows .quarantine))
    (hclean : ∀ row ∈ env.added (t.db.rows .quarantine) rows, env.CleanPayload row) :
    env.RedactedIn (given ++ rows) t' := by
  intro stored hstored
  rw [hrows] at hstored
  rcases mem_inserted hstored with hold | ⟨row, hrow, hnew⟩
  · exact h.mono stored hold
  · exact ⟨row, List.mem_append_right _ (mem_of_added hrow), .of_clean hdoc hnew (hclean row hrow)⟩

/-- A transaction that inserts rows with clean payloads, or nothing. -/
theorem Redacted.transaction (hdoc : env.Documented) {r : StoreRun V} (h : env.Redacted r) {rows : List (List (PyJson V))}
    {body : StoreTables V → Option (StoreTables V)}
    (hbody : ∀ t', r.store.inTransaction = false → body r.store.current = some t' → t'.db.rows .quarantine =
      (rows.filterMap (fun row => storedRow env.toRecoveryEnv ⟨.quarantine, row⟩)).foldl insertIgnore
        (r.store.current.db.rows .quarantine) ∧
      ∀ row ∈ env.added (r.store.current.db.rows .quarantine) rows, env.CleanPayload row) :
    env.Redacted ⟨r.store.transaction body, r.given ++ rows⟩ := by
  unfold SqliteStore.transaction
  split
  · exact ⟨h.saved.mono, h.current.mono⟩
  · rename_i hidle
    split
    · exact ⟨h.saved.mono, h.current.mono⟩
    · rename_i t' ht'
      obtain ⟨hrows, hclean⟩ := hbody t' (by simpa using hidle) ht'
      exact ⟨h.current.insert hdoc hrows hclean, h.current.insert hdoc hrows hclean⟩

omit [DecidableEq V] in
/-- The rows of a journal. -/
theorem rowsFor_quarantine (results : List (LineResult V)) :
    rowsFor .quarantine results = entries .quarantine ((rowsFor .quarantine results).map (·.row)) := by
  unfold entries
  rw [List.map_map]
  refine (List.map_id _).symm.trans (List.map_congr_left fun e he => ?_)
  unfold rowsFor at he
  obtain ⟨result, -, hresult⟩ := List.mem_filterMap.mp he
  split at hresult
  · cases hresult
  · split at hresult
    · rename_i e' htable
      cases hresult
      simp [← htable]
    · cases hresult
  · cases hresult
    rfl

omit [DecidableEq V] in
/-- A row of a journal is that of an entry or clean. -/
theorem clean_journalRow (hdoc : env.Documented) {clock : RecoveryClock V} {journal : Bytes} {row : List (PyJson V)}
    (hrow : row ∈ env.journalRows clock journal) (hclean : env.InJournal journal row → env.CleanPayload row) :
    env.CleanPayload row := by
  unfold journalRows at hrow
  rcases hread : readLines env.toRecoveryEnv clock.line 0 (fileLines [] journal) with _ | results
  · rw [hread] at hrow
    cases hrow
  · rw [hread] at hrow
    obtain ⟨e, he, rfl⟩ := List.mem_map.mp hrow
    rcases of_mem_rowsFor he with hentry | ⟨row, hmalformed, rfl⟩
    · obtain ⟨line, hline, hentry⟩ := (entry_mem_iff hread).mp hentry
      have htable : e.table = .quarantine := by
        have := rowsFor_quarantine results
        rw [this] at he
        obtain ⟨row, -, rfl⟩ := List.mem_map.mp he
        rfl
      refine hclean ⟨line, hline, ?_⟩
      obtain ⟨table, row⟩ := e
      cases htable
      exact hentry
    · obtain ⟨line, -, k, hline⟩ := (readLines_some hread).2 _ hmalformed
      unfold readLine at hline
      split at hline
      · cases hline
      · dsimp only at hline
        split at hline
        · cases hline
        · split at hline
          · cases hline
          · cases hline
            exact cleanPayload_corruptRow hdoc _ _ _ _

/-- A store that is opened is as it was saved, or has the rows of the journal. -/
theorem openStore_cases (env : RecoveryEnv V) (clock : RecoveryClock V) (db : StoreDb V) (journal : Bytes) :
    (openStore env clock db journal).1 = db ∨
      ∃ results, readLines env clock.line 0 (fileLines [] journal) = some results ∧
        writeBatchesAtomic env clock.merkle (rowsFor .canonical results) (rowsFor .quarantine results) (rowsFor .lineage results) db =
          some (openStore env clock db journal).1 := by
  unfold openStore
  split
  · exact .inl rfl
  · unfold recoverFromJournal
    rcases hread : readLines env clock.line 0 (fileLines [] journal) with _ | results
    · exact .inl rfl
    · dsimp only
      rcases hwrite : writeBatchesAtomic env clock.merkle (rowsFor .canonical results) (rowsFor .quarantine results)
        (rowsFor .lineage results) db with _ | db'
      · exact .inl rfl
      · exact .inr ⟨results, rfl, hwrite⟩

/-- What `write_quarantine_batch` writes is redacted. -/
theorem RedactedIn.writeQuarantineBatch (hdoc : env.Documented) {given : List (List (PyJson V))} {s : SqliteStore V}
    (h : env.RedactedIn given s.current) (now : V) (rows : List (List (PyJson V))) (fault : Option Nat) :
    env.RedactedIn (given ++ rows) (env.writeQuarantineBatch now rows fault s).current := by
  unfold StoreEnv.writeQuarantineBatch
  split
  · exact h.mono
  · intro stored hstored
    have hmem : stored ∈ ((env.writtenRows fault (rows.map env.redactRow)).filterMap
        (fun r => storedRow env.toRecoveryEnv ⟨.quarantine, r⟩)).foldl insertIgnore (s.current.db.rows .quarantine) := by
      dsimp only at hstored
      split at hstored
      · simpa [rows_appendMerkle] using hstored
      · simpa using hstored
    rcases mem_inserted hmem with hold | ⟨row', hrow', hnew⟩
    · exact h.mono stored hold
    · have hwritten := (List.takeWhile_prefix _).subset (mem_of_added hrow')
      obtain ⟨row, hrow, rfl⟩ := List.mem_map.mp (List.mem_of_mem_take hwritten)
      exact ⟨row, List.mem_append_right _ hrow, .of_redactRow hdoc hnew⟩

/-- An operation keeps the table redacted if the rows it adds are. -/
theorem Redacted.step (hdoc : env.Documented) (r : StoreRun V) (op : StoreOp V) (h : env.Redacted r) (hop : env.CleanOp r op) :
    env.Redacted (env.step r op) := by
  cases op with
  | writeQuarantineBatch now rows fault =>
    refine ⟨?_, h.current.writeQuarantineBatch hdoc now rows fault⟩
    have hsaved : (env.writeQuarantineBatch now rows fault r.store).saved = r.store.saved := by
      unfold StoreEnv.writeQuarantineBatch
      split <;> rfl
    change env.RedactedIn (r.given ++ rows) (env.writeQuarantineBatch now rows fault r.store).saved
    rw [hsaved]
    exact h.saved.mono
  | writeBatchesAtomic now canonical quarantine lineage fault =>
    change env.Redacted ⟨env.writeBatches now canonical quarantine lineage fault r.store, r.given ++ quarantine⟩
    refine h.transaction hdoc fun t' hidle hbody => ?_
    split at hbody
    · cases hbody
    · rename_i hfault
      obtain ⟨db, hdb, rfl⟩ := Option.map_eq_some_iff.mp hbody
      refine ⟨?_, hop hidle (by simpa using hfault)⟩
      rw [← filterMap_entries]
      exact writeBatchesAtomic_rows hdb
  | apply now batch offset fault =>
    change env.Redacted ⟨env.apply now batch offset fault r.store, r.given ++ batch.flatMap env.quarantineRows⟩
    unfold StoreEnv.apply
    split
    · exact ⟨h.saved.mono, h.current.mono⟩
    · refine h.transaction hdoc fun t' hidle hbody => ?_
      obtain ⟨hfails, -, hrows⟩ := applyBatch_rows hbody
      rw [filterMap_entries] at hrows
      exact ⟨hrows, fun row hrow => clean_of_not_made hdoc (mem_of_added hrow) (hop hidle hfails row hrow)⟩
  | commit => exact ⟨h.current.mono, h.current.mono⟩
  | reopen clock journal =>
    have hopen : env.RedactedIn (r.given ++ env.journalRows clock journal) (env.reopen clock journal r.store).current := by
      rcases openStore_cases env.toRecoveryEnv clock r.store.saved.db journal with hsame | ⟨results, hread, hwrite⟩
      · have hsaved : env.RedactedIn (r.given ++ env.journalRows clock journal) r.store.saved := h.saved.mono
        intro stored hstored
        refine hsaved stored ?_
        rw [← hsame]
        exact hstored
      · refine h.saved.insert hdoc ?_ fun row hrow => clean_journalRow hdoc (mem_of_added hrow) (hop row hrow)
        have hrows := writeBatchesAtomic_rows hwrite
        rw [rowsFor_quarantine, filterMap_entries] at hrows
        change (openStore env.toRecoveryEnv clock r.store.saved.db journal).1.rows .quarantine = _
        rw [hrows]
        simp [journalRows, hread]
    exact ⟨hopen, hopen⟩

end Tables

/-- Wherever a run of the store on a new database is cut, each row of the quarantine is that of a given row with the sensitive members
of its payload object redacted, as long as the rows that are added in the other ways than `write_quarantine_batch` have clean payloads. -/
theorem quarantine_redacted [DecidableEq V] (env : StoreEnv V) (hdoc : env.Documented) (ops : List (StoreOp V))
    (hclean : Along env.step env.CleanOp .new ops) : ∀ run, run <+: ops → env.Redacted (runFrom env.step .new run) := by
  intro run hrun
  have hnew : env.Redacted StoreRun.new := ⟨fun _ h => (nomatch h), fun _ h => (nomatch h)⟩
  exact hclean.inv_prefix (Redacted.step hdoc) hnew hrun

/-! ## A password -/

/-- A payload with a password. -/
def passwordPayload : PyText := pyText "\x7b\"password\": 1\x7d"

/-- The same payload, redacted. -/
def redactedPayload : PyText := pyText "\x7b\"password\": \"[REDACTED]\"\x7d"

/-- A row with the redacted payload, as `json.dumps` writes it. -/
def dumpedRow : String :=
  "[\"q-1\", \"AAPL\", \"feed\", \"INVALID\", \"[]\", \"\x7b\\\"password\\\": \\\"[REDACTED]\\\"\x7d\", 1]"

/-- The two payloads can be read. -/
def passwordLoads (text : PyText) : Except PyError (PyJson Float64) :=
  if text = passwordPayload then .ok (.obj [(pyText "password", .int 1)])
  else if text = redactedPayload then .ok (.obj [(pyText "password", redactedValue)])
  else .error ⟨"JSONDecodeError", "Expecting value: line 1 column 1 (char 0)"⟩

/-- The second payload can be written, and so can a row with it. -/
def passwordEnv : StoreEnv Float64 where
  toRecoveryEnv := { plainEnv with dumps := fun _ => dumpedRow }
  loadsText := passwordLoads
  dumpsText _ := .ok redactedPayload
  lower text := text.map (fun n => if 65 ≤ n ∧ n ≤ 90 then n + 32 else n)

theorem loads_password : passwordEnv.loadsText passwordPayload = .ok (.obj [(pyText "password", .int 1)]) := by
  simp [passwordEnv, passwordLoads]

theorem loads_redacted : passwordEnv.loadsText redactedPayload = .ok (.obj [(pyText "password", redactedValue)]) := by
  have hne : redactedPayload ≠ passwordPayload := by decide
  simp [passwordEnv, passwordLoads, hne]

/-- No other text can be read. -/
theorem loads_other {text : PyText} (h : text ≠ passwordPayload) (h' : text ≠ redactedPayload) (x : PyJson Float64) :
    passwordEnv.loadsText text ≠ .ok x := by
  change passwordLoads _ ≠ _
  rw [passwordLoads, if_neg h, if_neg h']
  nofun

theorem passwordEnv_documented : passwordEnv.Documented where
  columnText _ := rfl
  lowerLower s hs := by
    refine (List.map_congr_left fun n hn => ?_).trans (List.map_id _)
    obtain ⟨c, hc, rfl⟩ := List.mem_map.mp hn
    refine if_neg fun hupper => ?_
    rcases hs c hc with hlower | rfl
    · change (decide ('a'.val ≤ c.val) && decide (c.val ≤ 'z'.val)) = true at hlower
      simp only [Bool.and_eq_true, decide_eq_true_eq, UInt32.le_iff_toNat_le] at hlower
      have hleast : 97 ≤ c.toNat := hlower.1
      omega
    · revert hupper
      decide
  loadsEmpty := loads_other (by decide) (by decide)
  loadsDumps kvs kvs' h := by
    have hother := @loads_other (pyText dumpedRow) (by decide) (by decide) (.obj kvs')
    exact absurd h hother
  dumpsLoads payload kvs h := by
    refine ⟨redactedPayload, rfl, ?_⟩
    have hloads := h.2
    have hmembers : passwordEnv.redactMembers kvs = [(pyText "password", redactedValue)] := by
      have hsensitive : passwordEnv.isSensitive (pyText "password") = true := by decide
      by_cases hraw : payload = passwordPayload
      · rw [hraw, loads_password] at hloads
        cases hloads
        simp [redactMembers, hsensitive]
      · by_cases hredacted : payload = redactedPayload
        · rw [hredacted, loads_redacted] at hloads
          cases hloads
          simp [redactMembers, hsensitive]
        · exact absurd hloads (loads_other hraw hredacted _)
    rw [hmembers]
    exact loads_redacted

/-- A row with a password. -/
def passwordRow : List (PyJson Float64) :=
  [.str (pyText "q-1"), .str (pyText "AAPL"), .str (pyText "feed"), .str (pyText "INVALID"), .str (pyText "[]"), .str passwordPayload,
    .int 1]

/-- A row with a password is written by `write_quarantine_batch`. -/
theorem quarantine_redacted_batch :
    passwordEnv.Redacted (runFrom passwordEnv.step .new [.writeQuarantineBatch plainEnv.zero [passwordRow] none, .commit]) :=
  have hclean : Along passwordEnv.step passwordEnv.CleanOp .new [.writeQuarantineBatch plainEnv.zero [passwordRow] none, .commit] :=
    ⟨trivial, trivial, trivial⟩
  quarantine_redacted passwordEnv passwordEnv_documented _ hclean _ List.prefix_rfl

/-- The same row is written by `write_batches_atomic`, with the password. -/
theorem quarantine_redacted_false :
    ¬passwordEnv.Redacted (runFrom passwordEnv.step .new [.writeBatchesAtomic plainEnv.zero [] [passwordRow] [] false]) := by
  intro h
  obtain ⟨row, hrow, hkeeps⟩ := h.current
    [.text (pyText "q-1"), .text (pyText "AAPL"), .text (pyText "feed"), .text (pyText "INVALID"), .text (pyText "[]"),
      .text passwordPayload, .int 1] (by decide)
  obtain rfl : row = passwordRow := List.mem_singleton.mp hrow
  obtain ⟨text, kvs, htext, hloads, hredacts⟩ := hkeeps.payload passwordPayload _ rfl ⟨by decide, loads_password⟩
  obtain rfl : passwordPayload = text := by simpa using htext
  rw [loads_password] at hloads
  cases hloads
  have hmember := hredacts (pyText "password")
  have hsensitive : passwordEnv.isSensitive (pyText "password") = true := by decide
  simp [hsensitive, PyJson.member, redactedValue] at hmember

end StoreEnv

end Mdrap
