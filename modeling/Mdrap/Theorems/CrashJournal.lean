import Mdrap.Lib.JsonText
import Mdrap.Storage.CrashJournal

/-!
# Recovery from the crash journal

All lines of a journal share one transaction. Where each of them can be written, the journal is empty afterwards and nothing is left
to do; where one cannot, nothing is written at all; and where a line is malformed, the journal stays and is recovered again with each
opening, which the Merkle log shows.
-/

namespace Mdrap

open Lib

variable {V : Type} (env : RecoveryEnv V)

/-! ## Statements -/

/-- A line with nothing on it. -/
def IsBlank (line : Bytes) : Prop := ∃ text, decodeUtf8 line = some text ∧ strip text = []

/-- A line with an entry. -/
def IsEntry (line : Bytes) (e : JournalEntry V) : Prop :=
  ∃ text, decodeUtf8 line = some text ∧ strip text ≠ [] ∧ readEntry env (strip text) = .ok e

/-- A line with an entry that its table takes. -/
def Recoverable (line : Bytes) : Prop := ∃ e row, IsEntry env line e ∧ storedRow env e = some row

/-- The id that the row for a malformed line has. -/
def IsCorruptId (lineIdx : Nat) (line : Bytes) (id : String) : Prop :=
  match decodeUtf8 line with
  | some text => id = corruptId env (strip text) lineIdx
  | none => ∃ digest, id = "corrupt_jrn_" ++ digest ++ "_" ++ toString lineIdx

/-- The quarantine has a row for a malformed line. -/
def HasMalformed (db : StoreDb V) (lineIdx : Nat) (line : Bytes) : Prop :=
  ∃ row ∈ db.rows .quarantine, (∃ id, IsCorruptId env lineIdx line id ∧ row[0]? = some (env.column .text (.text (pyText id)))) ∧
    row[4]? = some (env.column .text (.text (malformedReasons env)))

section Statements

variable [DecidableEq V]

/-- A table has a row, or one with the same id. -/
def HasRow (rows : List (List (SqlValue V))) (row : List (SqlValue V)) : Prop := row ∈ rows ∨ conflicts rows row = true

/-- Every line of the journal has come to the tables. -/
structure Accounted (db : StoreDb V) (journal : Bytes) : Prop where
  entries : ∀ line ∈ fileLines [] journal, ∀ e row, IsEntry env line e → storedRow env e = some row → HasRow (db.rows e.table) row
  malformed : ∀ lineIdx line, (fileLines [] journal)[lineIdx]? = some line → ¬IsBlank line → ¬Recoverable env line →
    HasMalformed env db lineIdx line

/-- Recovery is complete, and is not repeated. -/
structure Recovered (clock clock' : RecoveryClock V) (db : StoreDb V) (journal : Bytes) : Prop where
  accounted : Accounted env (openStore env clock db journal).1 journal
  emptied : (openStore env clock db journal).2 = [] → ∀ line ∈ fileLines [] journal, IsBlank line ∨ Recoverable env line
  again : (openStore env clock' (openStore env clock db journal).1 (openStore env clock db journal).2).1 =
    (openStore env clock db journal).1

end Statements

/-- Every line can be written. -/
def AllRecoverable (journal : Bytes) : Prop := ∀ line ∈ fileLines [] journal, IsBlank line ∨ Recoverable env line

/-- A line is no text, or has an entry that its table does not take. -/
def RecoveryFails (journal : Bytes) : Prop :=
  ∃ line ∈ fileLines [] journal, decodeUtf8 line = none ∨ ∃ e, IsEntry env line e ∧ storedRow env e = none

/-! ## Lines -/

variable {env}

theorem readLine_none {now : V} {lineIdx : Nat} {line : Bytes} : readLine env now lineIdx line = none ↔ decodeUtf8 line = none := by
  unfold readLine
  rcases decodeUtf8 line with _ | text
  · simp
  · dsimp only
    split
    · simp
    · split <;> simp

theorem readLine_entry {now : V} {lineIdx : Nat} {line : Bytes} {e : JournalEntry V} :
    readLine env now lineIdx line = some (.entry e) ↔ IsEntry env line e := by
  unfold readLine IsEntry
  rcases decodeUtf8 line with _ | text
  · simp
  · dsimp only
    split
    · rename_i hblank
      simp [hblank]
    · rename_i htext
      split
      · rename_i e' hentry
        simp [hentry, htext]
      · rename_i error hentry
        simp [hentry]

theorem readLine_blank {now : V} {lineIdx : Nat} {line : Bytes} :
    readLine env now lineIdx line = some .blank ↔ IsBlank line := by
  unfold readLine IsBlank
  rcases decodeUtf8 line with _ | text
  · simp
  · dsimp only
    split
    · rename_i hblank
      simp [hblank]
    · rename_i htext
      split <;> simp [htext]

/-- The results are those of the lines. -/
theorem readLines_some {clock : Nat → V} {lineIdx : Nat} {lines : List Bytes} {results : List (LineResult V)}
    (h : readLines env clock lineIdx lines = some results) :
    (∀ line ∈ lines, ∃ k, ∃ result ∈ results, readLine env (clock k) k line = some result) ∧
      ∀ result ∈ results, ∃ line ∈ lines, ∃ k, readLine env (clock k) k line = some result := by
  induction lines generalizing lineIdx results with
  | nil =>
    cases h
    exact ⟨fun _ hline => (nomatch hline), fun _ hresult => (nomatch hresult)⟩
  | cons line lines ih =>
    unfold readLines at h
    simp only [Option.bind_eq_bind, Option.bind_eq_some_iff, Option.pure_def, Option.some.injEq] at h
    obtain ⟨result, hresult, results', hresults, rfl⟩ := h
    obtain ⟨hto, hof⟩ := ih hresults
    constructor
    · intro line' hline'
      rcases List.mem_cons.mp hline' with rfl | hline'
      · exact ⟨lineIdx, result, List.mem_cons_self, hresult⟩
      · obtain ⟨k, result', hmem, hread⟩ := hto line' hline'
        exact ⟨k, result', List.mem_cons_of_mem _ hmem, hread⟩
    · intro result' hresult'
      rcases List.mem_cons.mp hresult' with rfl | hresult'
      · exact ⟨line, List.mem_cons_self, lineIdx, hresult⟩
      · obtain ⟨line', hmem, k, hread⟩ := hof result' hresult'
        exact ⟨line', List.mem_cons_of_mem _ hmem, k, hread⟩

theorem entry_mem_iff {clock : Nat → V} {lineIdx : Nat} {lines : List Bytes} {results : List (LineResult V)}
    (h : readLines env clock lineIdx lines = some results) {e : JournalEntry V} :
    .entry e ∈ results ↔ ∃ line ∈ lines, IsEntry env line e := by
  obtain ⟨hto, hof⟩ := readLines_some h
  constructor
  · intro he
    obtain ⟨line, hline, k, hread⟩ := hof _ he
    exact ⟨line, hline, readLine_entry.mp hread⟩
  · rintro ⟨line, hline, he⟩
    obtain ⟨k, result, hresult, hread⟩ := hto line hline
    rw [readLine_entry.mpr he] at hread
    cases hread
    exact hresult

theorem malformed_mem_iff {clock : Nat → V} {lineIdx : Nat} {lines : List Bytes} {results : List (LineResult V)}
    (h : readLines env clock lineIdx lines = some results) :
    (∃ row, .malformed row ∈ results) ↔ ∃ line ∈ lines, ¬IsBlank line ∧ ∀ e, ¬IsEntry env line e := by
  obtain ⟨hto, hof⟩ := readLines_some h
  constructor
  · rintro ⟨row, hrow⟩
    obtain ⟨line, hline, k, hread⟩ := hof _ hrow
    refine ⟨line, hline, ?_, ?_⟩
    · intro hblank
      rw [readLine_blank.mpr hblank] at hread
      cases hread
    · intro e he
      rw [readLine_entry.mpr he] at hread
      cases hread
  · rintro ⟨line, hline, hblank, hentry⟩
    obtain ⟨k, result, hresult, hread⟩ := hto line hline
    cases result with
    | blank => exact absurd (readLine_blank.mp hread) hblank
    | entry e => exact absurd (readLine_entry.mp hread) (hentry e)
    | malformed row => exact ⟨row, hresult⟩

theorem readLines_none {clock : Nat → V} {lineIdx : Nat} {lines : List Bytes} :
    readLines env clock lineIdx lines = none ↔ ∃ line ∈ lines, decodeUtf8 line = none := by
  induction lines generalizing lineIdx with
  | nil => simp [readLines]
  | cons line lines ih =>
    unfold readLines
    rcases hline : readLine env (clock lineIdx) lineIdx line with _ | result
    · simp [readLine_none.mp hline]
    · have hsome : decodeUtf8 line ≠ none := by
        intro hnone
        rw [readLine_none.mpr hnone] at hline
        cases hline
      rcases hlines : readLines env clock (lineIdx + 1) lines with _ | results
      · simpa [hsome] using ih.mp hlines
      · have hnot : ¬∃ line ∈ lines, decodeUtf8 line = none := by
          intro hex
          rw [ih.mpr hex] at hlines
          cases hlines
        simpa [hsome] using hnot

/-! ## Rows -/

theorem mapM_eq_none {α β : Type} {f : α → Option β} {l : List α} : l.mapM f = none ↔ ∃ a ∈ l, f a = none := by
  induction l with
  | nil => simp
  | cons a l ih =>
    rcases ha : f a with _ | b
    · simp [List.mapM_cons, ha]
    · rcases hl : l.mapM f with _ | bs
      · simpa [List.mapM_cons, ha, hl] using ih.mp hl
      · have hnot : ¬∃ a ∈ l, f a = none := by
          intro hex
          rw [ih.mpr hex] at hl
          cases hl
        simpa [List.mapM_cons, ha, hl] using hnot

theorem mem_of_mapM {α β : Type} {f : α → Option β} {l : List α} {bs : List β} (h : l.mapM f = some bs) {a : α} (ha : a ∈ l) {b : β}
    (hb : f a = some b) : b ∈ bs := by
  induction l generalizing bs with
  | nil => cases ha
  | cons a' l ih =>
    simp only [List.mapM_cons, Option.bind_eq_bind, Option.bind_eq_some_iff, Option.pure_def, Option.some.injEq] at h
    obtain ⟨b', hb', bs', hbs', rfl⟩ := h
    rcases List.mem_cons.mp ha with rfl | ha
    · rw [hb] at hb'
      cases hb'
      exact List.mem_cons_self
    · exact List.mem_cons_of_mem _ (ih hbs' ha)

theorem encodable_pyText (s : String) : encodable (pyText s) = true := by
  unfold encodable pyText
  rw [List.all_eq_true]
  intro n hn
  obtain ⟨c, -, rfl⟩ := List.mem_map.mp hn
  have hvalid : c.toNat.isValidChar := c.valid
  rcases hvalid with hlow | ⟨hhigh, -⟩
  · exact decide_eq_true (by omega)
  · exact decide_eq_true (by omega)

/-- The quarantine takes the row for a malformed line. -/
theorem storedRow_corrupt (now : V) (rawLine : List Char) (error : PyText) (lineIdx : Nat) :
    storedRow env ⟨.quarantine, corruptRow env now rawLine error lineIdx⟩ ≠ none := by
  simp [storedRow, corruptRow, malformedReasons, JournalTable.columns, bindValue, encodable_pyText]

/-- The row for a malformed line is taken. -/
theorem malformed_stored {clock : Nat → V} {lineIdx : Nat} {lines : List Bytes} {results : List (LineResult V)}
    (h : readLines env clock lineIdx lines = some results) {row : List (PyJson V)} (hrow : .malformed row ∈ results) :
    storedRow env ⟨.quarantine, row⟩ ≠ none := by
  obtain ⟨line, -, k, hread⟩ := (readLines_some h).2 _ hrow
  unfold readLine at hread
  split at hread
  · cases hread
  · dsimp only at hread
    split at hread
    · cases hread
    · split at hread
      · cases hread
      · cases hread
        exact storedRow_corrupt _ _ _ _

/-- The rows of the entries are among those for their table. -/
theorem mem_rowsFor {results : List (LineResult V)} {e : JournalEntry V} (h : .entry e ∈ results) : e ∈ rowsFor e.table results := by
  unfold rowsFor
  rw [List.mem_filterMap]
  exact ⟨.entry e, h, by simp⟩

/-- A row that is written is that of an entry or of a malformed line. -/
theorem of_mem_rowsFor {results : List (LineResult V)} {table : JournalTable} {e : JournalEntry V} (h : e ∈ rowsFor table results) :
    .entry e ∈ results ∨ ∃ row, .malformed row ∈ results ∧ e = ⟨.quarantine, row⟩ := by
  unfold rowsFor at h
  obtain ⟨result, hresult, hrow⟩ := List.mem_filterMap.mp h
  cases result with
  | blank => cases hrow
  | entry e' =>
    dsimp only at hrow
    split at hrow
    · cases hrow
      exact .inl hresult
    · cases hrow
  | malformed row =>
    dsimp only at hrow
    split at hrow
    · cases hrow
      exact .inr ⟨row, hresult, rfl⟩
    · cases hrow

theorem hasCorrupted_iff {results : List (LineResult V)} : hasCorrupted results = true ↔ ∃ row, .malformed row ∈ results := by
  unfold hasCorrupted
  rw [List.any_eq_true]
  constructor
  · rintro ⟨result, hresult, hmalformed⟩
    cases result with
    | blank => cases hmalformed
    | entry e => cases hmalformed
    | malformed row => exact ⟨row, hresult⟩
  · rintro ⟨row, hrow⟩
    exact ⟨_, hrow, rfl⟩

theorem rows_appendMerkle (now : V) (rows : List (List (PyJson V))) (db : StoreDb V) :
    (appendQuarantineMerkleBatch env now rows db).rows = db.rows := by
  unfold appendQuarantineMerkleBatch
  split <;> rfl

theorem length_appendMerkle (now : V) {rows : List (List (PyJson V))} (hrows : rows ≠ []) (db : StoreDb V) :
    (appendQuarantineMerkleBatch env now rows db).merkleLog.length = db.merkleLog.length + 1 := by
  unfold appendQuarantineMerkleBatch
  rw [if_neg (by simpa using hrows)]
  simp

section Tables

variable [DecidableEq V]

theorem HasRow.insertIgnore {rows : List (List (SqlValue V))} {row : List (SqlValue V)} (h : HasRow rows row)
    (row' : List (SqlValue V)) : HasRow (insertIgnore rows row') row := by
  unfold Mdrap.insertIgnore
  split
  · exact h
  · rcases h with hmem | hconflict
    · exact .inl (List.mem_append_left _ hmem)
    · right
      unfold conflicts at hconflict ⊢
      split at hconflict
      · cases hconflict
      · cases hconflict
      · rw [List.any_append, hconflict, Bool.true_or]

theorem hasRow_insertIgnore (rows : List (List (SqlValue V))) (row : List (SqlValue V)) : HasRow (insertIgnore rows row) row := by
  unfold Mdrap.insertIgnore
  split
  · rename_i hconflict
    exact .inr hconflict
  · exact .inl (List.mem_append_right _ (List.mem_singleton_self row))

theorem hasRow_foldl {new rows : List (List (SqlValue V))} {row : List (SqlValue V)} (h : row ∈ new ∨ HasRow rows row) :
    HasRow (new.foldl insertIgnore rows) row := by
  induction new generalizing rows with
  | nil =>
    rcases h with h | h
    · cases h
    · exact h
  | cons first new ih =>
    rw [List.foldl_cons]
    rcases h with h | h
    · rcases List.mem_cons.mp h with rfl | h
      · exact ih (.inr (hasRow_insertIgnore rows row))
      · exact ih (.inl h)
    · exact ih (.inr (h.insertIgnore first))

theorem insertMany_none {table : JournalTable} {entries : List (JournalEntry V)} {db : StoreDb V} :
    insertMany env table entries db = none ↔ ∃ e ∈ entries, storedRow env e = none := by
  unfold insertMany
  rw [← mapM_eq_none]
  rcases entries.mapM (storedRow env) with _ | rows
  · simp
  · simp

theorem insertMany_some {table : JournalTable} {entries : List (JournalEntry V)} {db db' : StoreDb V}
    (h : insertMany env table entries db = some db') :
    (∀ t row, HasRow (db.rows t) row → HasRow (db'.rows t) row) ∧
      (∀ e ∈ entries, ∀ row, storedRow env e = some row → HasRow (db'.rows table) row) ∧ db'.merkleLog = db.merkleLog := by
  unfold insertMany at h
  simp only [Option.bind_eq_bind, Option.bind_eq_some_iff, Option.pure_def, Option.some.injEq] at h
  obtain ⟨rows, hrows, rfl⟩ := h
  refine ⟨?_, ?_, rfl⟩
  · intro t row hrow
    dsimp only
    split
    · exact hasRow_foldl (.inr hrow)
    · exact hrow
  · intro e he row hrow
    dsimp only
    rw [if_pos rfl]
    exact hasRow_foldl (.inl (mem_of_mapM hrows he hrow))

theorem writeBatchesAtomic_none {now : V} {canonical quarantine lineage : List (JournalEntry V)} {db : StoreDb V} :
    writeBatchesAtomic env now canonical quarantine lineage db = none ↔
      ∃ e, (e ∈ canonical ∨ e ∈ quarantine ∨ e ∈ lineage) ∧ storedRow env e = none := by
  unfold writeBatchesAtomic
  rcases hcanonical : insertMany env .canonical canonical db with _ | db₁
  · obtain ⟨e, he, hnone⟩ := insertMany_none.mp hcanonical
    simpa using ⟨e, .inl he, hnone⟩
  · have hcanonical' : ∀ e ∈ canonical, storedRow env e ≠ none := by
      intro e he hnone
      rw [insertMany_none.mpr ⟨e, he, hnone⟩] at hcanonical
      cases hcanonical
    rcases hquarantine : insertMany env .quarantine quarantine db₁ with _ | db₂
    · obtain ⟨e, he, hnone⟩ := insertMany_none.mp hquarantine
      simpa [hquarantine] using ⟨e, .inr (.inl he), hnone⟩
    · have hquarantine' : ∀ e ∈ quarantine, storedRow env e ≠ none := by
        intro e he hnone
        rw [insertMany_none.mpr ⟨e, he, hnone⟩] at hquarantine
        cases hquarantine
      simp only [Option.bind_eq_bind, Option.bind_some, hquarantine, insertMany_none]
      constructor
      · rintro ⟨e, he, hnone⟩
        exact ⟨e, .inr (.inr he), hnone⟩
      · rintro ⟨e, he | he | he, hnone⟩
        · exact absurd hnone (hcanonical' e he)
        · exact absurd hnone (hquarantine' e he)
        · exact ⟨e, he, hnone⟩

/-- A transaction that commits has written every row, and one entry of the Merkle log for the rows of the quarantine. -/
theorem writeBatchesAtomic_some {now : V} {canonical quarantine lineage : List (JournalEntry V)} {db db' : StoreDb V}
    (h : writeBatchesAtomic env now canonical quarantine lineage db = some db') :
    (∀ e row, storedRow env e = some row →
      (e ∈ canonical → HasRow (db'.rows .canonical) row) ∧ (e ∈ quarantine → HasRow (db'.rows .quarantine) row) ∧
        (e ∈ lineage → HasRow (db'.rows .lineage) row)) ∧
      (quarantine ≠ [] → db'.merkleLog.length = db.merkleLog.length + 1) := by
  unfold writeBatchesAtomic at h
  simp only [Option.bind_eq_bind, Option.bind_eq_some_iff] at h
  obtain ⟨db₁, h₁, db₂, h₂, h₃⟩ := h
  obtain ⟨-, hnew₁, hlog₁⟩ := insertMany_some h₁
  obtain ⟨hold₂, hnew₂, hlog₂⟩ := insertMany_some h₂
  obtain ⟨hold₃, hnew₃, hlog₃⟩ := insertMany_some h₃
  rw [rows_appendMerkle] at hold₃
  constructor
  · intro e row hrow
    refine ⟨?_, ?_, ?_⟩
    · intro he
      exact hold₃ _ _ (hold₂ _ _ (hnew₁ e he row hrow))
    · intro he
      exact hold₃ _ _ (hnew₂ e he row hrow)
    · intro he
      exact hnew₃ e he row hrow
  · intro hne
    have hrows : quarantine.map (·.row) ≠ [] := fun hnil => hne (List.map_eq_nil_iff.mp hnil)
    rw [hlog₃, length_appendMerkle now hrows, hlog₂, hlog₁]

/-! ## Openings -/

/-- A line that cannot be written keeps all others from being written. -/
theorem openStore_fails {journal : Bytes} (h : RecoveryFails env journal) (clock : RecoveryClock V) (db : StoreDb V) :
    openStore env clock db journal = (db, journal) := by
  obtain ⟨line, hline, hbad⟩ := h
  unfold openStore
  split
  · rfl
  · unfold recoverFromJournal
    rcases hread : readLines env clock.line 0 (fileLines [] journal) with _ | results
    · rfl
    · have hdecoded : decodeUtf8 line ≠ none := by
        intro hnone
        rw [readLines_none.mpr ⟨line, hline, hnone⟩] at hread
        cases hread
      obtain ⟨e, he, hnone⟩ := hbad.resolve_left hdecoded
      have hmem : e ∈ rowsFor e.table results := mem_rowsFor ((entry_mem_iff hread).mpr ⟨line, hline, he⟩)
      have hwrite : writeBatchesAtomic env clock.merkle (rowsFor .canonical results) (rowsFor .quarantine results)
          (rowsFor .lineage results) db = none := by
        refine writeBatchesAtomic_none.mpr ⟨e, ?_, hnone⟩
        rcases htable : e.table with _ | _ | _
        all_goals rw [htable] at hmem
        · exact .inl hmem
        · exact .inr (.inl hmem)
        · exact .inr (.inr hmem)
      dsimp only
      rw [hwrite]

/-- Where every line can be written, all are. -/
theorem openStore_succeeds {journal : Bytes} (h : ¬RecoveryFails env journal) (hne : journal ≠ []) (clock : RecoveryClock V)
    (db : StoreDb V) :
    ∃ results db', readLines env clock.line 0 (fileLines [] journal) = some results ∧
      writeBatchesAtomic env clock.merkle (rowsFor .canonical results) (rowsFor .quarantine results) (rowsFor .lineage results) db =
        some db' ∧
      openStore env clock db journal = (db', if hasCorrupted results then journal else []) := by
  rcases hread : readLines env clock.line 0 (fileLines [] journal) with _ | results
  · obtain ⟨line, hline, hnone⟩ := readLines_none.mp hread
    exact absurd ⟨line, hline, .inl hnone⟩ h
  · rcases hwrite : writeBatchesAtomic env clock.merkle (rowsFor .canonical results) (rowsFor .quarantine results)
      (rowsFor .lineage results) db with _ | db'
    · obtain ⟨e, he, hnone⟩ := writeBatchesAtomic_none.mp hwrite
      have hrow : .entry e ∈ results ∨ ∃ row, .malformed row ∈ results ∧ e = ⟨.quarantine, row⟩ := by
        rcases he with he | he | he
        · exact of_mem_rowsFor he
        · exact of_mem_rowsFor he
        · exact of_mem_rowsFor he
      rcases hrow with hentry | ⟨row, hrow, rfl⟩
      · obtain ⟨line, hline, he⟩ := (entry_mem_iff hread).mp hentry
        exact absurd ⟨line, hline, .inr ⟨e, he, hnone⟩⟩ h
      · exact absurd hnone (malformed_stored hread hrow)
    · refine ⟨results, db', rfl, hwrite, ?_⟩
      unfold openStore recoverFromJournal
      rw [if_neg hne, hread]
      dsimp only
      rw [hwrite]

/-- The entries of a journal that is written are in their tables. -/
theorem entries_of_written {lines : List Bytes} {clock : Nat → V} {now : V} {results : List (LineResult V)} {db db' : StoreDb V}
    (hread : readLines env clock 0 lines = some results)
    (hwrite : writeBatchesAtomic env now (rowsFor .canonical results) (rowsFor .quarantine results) (rowsFor .lineage results) db =
      some db') :
    ∀ line ∈ lines, ∀ e row, IsEntry env line e → storedRow env e = some row → HasRow (db'.rows e.table) row := by
  intro line hline e row he hrow
  have hmem : e ∈ rowsFor e.table results := mem_rowsFor ((entry_mem_iff hread).mpr ⟨line, hline, he⟩)
  obtain ⟨hcanonical, hquarantine, hlineage⟩ := (writeBatchesAtomic_some hwrite).1 e row hrow
  rcases htable : e.table with _ | _ | _
  all_goals rw [htable] at hmem
  · exact hcanonical hmem
  · exact hquarantine hmem
  · exact hlineage hmem

/-- A journal with a malformed line is recovered once more with every opening. -/
theorem merkleLog_grows {journal : Bytes} (h : ¬RecoveryFails env journal)
    (hmalformed : ∃ line ∈ fileLines [] journal, ¬IsBlank line ∧ ∀ e, ¬IsEntry env line e) (clock : RecoveryClock V) (db : StoreDb V) :
    (openStore env clock db journal).2 = journal ∧
      (openStore env clock db journal).1.merkleLog.length = db.merkleLog.length + 1 := by
  have hne : journal ≠ [] := by
    rintro rfl
    obtain ⟨line, hline, -⟩ := hmalformed
    cases hline
  obtain ⟨results, db', hread, hwrite, hopen⟩ := openStore_succeeds h hne clock db
  obtain ⟨row, hrow⟩ := (malformed_mem_iff hread).mpr hmalformed
  have hquarantine : rowsFor .quarantine results ≠ [] := by
    have hmem : ⟨.quarantine, row⟩ ∈ rowsFor .quarantine results := by
      unfold rowsFor
      rw [List.mem_filterMap]
      exact ⟨.malformed row, hrow, rfl⟩
    exact List.ne_nil_of_mem hmem
  rw [hopen, if_pos (hasCorrupted_iff.mpr ⟨row, hrow⟩)]
  exact ⟨rfl, (writeBatchesAtomic_some hwrite).2 hquarantine⟩

theorem openStore_all {journal : Bytes} (h : AllRecoverable env journal) (clock : RecoveryClock V) (db : StoreDb V) :
    (∀ line ∈ fileLines [] journal, ∀ e row, IsEntry env line e → storedRow env e = some row →
      HasRow ((openStore env clock db journal).1.rows e.table) row) ∧ (openStore env clock db journal).2 = [] := by
  by_cases hne : journal = []
  · subst hne
    exact ⟨fun _ hline => (nomatch hline), rfl⟩
  · have hok : ¬RecoveryFails env journal := by
      rintro ⟨line, hline, hbad⟩
      rcases h line hline with ⟨text, htext, hblank⟩ | ⟨e, row, he, hrow⟩
      · rcases hbad with hnone | ⟨e, ⟨text', htext', hne', -⟩, -⟩
        · rw [htext] at hnone
          cases hnone
        · rw [htext] at htext'
          cases htext'
          exact hne' hblank
      · obtain ⟨text, htext, hne', hentry⟩ := he
        rcases hbad with hnone | ⟨e', ⟨text', htext', -, hentry'⟩, hnone⟩
        · rw [htext] at hnone
          cases hnone
        · rw [htext] at htext'
          cases htext'
          rw [hentry] at hentry'
          cases hentry'
          rw [hrow] at hnone
          cases hnone
    obtain ⟨results, db', hread, hwrite, hopen⟩ := openStore_succeeds hok hne clock db
    have hclean : hasCorrupted results = false := by
      rw [Bool.eq_false_iff]
      intro hcorrupted
      obtain ⟨line, hline, hblank, hentry⟩ := (malformed_mem_iff hread).mp (hasCorrupted_iff.mp hcorrupted)
      rcases h line hline with hb | ⟨e, row, he, -⟩
      · exact hblank hb
      · exact hentry e he
    rw [hopen, hclean]
    exact ⟨entries_of_written hread hwrite, rfl⟩

end Tables

/-- Recovery is complete and is not repeated exactly where every line can be written, or where nothing is written because a line
cannot be and the tables have everything already. -/
theorem recovery_iff [DecidableEq V] (env : RecoveryEnv V) (clock clock' : RecoveryClock V) (db : StoreDb V) (journal : Bytes) :
    Recovered env clock clock' db journal ↔ AllRecoverable env journal ∨ (RecoveryFails env journal ∧ Accounted env db journal) := by
  constructor
  · intro h
    by_cases hfails : RecoveryFails env journal
    · right
      have haccounted := h.accounted
      rw [openStore_fails hfails] at haccounted
      exact ⟨hfails, haccounted⟩
    · left
      intro line hline
      by_contra hbad
      rw [not_or] at hbad
      obtain ⟨hblank, hunrecoverable⟩ := hbad
      have hentry : ∀ e, ¬IsEntry env line e := by
        intro e he
        rcases hrow : storedRow env e with _ | row
        · exact hfails ⟨line, hline, .inr ⟨e, he, hrow⟩⟩
        · exact hunrecoverable ⟨e, row, he, hrow⟩
      obtain ⟨hjournal, -⟩ := merkleLog_grows hfails ⟨line, hline, hblank, hentry⟩ clock db
      have hagain := h.again
      rw [hjournal] at hagain
      obtain ⟨-, hgrows⟩ := merkleLog_grows hfails ⟨line, hline, hblank, hentry⟩ clock' (openStore env clock db journal).1
      rw [hagain] at hgrows
      exact absurd hgrows (Nat.ne_of_lt (Nat.lt_succ_self _))
  · rintro (hall | ⟨hfails, haccounted⟩)
    · obtain ⟨hentries, hempty⟩ := openStore_all hall clock db
      refine ⟨⟨hentries, ?_⟩, fun _ => hall, ?_⟩
      · intro lineIdx line hline hblank hunrecoverable
        rcases hall line (List.mem_of_getElem? hline) with h | h
        · exact absurd h hblank
        · exact absurd h hunrecoverable
      · rw [hempty]
        rfl
    · have hopen := openStore_fails hfails clock db
      have hne : journal ≠ [] := by
        rintro rfl
        obtain ⟨line, hline, -⟩ := hfails
        cases hline
      refine ⟨?_, ?_, ?_⟩
      · rw [hopen]
        exact haccounted
      · rw [hopen]
        intro hempty
        exact absurd hempty hne
      · rw [hopen, openStore_fails hfails]

mutual

/-- The value of Python for a JSON value. -/
def PyJson.ofJson : Json → PyJson Float64
  | .null => .null
  | .bool b => .bool b
  | .int n => .int n
  | .float x => .float x
  | .str s => .str (pyText s)
  | .arr xs => .arr (PyJson.ofItems xs)
  | .obj kvs => .obj (PyJson.ofMembers kvs)

def PyJson.ofItems : List Json → List (PyJson Float64)
  | [] => []
  | x :: xs => PyJson.ofJson x :: PyJson.ofItems xs

def PyJson.ofMembers : List (String × Json) → List (PyText × PyJson Float64)
  | [] => []
  | (k, v) :: kvs => (pyText k, PyJson.ofJson v) :: PyJson.ofMembers kvs

end

/-- Only `json.loads` matters to a journal of plain rows. -/
def plainEnv : RecoveryEnv Float64 where
  loads rawLine := match Json.ofText rawLine with
    | some j => .ok (PyJson.ofJson j)
    | none => .error ⟨"JSONDecodeError", "Expecting value: line 1 column 1 (char 0)"⟩
  dumps _ := ""
  str _ := []
  repr _ := []
  int _ := .error ⟨"ValueError", ""⟩
  float _ := none
  isFinite _ := true
  isNan x := x = .nan
  zero := .dec (Decimal.ofParts false 0 0)
  nanos _ := .ok 0
  sha256 b := b
  auditHash _ _ _ := ""
  column _ x := x

/-- A row of the quarantine. -/
def wholeLine : List Char := "\x7b\"type\":\"quarantine\",\"payload\":[\"q-1\",null,null,null,null,null,null]\x7d".toList

/-- A row of the quarantine with one value in place of seven. -/
def shortLine : List Char := "\x7b\"type\":\"quarantine\",\"payload\":[\"q-2\"]\x7d".toList

def twoLines : Bytes := encodeUtf8 wholeLine ++ 10 :: encodeUtf8 shortLine

theorem fileLines_twoLines : fileLines [] twoLines = [encodeUtf8 wholeLine, encodeUtf8 shortLine] := by decide +kernel

theorem wholeLine_entry : ∃ e row, readEntry plainEnv (strip wholeLine) = .ok e ∧ storedRow plainEnv e = some row := by
  have hrow : (match readEntry plainEnv (strip wholeLine) with
      | .ok e => (storedRow plainEnv e).isSome
      | .error _ => false) = true := by decide +kernel
  split at hrow
  · rename_i e he
    obtain ⟨row, hrow⟩ := Option.isSome_iff_exists.mp hrow
    exact ⟨e, row, he, hrow⟩
  · cases hrow

theorem shortLine_entry : ∃ e, readEntry plainEnv (strip shortLine) = .ok e ∧ storedRow plainEnv e = none := by
  have hrow : (match readEntry plainEnv (strip shortLine) with
      | .ok e => (storedRow plainEnv e).isNone
      | .error _ => false) = true := by decide +kernel
  split at hrow
  · rename_i e he
    exact ⟨e, he, Option.isNone_iff_eq_none.mp hrow⟩
  · cases hrow

/-- A clock that stands still. -/
def stillClock : RecoveryClock Float64 := ⟨fun _ => plainEnv.zero, plainEnv.zero⟩

/-- A row with too few values keeps the row before it from being recovered. -/
theorem recovery_false : ¬Recovered plainEnv stillClock stillClock ⟨fun _ => [], []⟩ twoLines := by
  intro h
  obtain ⟨e, row, hwhole, hrow⟩ := wholeLine_entry
  obtain ⟨e', hshort, hnone⟩ := shortLine_entry
  have hfails : RecoveryFails plainEnv twoLines := by
    refine ⟨encodeUtf8 shortLine, ?_, .inr ⟨e', ⟨shortLine, decodeUtf8_encodeUtf8 _, by decide +kernel, hshort⟩, hnone⟩⟩
    rw [fileLines_twoLines]
    exact List.mem_cons_of_mem _ List.mem_cons_self
  have hentry : IsEntry plainEnv (encodeUtf8 wholeLine) e := ⟨wholeLine, decodeUtf8_encodeUtf8 _, by decide +kernel, hwhole⟩
  have haccounted := h.accounted
  rw [openStore_fails hfails] at haccounted
  have hmem : encodeUtf8 wholeLine ∈ fileLines [] twoLines := by
    rw [fileLines_twoLines]
    exact List.mem_cons_self
  rcases haccounted.entries _ hmem e row hentry hrow with hmem | hconflict
  · cases hmem
  · unfold conflicts at hconflict
    split at hconflict
    · cases hconflict
    · cases hconflict
    · cases hconflict

end Mdrap
