import Mathlib.Data.List.ReduceOption
import Mdrap.Storage.Columnar

/-!
# Copying the canonical events

A copy is complete where the ticks have every row of SQLite afterwards. An incremental one looks only at the rows from the largest
timestamp on that the ticks have: a row that came to SQLite after the copy before, but with an earlier timestamp, is left behind, and no
later incremental copy finds it. The other thing that can go wrong is an event that `ingest_events` was given: its row is never copied
again, and where the event has no reasons, or has floats that are no numbers, it is not the row that SQLite has.
-/

namespace Mdrap

open Lib

variable {T : Type} [LinearOrder T] [Zero T]

/-! ## Complete copies -/

/-- The ticks have the rows of SQLite, each id once, and are reported to be fresh. -/
structure CompleteCopy (sqlite : CanonicalEvents T) (ticks : CanonicalTicks T) : Prop where
  whole : ∀ r ∈ sqlite.rows, r.copied ∈ ticks.rows
  once : (ticks.rows.map TickRow.eventId).Nodup
  fresh : (ticks.freshness sqlite).isFresh = true

namespace ColumnarTables

/-- After each sync call of a run the ticks are a complete copy of what SQLite had when the call was made. -/
def SyncsComplete (s : ColumnarTables T) (calls : List (ColumnarCall T)) : Prop :=
  ∀ before incremental scan, before ++ [.sync incremental scan] <+: calls →
    CompleteCopy (runFrom step s before).sqlite (runFrom step s (before ++ [.sync incremental scan])).ticks

/-- An incremental call that goes by a timestamp finds all rows that are not there yet: where no timestamp of the ticks is missing a
number and some of them is positive, the row of each such event has a timestamp, and it is none before those of the ticks. -/
def NoneBehind (incremental : Bool) (s : ColumnarTables T) : Prop :=
  incremental = true → .nan ∉ s.ticks.timestamps → (∃ x, .num x ∈ s.ticks.timestamps ∧ 0 < x) →
    ∀ r ∈ s.sqlite.rows, r.eventId ∉ s.ticks.keys →
      ∃ y, r.exchangeTimestamp = some y ∧ ∀ x, .num x ∈ s.ticks.timestamps → x ≤ y

/-- A tick that has the id of a row of SQLite is a copy of it. -/
def SameRows (s : ColumnarTables T) : Prop := ∀ r ∈ s.sqlite.rows, ∀ t ∈ s.ticks.rows, t.eventId = r.eventId → t = r.copied

/-- A sync call finds what is not there yet, and what is there is the same. -/
def FindsAll (s : ColumnarTables T) : ColumnarCall T → Prop
  | .insert _ | .ingest _ => True
  | .sync incremental _ => NoneBehind incremental s ∧ SameRows s

end ColumnarTables

/-! ## The timestamp an incremental copy starts from -/

namespace PyFloat

omit [Zero T] in
@[simp] theorem duckMax_nan_left (y : PyFloat T) : duckMax .nan y = .nan := by cases y <;> rfl

omit [Zero T] in
@[simp] theorem duckMax_nan_right (x : PyFloat T) : duckMax x .nan = .nan := by cases x <;> rfl

omit [Zero T] in
/-- The largest of some floats is none of the numbers where one of them is not, and else their largest. -/
theorem foldl_duckMax (xs : List (PyFloat T)) (x : PyFloat T) :
    (.nan ∈ x :: xs ∧ xs.foldl duckMax x = .nan) ∨
      (.nan ∉ x :: xs ∧ ∃ m, xs.foldl duckMax x = .num m ∧ .num m ∈ x :: xs ∧ ∀ y, .num y ∈ x :: xs → y ≤ m) := by
  induction xs generalizing x with
  | nil =>
    cases x with
    | nan => exact .inl ⟨List.mem_cons_self, rfl⟩
    | num m =>
      refine .inr ⟨by simp, m, rfl, List.mem_cons_self, ?_⟩
      intro y hy
      simp only [List.mem_cons, num.injEq, List.not_mem_nil, or_false] at hy
      exact hy.le
  | cons y ys ih =>
    rw [List.foldl_cons]
    cases x with
    | nan =>
      rw [duckMax_nan_left]
      rcases ih .nan with ⟨-, hfold⟩ | ⟨hnot, -⟩
      · exact .inl ⟨List.mem_cons_self, hfold⟩
      · exact absurd List.mem_cons_self hnot
    | num a =>
      cases y with
      | nan =>
        rw [duckMax_nan_right]
        rcases ih .nan with ⟨-, hfold⟩ | ⟨hnot, -⟩
        · exact .inl ⟨by simp, hfold⟩
        · exact absurd List.mem_cons_self hnot
      | num b =>
        have hmax : duckMax (.num a) (.num b) = .num (max a b) := rfl
        rw [hmax]
        rcases ih (.num (max a b)) with ⟨hmem, hfold⟩ | ⟨hnot, m, hfold, hmem, hle⟩
        · exact .inl ⟨by simpa using hmem, hfold⟩
        · refine .inr ⟨by simpa using hnot, m, hfold, ?_, ?_⟩
          · rcases List.mem_cons.mp hmem with heq | hmem
            · obtain rfl := num.inj heq
              rcases max_choice a b with hab | hab <;> simp [hab]
            · exact List.mem_cons_of_mem _ (List.mem_cons_of_mem _ hmem)
          · have hab := hle _ List.mem_cons_self
            intro y hy
            rcases List.mem_cons.mp hy with heq | hy
            · exact (num.inj heq).le.trans ((le_max_left a b).trans hab)
            rcases List.mem_cons.mp hy with heq | hy
            · exact (num.inj heq).le.trans ((le_max_right a b).trans hab)
            · exact hle y (List.mem_cons_of_mem _ hy)

end PyFloat

namespace CanonicalTicks

variable {t : CanonicalTicks T}

theorem maxTimestamp_nan (h : .nan ∈ t.timestamps) : t.maxTimestamp = .nan := by
  unfold maxTimestamp
  cases hts : t.timestamps with
  | nil => rw [hts] at h; cases h
  | cons x xs =>
    rcases PyFloat.foldl_duckMax xs x with ⟨-, hfold⟩ | ⟨hnot, -⟩
    · exact hfold
    · exact absurd (hts ▸ h) hnot

theorem maxTimestamp_num (h : .nan ∉ t.timestamps) (hne : t.timestamps ≠ []) :
    ∃ m, t.maxTimestamp = .num m ∧ .num m ∈ t.timestamps ∧ ∀ y, .num y ∈ t.timestamps → y ≤ m := by
  unfold maxTimestamp
  cases hts : t.timestamps with
  | nil => exact absurd hts hne
  | cons x xs =>
    rcases PyFloat.foldl_duckMax xs x with ⟨hnan, -⟩ | ⟨-, hmax⟩
    · exact absurd (hts ▸ hnan) h
    · exact hmax

/-- A copy goes by a timestamp when it is incremental, all timestamps of the ticks are numbers, and the largest is positive. -/
theorem since_eq_some {incremental : Bool} {x : T} :
    t.since incremental = some x ↔ incremental = true ∧ .nan ∉ t.timestamps ∧ .num x ∈ t.timestamps ∧ 0 < x ∧
      ∀ y, .num y ∈ t.timestamps → y ≤ x := by
  unfold since
  cases incremental with
  | false => simp
  | true =>
    simp only [if_true, true_and]
    by_cases hnan : .nan ∈ t.timestamps
    · simp [maxTimestamp_nan hnan, hnan]
    by_cases hne : t.timestamps = []
    · have hzero : t.maxTimestamp = .num 0 := by simp [maxTimestamp, hne]
      simp [hzero, hne]
    obtain ⟨m, hm, hmem, hle⟩ := maxTimestamp_num hnan hne
    simp only [hm, Option.ite_none_right_eq_some, Option.some.injEq]
    constructor
    · rintro ⟨hpos, rfl⟩
      exact ⟨hnan, hmem, hpos, hle⟩
    · rintro ⟨-, hx, hpos, hbound⟩
      obtain rfl : m = x := le_antisymm (hbound m hmem) (hle x hx)
      exact ⟨hpos, rfl⟩

end CanonicalTicks

omit [Zero T] in
theorem mem_selectRows {since : Option T} {t : CanonicalEvents T} {r : TickRow T} :
    r ∈ selectRows since t ↔ r ∈ t.rows ∧ ∀ x, since = some x → ∃ y, r.exchangeTimestamp = some y ∧ x ≤ y := by
  cases since with
  | none => simp [selectRows]
  | some x => cases hr : r.exchangeTimestamp <;> simp [selectRows, hr]

namespace ColumnarTables

variable {s : ColumnarTables T}

theorem noneBehind_iff {incremental : Bool} :
    NoneBehind incremental s ↔
      ∀ r ∈ s.sqlite.rows, r.eventId ∉ s.ticks.keys → r ∈ selectRows (s.ticks.since incremental) s.sqlite := by
  constructor
  · intro h r hr hfree
    refine mem_selectRows.mpr ⟨hr, ?_⟩
    intro x hx
    obtain ⟨hinc, hnan, hmem, hpos, -⟩ := CanonicalTicks.since_eq_some.mp hx
    obtain ⟨y, hy, hle⟩ := h hinc hnan ⟨x, hmem, hpos⟩ r hr hfree
    exact ⟨y, hy, hle x hmem⟩
  · rintro h hinc hnan ⟨x, hx, hpos⟩ r hr hfree
    have hne : s.ticks.timestamps ≠ [] := List.ne_nil_of_mem hx
    obtain ⟨m, -, hmem, hle⟩ := CanonicalTicks.maxTimestamp_num hnan hne
    have hsince : s.ticks.since incremental = some m :=
      CanonicalTicks.since_eq_some.mpr ⟨hinc, hnan, hmem, hpos.trans_le (hle x hx), hle⟩
    obtain ⟨y, hy, hmy⟩ := (mem_selectRows.mp (h r hr hfree)).2 m hsince
    exact ⟨y, hy, fun z hz => (hle z hz).trans hmy⟩

end ColumnarTables

/-! ## One copy -/

namespace CanonicalTicks

variable {t : CanonicalTicks T}

/-- Both ways of asking insert the same rows. -/
theorem syncFromSqlite_eq (incremental : Bool) (scan : Scan) (sqlite : CanonicalEvents T) :
    (t.syncFromSqlite incremental scan sqlite).2 =
      t.insertAll ((selectRows (t.since incremental) sqlite).map TickRow.copied) := by
  cases scan with
  | attached => rfl
  | fallback =>
    simp only [syncFromSqlite]
    split
    · rename_i hnil
      rw [hnil]
      rfl
    · rfl

omit [Zero T] in
theorem nodup_selectRows (since : Option T) (sqlite : CanonicalEvents T) :
    (((selectRows since sqlite).map TickRow.copied).map TickRow.eventId).Nodup := by
  have hsub : ((selectRows since sqlite).map TickRow.eventId).Sublist (sqlite.rows.map TickRow.eventId) := by
    cases since with
    | none => exact List.Sublist.refl _
    | some x => exact List.filter_sublist.map _
  simpa [List.map_map, Function.comp_def] using hsub.nodup sqlite.distinct

theorem mem_syncFromSqlite {incremental : Bool} {scan : Scan} {sqlite : CanonicalEvents T} {x : TickRow (PyFloat T)} :
    x ∈ (t.syncFromSqlite incremental scan sqlite).2.rows ↔
      x ∈ t.rows ∨ ((∃ r ∈ selectRows (t.since incremental) sqlite, r.copied = x) ∧ x.eventId ∉ t.keys) := by
  rw [syncFromSqlite_eq, KeyedTable.mem_insertAll (nodup_selectRows _ _), List.mem_map]

end CanonicalTicks

/-- The ticks are fresh when they have all ids. -/
theorem fresh_of_whole {sqlite : CanonicalEvents T} {ticks : CanonicalTicks T} (h : ∀ r ∈ sqlite.rows, r.copied ∈ ticks.rows) :
    (ticks.freshness sqlite).isFresh = true := by
  have hle : sqlite.count ≤ ticks.count := by
    apply KeyedTable.count_le
    intro k hk
    obtain ⟨r, hr, rfl⟩ := KeyedTable.mem_keys.mp hk
    exact KeyedTable.mem_keys_of_mem (h r hr)
  exact decide_eq_true (Nat.sub_eq_zero_of_le hle)

/-- A copy is complete exactly when it finds what is not there yet, and what is there is the same. -/
theorem completeCopy_iff (s : ColumnarTables T) (incremental : Bool) (scan : Scan) :
    CompleteCopy s.sqlite (s.step (.sync incremental scan)).ticks ↔ s.FindsAll (.sync incremental scan) := by
  have hmem := fun x => @CanonicalTicks.mem_syncFromSqlite _ _ _ s.ticks incremental scan s.sqlite x
  constructor
  · rintro ⟨hwhole, -, -⟩
    refine ⟨ColumnarTables.noneBehind_iff.mpr ?_, ?_⟩
    · intro r hr hfree
      rcases (hmem _).mp (hwhole r hr) with hold | ⟨⟨r', hr', heq⟩, -⟩
      · exact absurd (KeyedTable.mem_keys_of_mem hold) hfree
      · have hkey : r'.eventId = r.eventId := by simpa using congrArg TickRow.eventId heq
        rwa [← s.sqlite.eq_of_key_eq (mem_selectRows.mp hr').1 hr hkey]
    · intro r hr t ht hkey
      exact (s.step (.sync incremental scan)).ticks.eq_of_key_eq ((hmem t).mpr (.inl ht)) (hwhole r hr) hkey
  · rintro ⟨hbehind, hsame⟩
    have hwhole : ∀ r ∈ s.sqlite.rows, r.copied ∈ (s.step (.sync incremental scan)).ticks.rows := by
      intro r hr
      apply (hmem _).mpr
      by_cases htaken : r.eventId ∈ s.ticks.keys
      · obtain ⟨t, ht, hkey⟩ := KeyedTable.mem_keys.mp htaken
        exact .inl (hsame r hr t ht hkey ▸ ht)
      · exact .inr ⟨⟨r, ColumnarTables.noneBehind_iff.mp hbehind r hr htaken, rfl⟩, htaken⟩
    exact ⟨hwhole, (s.step (.sync incremental scan)).ticks.distinct, fresh_of_whole hwhole⟩

/-! ## Runs -/

/-- Every sync call of a run is complete exactly when each of them finds what is not there yet, and what is there is the same. -/
theorem syncsComplete_iff (s : ColumnarTables T) (calls : List (ColumnarCall T)) :
    s.SyncsComplete calls ↔ Along ColumnarTables.step ColumnarTables.FindsAll s calls := by
  rw [Along.iff_forall]
  constructor
  · intro h before call hcall
    cases call with
    | insert events => trivial
    | ingest events => trivial
    | sync incremental scan =>
      refine (completeCopy_iff _ incremental scan).mp ?_
      have hcopy := h before incremental scan hcall
      rwa [runFrom_append] at hcopy
  · intro h before incremental scan hcall
    rw [runFrom_append]
    exact (completeCopy_iff _ incremental scan).mpr (h before _ hcall)

/-! ## Events of the store -/

namespace ColumnarEvent

/-- The floats of an event. -/
def floats (e : ColumnarEvent T) : List (PyFloat T) :=
  [e.exchangeTimestamp, e.receiveTimestamp, e.processingTimestamp] ++
    [e.price, e.quantity, e.bidPrice, e.bidSize, e.askPrice, e.askSize].reduceOption

omit [Zero T] in
/-- The row for the ticks is a copy of the row for SQLite exactly when the event has reasons and its floats are numbers. -/
theorem tickRow_eq_copied_iff (e : ColumnarEvent T) : e.tickRow = e.canonicalRow.copied ↔ e.reasons ≠ [] ∧ .nan ∉ e.floats := by
  have hfloat : ∀ x : PyFloat T, (some x = x.sqliteReal.map .num) ↔ x ≠ .nan := by
    intro x
    cases x <;> simp [PyFloat.sqliteReal]
  have hoption : ∀ x : Option (PyFloat T), (x = (x.bind PyFloat.sqliteReal).map .num) ↔ x ≠ some .nan := by
    intro x
    rcases x with _ | _ | x <;> simp [PyFloat.sqliteReal]
  have hreasons : e.reasonsOr "" = e.reasonsOr "[]" ↔ e.reasons ≠ [] := by
    by_cases h : e.reasons = [] <;> simp [reasonsOr, h]
  have hraw : (if e.rawId = "" then "" else e.rawId) = e.rawId := by
    split
    · rename_i h
      exact h.symm
    · rfl
  have hmem : .nan ∈ e.floats ↔ e.exchangeTimestamp = .nan ∨ e.receiveTimestamp = .nan ∨ e.processingTimestamp = .nan ∨
      e.price = some .nan ∨ e.quantity = some .nan ∨ e.bidPrice = some .nan ∨ e.bidSize = some .nan ∨
      e.askPrice = some .nan ∨ e.askSize = some .nan := by
    simp [floats, List.reduceOption_mem_iff, eq_comm]
  simp only [tickRow, canonicalRow, TickRow.copied, TickRow.mk.injEq, hfloat, hoption, hreasons, hraw, true_and, and_true, hmem, not_or]
  tauto

end ColumnarEvent

namespace ColumnarTables

/-- Events are ingested that SQLite has, with reasons, and without floats that are no numbers. -/
def IngestsCopies (s : ColumnarTables T) : ColumnarCall T → Prop
  | .ingest events => ∀ e ∈ events, e.canonicalRow ∈ s.sqlite.rows ∧ e.reasons ≠ [] ∧ .nan ∉ e.floats
  | .insert _ | .sync _ _ => True

/-- Every tick is a copy of a row of SQLite. -/
def AllCopies (s : ColumnarTables T) : Prop := ∀ t ∈ s.ticks.rows, ∃ r ∈ s.sqlite.rows, r.copied = t

omit [LinearOrder T] [Zero T] in
theorem AllCopies.sameRows {s : ColumnarTables T} (h : s.AllCopies) : s.SameRows := by
  intro r hr t ht hkey
  obtain ⟨r', hr', rfl⟩ := h t ht
  rw [s.sqlite.eq_of_key_eq hr' hr hkey]

theorem AllCopies.step {s : ColumnarTables T} {call : ColumnarCall T} (h : s.AllCopies) (hcall : s.IngestsCopies call) :
    (s.step call).AllCopies := by
  intro t ht
  cases call with
  | insert events =>
    obtain ⟨r, hr, hcopy⟩ := h t ht
    exact ⟨r, KeyedTable.mem_insertAll_of_mem _ hr, hcopy⟩
  | ingest events =>
    have ht : t ∈ (s.ticks.insertAll (events.map ColumnarEvent.tickRow)).rows := by
      simp only [ColumnarTables.step, CanonicalTicks.ingestEvents] at ht
      split at ht
      · exact KeyedTable.mem_insertAll_of_mem _ ht
      · exact ht
    rcases KeyedTable.of_mem_insertAll ht with hold | ⟨hnew, -⟩
    · exact h t hold
    · obtain ⟨e, he, rfl⟩ := List.mem_map.mp hnew
      obtain ⟨hstored, hcopies⟩ := hcall e he
      exact ⟨e.canonicalRow, hstored, (e.tickRow_eq_copied_iff.mpr hcopies).symm⟩
  | sync incremental scan =>
    rcases CanonicalTicks.mem_syncFromSqlite.mp ht with hold | ⟨⟨r, hr, hcopy⟩, -⟩
    · exact h t hold
    · exact ⟨r, (mem_selectRows.mp hr).1, hcopy⟩

/-- Where ingested events are copies, only rows behind the timestamp are in the way. -/
theorem syncsComplete_iff_of_ingestsCopies {calls : List (ColumnarCall T)} (h : Along step IngestsCopies .new calls) :
    SyncsComplete .new calls ↔
      ∀ before incremental scan, before ++ [.sync incremental scan] <+: calls → NoneBehind incremental (runFrom step .new before) := by
  rw [syncsComplete_iff, Along.iff_forall]
  constructor
  · intro hfinds before incremental scan hcall
    exact (hfinds before _ hcall).1
  · intro hnone before call hcall
    cases call with
    | insert events => trivial
    | ingest events => trivial
    | sync incremental scan =>
      have hcopies : (runFrom step .new before).AllCopies := by
        refine h.inv_prefix (fun s call hs hcall => hs.step hcall) ?_ ((List.prefix_append _ _).trans hcall)
        exact fun t ht => nomatch ht
      exact ⟨hnone before incremental scan hcall, hcopies.sameRows⟩

end ColumnarTables

/-! ## A row that is left behind -/

/-- A trade with an exchange timestamp. -/
def appleTrade (eventId : String) (timestamp : ℤ) : ColumnarEvent ℤ where
  eventId := eventId
  instrumentId := "AAPL"
  eventType := .trade
  exchangeTimestamp := .num timestamp
  receiveTimestamp := .num timestamp
  processingTimestamp := .num timestamp

/-- The second trade comes after the first copy, but it happened before. -/
def lateTrade : List (ColumnarCall ℤ) :=
  [.insert [appleTrade "e1" 100], .sync true .attached, .insert [appleTrade "e2" 50], .sync true .attached]

/-- The second copy leaves the second trade behind. -/
theorem syncsComplete_false :
    ¬ColumnarTables.SyncsComplete .new lateTrade ∧
      (CanonicalTicks.freshness (runFrom ColumnarTables.step .new lateTrade).sqlite
        (runFrom ColumnarTables.step .new lateTrade).ticks).isFresh = false := by
  have hfresh : (CanonicalTicks.freshness (runFrom ColumnarTables.step .new lateTrade).sqlite
      (runFrom ColumnarTables.step .new lateTrade).ticks).isFresh = false := by decide
  refine ⟨?_, hfresh⟩
  intro h
  have hcopy := h [.insert [appleTrade "e1" 100], .sync true .attached, .insert [appleTrade "e2" 50]] true .attached (List.prefix_refl _)
  have hsame := hcopy.fresh
  exact Bool.false_ne_true (hfresh.symm.trans hsame)

end Mdrap
