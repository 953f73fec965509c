import Mdrap.Lemmas.Lifetime
import Mdrap.Lemmas.Submit
import Mdrap.Projection.Tracker

/-!
# What a call does to a projection that is up to date

The queue of the tracker is empty between two calls, and the tracker, the projection and its database agree on the last offset. The
batch of a call is then taken from the queue at once. Its rows are inserted where their ids are not taken by other rows.
-/

namespace Mdrap

open Lib

variable {V : Type} {P : Py V}

/-! ## Inserting rows -/

/-- `INSERT OR IGNORE` into a table: rows that are not admitted, or whose id is taken, are passed over. -/
def insertOrIgnore {R : Type} (bad : R → Bool) (id : R → String) (table : List R) (r : R) : List R :=
  if bad r ∨ table.any (fun x => id x == id r) then table else table ++ [r]

section InsertOrIgnore

variable {R : Type} {bad : R → Bool} {id : R → String}

theorem mem_insertAll_of_mem {r : R} (rows : List R) {table : List R} (h : r ∈ table) :
    r ∈ rows.foldl (insertOrIgnore bad id) table := by
  induction rows generalizing table with
  | nil => exact h
  | cons x rows ih =>
    rw [List.foldl_cons]
    refine ih ?_
    rw [insertOrIgnore]
    split
    · exact h
    · exact List.mem_append_left _ h

/-- Rows whose ids are their own in the table and among themselves get into it. -/
theorem mem_insertAll {rows table : List R} (hbad : ∀ r ∈ rows, bad r = false)
    (hown : ∀ r ∈ rows, ∀ x ∈ table ++ rows, id x = id r → x = r) : ∀ r ∈ rows, r ∈ rows.foldl (insertOrIgnore bad id) table := by
  induction rows generalizing table with
  | nil => exact fun r hr => nomatch hr
  | cons y rows ih =>
    have hy : y ∈ insertOrIgnore bad id table y := by
      rw [insertOrIgnore]
      split
      · rename_i htaken
        rcases htaken with htaken | htaken
        · rw [hbad y List.mem_cons_self] at htaken
          cases htaken
        · obtain ⟨x, hx, hid⟩ := List.any_eq_true.mp htaken
          have hxy := hown y List.mem_cons_self x (List.mem_append_left _ hx) (by simpa using hid)
          exact hxy ▸ hx
      · exact List.mem_append_right _ (by simp)
    have hsub : ∀ x ∈ insertOrIgnore bad id table y, x ∈ table ++ [y] := by
      intro x hx
      rw [insertOrIgnore] at hx
      split at hx
      · exact List.mem_append_left _ hx
      · exact hx
    intro r hr
    rw [List.foldl_cons]
    rcases List.mem_cons.mp hr with rfl | hr
    · exact mem_insertAll_of_mem rows hy
    · refine ih (fun r hr => hbad r (List.mem_cons_of_mem _ hr)) ?_ r hr
      intro r hr x hx hid
      refine hown r (List.mem_cons_of_mem _ hr) x ?_ hid
      rcases List.mem_append.mp hx with hx | hx
      · have := hsub x hx
        simp only [List.mem_append, List.mem_cons] at this ⊢
        tauto
      · exact List.mem_append_right _ (List.mem_cons_of_mem _ hx)

/-- Rows whose ids are all different are inserted one behind the other. -/
theorem insertAll_of_nodup {rows table : List R} (h : ((table ++ rows).map id).Nodup) :
    rows.foldl (insertOrIgnore bad id) table = table ++ rows.filter (fun r => !bad r) := by
  induction rows generalizing table with
  | nil => simp
  | cons r rows ih =>
    have hfree : table.any (fun x => id x == id r) = false := by
      rw [List.any_eq_false]
      intro x hx hid
      rw [List.map_append, List.nodup_append] at h
      exact h.2.2 (id x) (List.mem_map_of_mem hx) (id r) (List.mem_map_of_mem List.mem_cons_self) (by simpa using hid)
    rw [List.foldl_cons, insertOrIgnore, hfree]
    rcases hbad : bad r
    · rw [if_neg (by simp), ih (by simpa using h), List.filter_cons_of_pos (by simp [hbad])]
      simp
    · have hsub : (table ++ rows).Sublist (table ++ r :: rows) := (List.sublist_cons_self r rows).append_left table
      rw [if_pos (by simp), ih (h.sublist (hsub.map id)), List.filter_cons_of_neg (by simp [hbad])]

end InsertOrIgnore

namespace Database

/-- The rows of a batch are inserted. -/
def insertBatch (P : Py V) (db : Database V) (batch : List (BatchItem V)) : Database V :=
  (batch.flatMap (BatchItem.quarantineRows P)).foldl insertQuarantine
    ((batch.flatMap (BatchItem.canonicalRows P)).foldl (insertCanonical P) db)

theorem foldl_insertCanonical (rows : List (CanonicalRow V)) (db : Database V) :
    rows.foldl (insertCanonical P) db =
      { db with canonical := rows.foldl (insertOrIgnore (hasNull P) CanonicalRow.eventId) db.canonical } := by
  induction rows generalizing db with
  | nil => rfl
  | cons r rows ih =>
    rw [List.foldl_cons, ih, List.foldl_cons]
    simp only [insertCanonical, insertOrIgnore]
    split <;> rfl

theorem foldl_insertQuarantine (rows : List QuarantineRow) (db : Database V) :
    rows.foldl insertQuarantine db =
      { db with quarantine := rows.foldl (insertOrIgnore (fun _ => false) QuarantineRow.eventId) db.quarantine } := by
  induction rows generalizing db with
  | nil => rfl
  | cons r rows ih =>
    rw [List.foldl_cons, ih, List.foldl_cons]
    simp only [insertQuarantine, insertOrIgnore, Bool.false_eq_true, false_or]
    split <;> rfl

theorem insertBatch_eq (db : Database V) (batch : List (BatchItem V)) : db.insertBatch P batch =
    { db with
      canonical := (batch.flatMap (BatchItem.canonicalRows P)).foldl (insertOrIgnore (hasNull P) CanonicalRow.eventId) db.canonical
      quarantine := (batch.flatMap (BatchItem.quarantineRows P)).foldl (insertOrIgnore (fun _ => false) QuarantineRow.eventId)
        db.quarantine } := by
  rw [insertBatch, foldl_insertCanonical, foldl_insertQuarantine]

/-- No row of the batch is null where it must not be, and none has the id of another row of the batch or of the table. -/
structure Admits (P : Py V) (db : Database V) (batch : List (BatchItem V)) : Prop where
  notNull : ∀ r ∈ batch.flatMap (BatchItem.canonicalRows P), hasNull P r = false
  canonical : ∀ r ∈ batch.flatMap (BatchItem.canonicalRows P), ∀ x ∈ db.canonical ++ batch.flatMap (BatchItem.canonicalRows P),
    x.eventId = r.eventId → x = r
  quarantine : ∀ r ∈ batch.flatMap (BatchItem.quarantineRows P),
    ∀ x ∈ db.quarantine ++ batch.flatMap (BatchItem.quarantineRows P), x.eventId = r.eventId → x = r

theorem HasRow.insertBatch {db : Database V} {d : EngineDecision V} (h : db.HasRow P d) (batch : List (BatchItem V)) :
    (db.insertBatch P batch).HasRow P d := by
  rw [insertBatch_eq]
  rcases h with ⟨r, hr, hmem⟩ | ⟨r, hr, hmem⟩
  · exact .inl ⟨r, hr, mem_insertAll_of_mem _ hmem⟩
  · exact .inr ⟨r, hr, mem_insertAll_of_mem _ hmem⟩

theorem Admits.hasRow {db : Database V} {batch : List (BatchItem V)} (h : db.Admits P batch) {d : EngineDecision V}
    (hd : .decision d ∈ batch) (hfiled : d.Filed) : (db.insertBatch P batch).HasRow P d := by
  rw [insertBatch_eq]
  rcases hfiled with hrow | ⟨hstatus, hevent⟩
  · obtain ⟨r, hr⟩ := Option.isSome_iff_exists.mp hrow
    have hmem : r ∈ (BatchItem.decision d).quarantineRows P := by simp [BatchItem.quarantineRows, hr]
    refine .inr ⟨r, hmem, mem_insertAll (fun _ _ => rfl) h.quarantine r ?_⟩
    exact List.mem_flatMap.mpr ⟨_, hd, hmem⟩
  · obtain ⟨e, he⟩ := Option.isSome_iff_exists.mp hevent
    have hmem : BatchItem.canonicalRow P e ∈ (BatchItem.decision d).canonicalRows P := by
      simp [BatchItem.canonicalRows, hstatus, he]
    refine .inl ⟨_, hmem, mem_insertAll h.notNull h.canonical _ ?_⟩
    exact List.mem_flatMap.mpr ⟨_, hd, hmem⟩

end Database

theorem writeRows_none {R : Type} (rows : List R) (insert : Database V → R → Database V) (db : Database V) :
    SqliteProjection.writeRows rows none insert db = .ok (rows.foldl insert db) := by
  cases rows with
  | nil => rfl
  | cons r rows => rfl

/-! ## The batch of a call -/

/-- Between two calls the queue is empty, and tracker, projection and database agree on the next offset. -/
structure InStep (n : Nat) (t : ProjectionTracker V) (p : SqliteProjection V) : Prop where
  coalesce : t.canCoalesce = true
  expected : t.expectedStartOffset = some p.expectedStartOffset
  start : 0 ≤ p.expectedStartOffset
  room : 0 < t.maxPending
  empty : t.pendingBatches = []
  noCatchup : t.walCatchupNeeded = false
  last : t.lastContiguousOffset = (n : Int) - 1
  memory : p.highestContiguousOffset = (n : Int) - 1
  stored : p.checkpoint = (n : Int) - 1

/-- A batch with the offsets of `k` records from `n` on, and the offset of the last of them. -/
structure Carries (n k : Nat) (b : PendingBatch V) : Prop where
  nonempty : b.batch ≠ []
  offsets : walOffsets b.batch = (List.range' n k).map Nat.cast
  offset : b.offset = if k = 0 then -1 else (n + k : Int) - 1

theorem min?_range' (n k : Nat) :
    ((List.range' n k).map (Nat.cast : Nat → Int)).min? = if k = 0 then none else some (n : Int) := by
  split
  · rename_i hk
    subst hk
    rfl
  · rw [List.min?_eq_some_iff]
    refine ⟨List.mem_map_of_mem (List.mem_range'_1.mpr (by omega)), ?_⟩
    intro m hm
    obtain ⟨i, hi, rfl⟩ := List.mem_map.mp hm
    have := List.mem_range'_1.mp hi
    omega

namespace Carries

variable {n k : Nat} {b : PendingBatch V}

/-- The batch begins no later than at the next offset. -/
theorem startOffset_le (h : Carries n k b) : b.startOffset ≤ n := by
  rw [PendingBatch.startOffset, if_neg h.nonempty, h.offsets, min?_range']
  by_cases hk : k = 0
  · have hoffset : b.offset = -1 := by rw [h.offset, if_pos hk]
    simp only [hk, if_true, hoffset]
    omega
  · simp only [hk, if_false, le_refl]

theorem batchStart_le (h : Carries n k b) (hoffset : 0 ≤ b.offset) : SqliteProjection.batchStart b.batch b.offset ≤ n := by
  have hk : k ≠ 0 := by
    intro hk
    rw [h.offset, if_pos hk] at hoffset
    omega
  rw [SqliteProjection.batchStart, h.offsets, min?_range', if_neg hk]

end Carries

theorem InStep.currentCheckpoint {n : Nat} {t : ProjectionTracker V} {p : SqliteProjection V} (h : InStep n t p) :
    p.currentCheckpoint true = (n : Int) - 1 := by
  have hstored := h.stored
  rw [SqliteProjection.checkpoint] at hstored
  rw [SqliteProjection.currentCheckpoint]
  rcases hc : p.db.checkpoint with _ | c
  · exact h.memory
  · rw [hc, Option.getD_some] at hstored
    simp [h.memory, hstored]

/-- The next batch has to begin no later than at an offset that is not before the next one. -/
theorem InStep.le_expectedNext {n : Nat} {t : ProjectionTracker V} {p : SqliteProjection V} (h : InStep n t p) :
    (n : Int) ≤ p.expectedNext ((n : Int) - 1) := by
  have := h.start
  rw [SqliteProjection.expectedNext]
  split <;> omega

/-- The projection takes the batch. -/
theorem InStep.apply {n k : Nat} {t : ProjectionTracker V} {p : SqliteProjection V} (h : InStep n t p) {b : PendingBatch V}
    (hb : Carries n k b) : ∃ p', Served.applyTo P p b.batch b.offset = (true, p') ∧
      p'.expectedStartOffset = p.expectedStartOffset ∧ p'.highestContiguousOffset = (n + k : Int) - 1 ∧
      p'.checkpoint = (n + k : Int) - 1 ∧ ∃ cp, p'.db = { p.db.insertBatch P b.batch with checkpoint := cp } := by
  have hgap : ¬(0 ≤ b.offset ∧ p.expectedNext ((n : Int) - 1) < SqliteProjection.batchStart b.batch b.offset) := by
    rintro ⟨hoffset, hlt⟩
    have := hb.batchStart_le hoffset
    have := h.le_expectedNext
    omega
  have hcheckpoint : (p.db.insertBatch P b.batch).checkpoint = p.db.checkpoint := by rw [Database.insertBatch_eq]
  simp only [Served.applyTo, SqliteProjection.apply, hb.nonempty, false_and, if_false, SqliteProjection.attempts,
    SqliteProjection.attempt, SqliteProjection.transaction, decide_true, h.currentCheckpoint, if_neg hgap, writeRows_none]
  by_cases hk : k = 0
  · have hoffset : b.offset = -1 := by rw [hb.offset, if_pos hk]
    subst hk
    rw [if_neg (by omega)]
    refine ⟨_, rfl, rfl, by simpa using h.memory, ?_, p.db.checkpoint, ?_⟩
    · have hstored := h.stored
      simp only [SqliteProjection.checkpoint] at hstored ⊢
      rw [show (List.foldl Database.insertQuarantine _ _).checkpoint = p.db.checkpoint from hcheckpoint, hstored]
      simp
    · rw [← hcheckpoint]
      rfl
  · have hoffset : b.offset = (n + k : Int) - 1 := by rw [hb.offset, if_neg hk]
    have hmax : max p.highestContiguousOffset b.offset = (n + k : Int) - 1 := by
      rw [h.memory, hoffset]
      omega
    rw [if_pos (by omega)]
    exact ⟨_, rfl, rfl, hmax, hmax, _, rfl⟩

/-- The tracker takes the batch from its queue at once. -/
theorem InStep.pick {n k : Nat} {t : ProjectionTracker V} {p : SqliteProjection V} (h : InStep n t p) {b : PendingBatch V}
    (hb : Carries n k b) : ({ t with pendingBatches := [b] } : ProjectionTracker V).pick (some p.checkpoint) =
      ([b], { t with pendingBatches := [b] }) := by
  have hstart := h.start
  have hle := hb.startOffset_le
  have hgather : ∀ expected, ¬(∃ e ∈ expected, e < b.startOffset) →
      ProjectionTracker.gather t.batchSize [b] expected 0 = [b] := by
    intro expected hexpected
    rw [ProjectionTracker.gather, if_neg hexpected]
    split <;> rfl
  have hcp : (if t.lastContiguousOffset < 0 then
      ({ t with pendingBatches := [b] } : ProjectionTracker V).checkpoint (some p.checkpoint)
      else (t.lastContiguousOffset, { t with pendingBatches := [b] })) = ((n : Int) - 1, { t with pendingBatches := [b] }) := by
    rw [h.stored, h.last]
    split
    · simp only [ProjectionTracker.checkpoint]
      rw [if_neg (by omega)]
    · rfl
  have hexpected : ¬(∃ e ∈ (if 0 ≤ (n : Int) - 1 then some ((n : Int) - 1 + 1) else t.expectedStartOffset), e < b.startOffset) := by
    rintro ⟨e, he, hlt⟩
    rw [h.expected] at he
    split at he
    · cases he
      omega
    · cases he
      omega
  simp only [ProjectionTracker.pick, hcp]
  rw [if_neg hexpected, if_pos h.coalesce, hgather _ hexpected]

/-- The batch of a call reaches the projection before the call returns. -/
theorem InStep.dispatch {n k : Nat} {s : Served V} (h : InStep n s.tracker s.projection) {ds : List (EngineDecision V)} {offset : Int}
    (hb : Carries n k ⟨0, offset, ds.map .decision⟩) (readAt : UInt64) :
    (s.dispatch ds offset readAt).engine = s.engine ∧ (s.dispatch ds offset readAt).returned = s.returned ∧
      InStep (n + k) (s.dispatch ds offset readAt).tracker (s.dispatch ds offset readAt).projection ∧
      ∃ cp, (s.dispatch ds offset readAt).projection.db =
        { s.projection.db.insertBatch s.engine.config.py (ds.map .decision) with checkpoint := cp } := by
  generalize hbatch : (⟨0, offset, ds.map .decision⟩ : PendingBatch V) = b at hb
  have hitems : ds.map .decision = b.batch := by rw [← hbatch]
  have hoff : offset = b.offset := by rw [← hbatch]
  -- the queue holds the batch
  obtain ⟨max', hsubmit⟩ : ∃ m, s.tracker.submit b = { s.tracker with pendingBatches := [b], maxEnqueuedWalOffset := m } := by
    have hroom := h.room
    rw [ProjectionTracker.submit, if_neg hb.nonempty, ProjectionTracker.noteOffset]
    split
    · refine ⟨max s.tracker.maxEnqueuedWalOffset b.offset, ?_⟩
      rw [ProjectionTracker.push]
      simp [h.empty, show ¬s.tracker.maxPending ≤ 0 by omega]
    · refine ⟨s.tracker.maxEnqueuedWalOffset, ?_⟩
      rw [ProjectionTracker.push]
      simp [h.empty, show ¬s.tracker.maxPending ≤ 0 by omega]
  generalize ht : ({ s.tracker with maxEnqueuedWalOffset := max' } : ProjectionTracker V) = t at *
  have hqueued : s.tracker.submit b = { t with pendingBatches := [b] } := by rw [hsubmit, ← ht]
  have hstep : InStep n t s.projection := by
    rw [← ht]
    exact ⟨h.coalesce, h.expected, h.start, h.room, h.empty, h.noCatchup, h.last, h.memory, h.stored⟩
  obtain ⟨p', happly, hstart, hmemory, hstored, hdb⟩ := hstep.apply (P := s.engine.config.py) hb
  have hcatch : ({ s with tracker := { t with pendingBatches := [b] } } : Served V).catchUp readAt =
      (true, { s with tracker := { t with pendingBatches := [b] } }) := by
    simp [Served.catchUp, ProjectionTracker.catchUp, hstep.noCatchup]
  have hloop : Served.drainLoop s.engine.config.py 2 { t with pendingBatches := [b] } s.projection =
      (({ t with pendingBatches := [b] } : ProjectionTracker V).delivered [b], p') := by
    rw [Served.drainLoop, hstep.pick hb]
    simp only [ProjectionTracker.toApply, ProjectionTracker.lastOff, List.flatMap_cons, List.flatMap_nil, List.append_nil,
      List.getLast?_singleton, Option.map_some, Option.getD_some, happly]
    rw [Served.drainLoop, ProjectionTracker.pick]
    rfl
  have hdispatch : s.dispatch ds offset readAt = { s with
      tracker := ({ t with pendingBatches := [b] } : ProjectionTracker V).delivered [b]
      projection := p' } := by
    rw [Served.dispatch, hbatch, hqueued, Served.drain, hcatch]
    simp only [List.length_singleton, Nat.reduceAdd, hloop]
  rw [hdispatch]
  refine ⟨rfl, rfl, ?_, ?_⟩
  · refine ⟨hstep.coalesce, hstep.expected.trans (by rw [hstart]), ?_, hstep.room, rfl, hstep.noCatchup, ?_, ?_, ?_⟩
    · rw [hstart]
      exact hstep.start
    · have hlast := hstep.last
      have hoffset := hb.offset
      show (if 0 ≤ b.offset then max t.lastContiguousOffset b.offset else t.lastContiguousOffset) = _
      push_cast
      split at hoffset
      · rw [if_neg (by omega)]
        omega
      · rw [if_pos (by omega)]
        omega
    · rw [hmemory]
      push_cast
      rfl
    · rw [hstored]
      push_cast
      rfl
  · rw [hitems]
    exact hdb

end Mdrap
