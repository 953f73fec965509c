import Mdrap.Projection.Sqlite

/-!
# What a call of `apply` does to the checkpoint

A call leaves the checkpoint as it is, or moves it to the offset of the batch. It moves it only for a batch that begins at most
one beyond the offset in memory, and in a transaction that commits.
-/

namespace Mdrap

open Lib

variable {V : Type} {P : Py V}

namespace WalBatch

theorem offset_mem (b : WalBatch V) {n : Int} (hlo : b.start ≤ n) (hhi : n ≤ b.last) : ∃ d ∈ b.decisions, d.offset = n := by
  have hmem : n ∈ b.decisions.map EngineDecision.offset := by
    rw [b.consecutive, List.mem_map]
    refine ⟨n.toNat, List.mem_range'_1.mpr ?_, by omega⟩
    simp only [last] at hhi
    omega
  obtain ⟨d, hd, heq⟩ := List.mem_map.mp hmem
  exact ⟨d, hd, heq⟩

theorem walOffsets_items (b : WalBatch V) : walOffsets b.items = b.decisions.map EngineDecision.offset := by
  have hmap : b.items.filterMap BatchItem.offset? = b.decisions.map EngineDecision.offset := by
    rw [items, List.filterMap_map]
    exact List.filterMap_eq_map_iff_forall_eq_some.mpr (fun _ _ => rfl)
  rw [walOffsets, hmap, List.filter_eq_self]
  intro n hn
  rw [b.consecutive, List.mem_map] at hn
  obtain ⟨k, -, rfl⟩ := hn
  simp

theorem batchStart_items (b : WalBatch V) (offset : Int) : SqliteProjection.batchStart b.items offset = b.start := by
  have hpos : 0 < b.decisions.length := List.length_pos_iff.mpr b.nonempty
  have hmin : (walOffsets b.items).min? = some (b.start : Int) := by
    rw [walOffsets_items, b.consecutive, List.min?_eq_some_iff]
    refine ⟨List.mem_map_of_mem (List.mem_range'_1.mpr (by omega)), ?_⟩
    intro n hn
    obtain ⟨k, hk, rfl⟩ := List.mem_map.mp hn
    have := List.mem_range'_1.mp hk
    omega
  rw [SqliteProjection.batchStart, hmin]

theorem last_nonneg (b : WalBatch V) : 0 ≤ b.last := by
  have hpos : 0 < b.decisions.length := List.length_pos_iff.mpr b.nonempty
  rw [last]
  omega

end WalBatch

namespace SqliteProjection

/-- The offset in memory is not behind the stored checkpoint, which is an offset. -/
def Ahead (p : SqliteProjection V) : Prop :=
  -1 ≤ p.highestContiguousOffset ∧ ∀ c ∈ p.db.checkpoint, 0 ≤ c ∧ c ≤ p.highestContiguousOffset

theorem Ahead.openOn {db : Database V} (h : ∀ c ∈ db.checkpoint, 0 ≤ c) (start : Int) : (openOn db start).Ahead := by
  rcases hc : db.checkpoint with _ | c
  · simp [Ahead, SqliteProjection.openOn, hc]
  · have := h c (by simp [hc])
    simp [Ahead, SqliteProjection.openOn, hc, this]
    omega

theorem Ahead.currentCheckpoint {p : SqliteProjection V} (h : p.Ahead) (selected : Bool) :
    p.currentCheckpoint selected = p.highestContiguousOffset := by
  rw [SqliteProjection.currentCheckpoint]
  rcases hc : p.db.checkpoint with _ | c
  · rfl
  · have := (h.2 c (by simp [hc])).2
    cases selected
    · rfl
    · exact max_eq_left this

/-- The offset of the batch is the one in memory now. -/
def advance (p : SqliteProjection V) (offset : Int) : SqliteProjection V := { p with highestContiguousOffset := offset }

theorem writeRows_checkpoint {R : Type} {rows : List R} {fault : Option SqlFault} {insert : Database V → R → Database V}
    (hinsert : ∀ db r, (insert db r).checkpoint = db.checkpoint) {db db' : Database V}
    (h : writeRows rows fault insert db = .ok db') : db'.checkpoint = db.checkpoint := by
  have hfold : ∀ (rows : List R) (db : Database V), (rows.foldl insert db).checkpoint = db.checkpoint := by
    intro rows
    induction rows with
    | nil => intro db; rfl
    | cons r rows ih => intro db; rw [List.foldl_cons, ih, hinsert]
  cases rows with
  | nil => cases h; rfl
  | cons r rows =>
    cases fault with
    | none => cases h; exact hfold _ _
    | some e => cases h

theorem insertCanonical_checkpoint (db : Database V) (r : CanonicalRow V) :
    (db.insertCanonical P r).checkpoint = db.checkpoint := by
  rw [Database.insertCanonical]
  split <;> rfl

theorem insertQuarantine_checkpoint (db : Database V) (r : QuarantineRow) :
    (db.insertQuarantine r).checkpoint = db.checkpoint := by
  rw [Database.insertQuarantine]
  split <;> rfl

/-- The body of a transaction fails or would commit; the offset in memory is moved for a batch that is let through, together with
the checkpoint or before the statement that fails. -/
theorem transaction_cases {p : SqliteProjection V} (h : p.Ahead) {batch : List (BatchItem V)} {offset : Int}
    {fault : Stmt → Option SqlFault} {r : Except SqlFault (Database V)} {p' : SqliteProjection V}
    (ht : p.transaction P batch offset fault = (r, p')) :
    (p' = p ∧ ∀ db ∈ r.toOption, db.checkpoint = p.db.checkpoint) ∨
    (p' = p.advance offset ∧ p.Admits batch offset ∧ 0 ≤ offset ∧ p.highestContiguousOffset < offset ∧
      ∀ db ∈ r.toOption, db.checkpoint = some offset) := by
  rw [transaction] at ht
  split at ht
  · cases ht
    exact .inl ⟨rfl, by simp [Except.toOption]⟩
  simp only [h.currentCheckpoint] at ht
  split at ht
  · cases ht
    exact .inl ⟨rfl, by simp [Except.toOption]⟩
  rename_i hadmit
  rcases hcanon : writeRows (batch.flatMap (BatchItem.canonicalRows P)) (fault .insertCanonical) (Database.insertCanonical P) p.db
    with e | db
  · rw [hcanon] at ht
    cases ht
    exact .inl ⟨rfl, by simp [Except.toOption]⟩
  simp only [hcanon] at ht
  rcases hquar : writeRows (batch.flatMap (BatchItem.quarantineRows P)) (fault .insertQuarantine) Database.insertQuarantine db
    with e | db'
  · rw [hquar] at ht
    cases ht
    exact .inl ⟨rfl, by simp [Except.toOption]⟩
  simp only [hquar] at ht
  have hcp : db'.checkpoint = p.db.checkpoint :=
    (writeRows_checkpoint insertQuarantine_checkpoint hquar).trans (writeRows_checkpoint insertCanonical_checkpoint hcanon)
  split at ht
  · rename_i hmove
    have hle : p.highestContiguousOffset ≤ offset := hmove.2.le
    have hadmits : p.Admits batch offset := by
      rw [Admits]
      by_contra hlt
      exact hadmit ⟨hmove.1, not_le.mp hlt⟩
    right
    split at ht
    · cases ht
      exact ⟨by simp [advance, hle], hadmits, hmove.1, hmove.2, by simp [Except.toOption]⟩
    · cases ht
      exact ⟨by simp [advance, hle], hadmits, hmove.1, hmove.2, by simp [Except.toOption, hle]⟩
  · cases ht
    exact .inl ⟨rfl, by simpa [Except.toOption] using hcp⟩

/-- What an attempt or a call may have done: the offset in memory is moved only for a batch that is let through, and so is the
checkpoint, which is then the offset of the batch. -/
structure Moves (p : SqliteProjection V) (batch : List (BatchItem V)) (offset : Int) (committed : Prop)
    (p' : SqliteProjection V) : Prop where
  start : p'.expectedStartOffset = p.expectedStartOffset
  ahead : p'.Ahead
  memory : p'.highestContiguousOffset = p.highestContiguousOffset ∨ p.Admits batch offset
  stored : p'.db.checkpoint = p.db.checkpoint ∨ (committed ∧ p.Admits batch offset ∧ p'.db.checkpoint = some offset)

theorem Moves.refl {p : SqliteProjection V} (h : p.Ahead) (batch : List (BatchItem V)) (offset : Int) (committed : Prop) :
    p.Moves batch offset committed p := ⟨rfl, h, .inl rfl, .inl rfl⟩

theorem Ahead.advance {p : SqliteProjection V} (h : p.Ahead) {offset : Int} (hle : p.highestContiguousOffset ≤ offset) :
    (p.advance offset).Ahead :=
  ⟨h.1.trans hle, fun c hc => ⟨(h.2 c hc).1, (h.2 c hc).2.trans hle⟩⟩

theorem attempt_moves {p : SqliteProjection V} (h : p.Ahead) {batch : List (BatchItem V)} {offset : Int}
    {fault : Stmt → Option SqlFault} {r : Attempt} {p' : SqliteProjection V}
    (ha : p.attempt P batch offset fault = (r, p')) : p.Moves batch offset (r = .committed) p' := by
  rw [attempt] at ha
  split at ha
  · cases ha
    exact .refl h _ _ _
  rcases ht : p.transaction P batch offset fault with ⟨e | db, q⟩
  · rw [ht] at ha
    cases ha
    rcases transaction_cases h ht with ⟨rfl, -⟩ | ⟨rfl, hadmits, -, hlt, -⟩
    · exact .refl h _ _ _
    · exact ⟨rfl, h.advance hlt.le, .inr hadmits, .inl rfl⟩
  · simp only [ht] at ha
    rcases transaction_cases h ht with ⟨rfl, hcp⟩ | ⟨rfl, hadmits, hpos, hlt, hcp⟩
    · have hcp := hcp db rfl
      split at ha
      · cases ha
        exact .refl h _ _ _
      · cases ha
        exact ⟨rfl, ⟨h.1, by simpa [hcp] using h.2⟩, .inl rfl, .inl hcp⟩
    · have hcp := hcp db rfl
      split at ha
      · cases ha
        exact ⟨rfl, h.advance hlt.le, .inr hadmits, .inl rfl⟩
      · cases ha
        refine ⟨rfl, ⟨(h.advance hlt.le).1, ?_⟩, .inr hadmits, .inr ⟨rfl, hadmits, hcp⟩⟩
        simp [hcp, SqliteProjection.advance, hpos]

theorem attempts_moves {batch : List (BatchItem V)} {offset : Int} (faults : List (Stmt → Option SqlFault)) :
    ∀ {p : SqliteProjection V}, p.Ahead → ∀ {r : Option Attempt} {p' : SqliteProjection V},
      attempts P batch offset faults p = (r, p') → p.Moves batch offset (r = some .committed) p' := by
  induction faults with
  | nil =>
    intro p h r p' ha
    cases ha
    exact .refl h _ _ _
  | cons fault faults ih =>
    intro p h r p' ha
    rw [attempts] at ha
    rcases hfirst : p.attempt P batch offset fault with ⟨_ | e, q⟩
    · have hmoves := attempt_moves h hfirst
      rw [hfirst] at ha
      cases ha
      exact ⟨hmoves.start, hmoves.ahead, hmoves.memory, by simpa using hmoves.stored⟩
    · have hmoves := attempt_moves h hfirst
      have hstored : q.db.checkpoint = p.db.checkpoint := by simpa using hmoves.stored
      simp only [hfirst] at ha
      split at ha
      · -- the next attempt starts from what this one has left in memory
        have hnext := ih hmoves.ahead ha
        have hadmits : q.Admits batch offset → p.Admits batch offset := by
          intro hq
          rcases hmoves.memory with heq | hp
          · simpa [Admits, heq, expectedNext, hmoves.start] using hq
          · exact hp
        refine ⟨hnext.start.trans hmoves.start, hnext.ahead, ?_, ?_⟩
        · rcases hnext.memory with heq | hq
          · rw [heq]
            exact hmoves.memory
          · exact .inr (hadmits hq)
        · rcases hnext.stored with heq | ⟨hr, hq, heq⟩
          · exact .inl (heq.trans hstored)
          · exact .inr ⟨hr, hadmits hq, heq⟩
      · cases ha
        exact ⟨hmoves.start, hmoves.ahead, hmoves.memory, .inl hstored⟩

/-- What a call of `apply` may have done. -/
theorem apply_moves {p : SqliteProjection V} (h : p.Ahead) {batch : List (BatchItem V)} {offset : Int}
    {faults : List (Stmt → Option SqlFault)} {r : Option Attempt} {p' : SqliteProjection V}
    (ha : p.apply P batch offset faults = (r, p')) : p.Moves batch offset (r = some .committed) p' := by
  rw [apply] at ha
  split at ha
  · cases ha
    exact .refl h _ _ _
  · exact attempts_moves faults h ha

end SqliteProjection

end Mdrap
