import Mdrap.Theorems.Redaction

/-!
# The checkpoint of the store

An engine delivers batches of consecutive log offsets in order, some of them again, and batches of rejected events, whose offset is -1.
`apply` stores the offset of each batch as the checkpoint. What lies up to the checkpoint has always been committed; but the checkpoint
falls with each batch that ends before it.
-/

namespace Mdrap

open Lib

variable {V : Type}

/-! ## Deliveries -/

/-- A batch as an engine delivers it: decisions of consecutive log offsets, and among them decisions on events that were rejected
before they came to the log. -/
structure EngineBatch (V : Type) where
  start : Nat
  size : Nat
  decisions : List (StoreDecision V)
  nonempty : decisions ≠ []
  consecutive : (decisions.map StoreDecision.offset).filter (0 ≤ ·) = (List.range' start size).map Nat.cast
  rejected : ∀ d ∈ decisions, d.offset < 0 → d.offset = -1

namespace EngineBatch

/-- What the store is given. -/
def items (b : EngineBatch V) : List (StoreItem V) := b.decisions.map .decision

/-- The offset a batch is delivered with: that of its last decision. -/
def offset (b : EngineBatch V) : Int := (b.decisions.getLast b.nonempty).offset

/-- The place behind the last log offset of a batch, if it has any. -/
def stop (b : EngineBatch V) : Nat := if b.size = 0 then 0 else b.start + b.size

end EngineBatch

/-- A call of `apply`. -/
structure Delivery (V : Type) where
  now : V
  batch : EngineBatch V
  fault : Option StoreStmt

/-- A store, the log offset that is due, and the batches whose transactions were committed. -/
structure DeliveryRun (V : Type) where
  store : SqliteStore V
  next : Nat
  committed : List (EngineBatch V)

namespace DeliveryRun

/-- A new store, with deliveries from an offset on. -/
def new (first : Nat) : DeliveryRun V := ⟨.new, first, []⟩

/-- A batch does not begin behind the offset that is due: the batches come in order, and may come again. -/
def InOrder (r : DeliveryRun V) (d : Delivery V) : Prop := d.batch.size ≠ 0 → d.batch.start ≤ r.next

instance (r : DeliveryRun V) (d : Delivery V) : Decidable (r.InOrder d) := inferInstanceAs (Decidable (_ → _))

end DeliveryRun

namespace StoreEnv

variable (env : StoreEnv V)

section Deliver

variable [DecidableEq V]

/-- A delivery. -/
def deliver (r : DeliveryRun V) (d : Delivery V) : DeliveryRun V :=
  let store := env.apply d.now d.batch.items d.batch.offset d.fault r.store
  match env.applyBatch d.now d.batch.items d.batch.offset d.fault r.store.current with
  | none => { r with store := store }
  | some _ => ⟨store, max r.next d.batch.stop, r.committed ++ [d.batch]⟩

/-- The rows of a decision are in the tables, or ones with their ids. -/
def InTables (t : StoreTables V) (d : StoreDecision V) : Prop :=
  (∀ row ∈ env.canonicalRows (.decision d), ∃ stored, storedRow env.toRecoveryEnv ⟨.canonical, row⟩ = some stored ∧
    HasRow (t.db.rows .canonical) stored) ∧
  ∀ row ∈ env.quarantineRows (.decision d), ∃ stored, storedRow env.toRecoveryEnv ⟨.quarantine, row⟩ = some stored ∧
    HasRow (t.db.rows .quarantine) stored

/-- Every offset up to the checkpoint is of a decision in a committed batch, and that one's rows are in the tables. -/
def UpToCheckpoint (first : Nat) (r : DeliveryRun V) : Prop :=
  ∀ n : Nat, first ≤ n → n ≤ r.store.checkpoint →
    ∃ b ∈ r.committed, ∃ d ∈ b.decisions, d.offset = n ∧ env.InTables r.store.saved d

/-- The checkpoint never falls, and what lies up to it has been committed. -/
structure CheckpointSound (first : Nat) (ds : List (Delivery V)) : Prop where
  monotone : ∀ run run', run <+: run' → run' <+: ds →
    (runFrom env.deliver (.new first) run).store.checkpoint ≤ (runFrom env.deliver (.new first) run').store.checkpoint
  committed : ∀ run, run <+: ds → env.UpToCheckpoint first (runFrom env.deliver (.new first) run)

end Deliver

/-- No statement of the transaction fails, and all values can be bound. -/
structure Commits (d : Delivery V) : Prop where
  runs : env.fails d.batch.items d.fault = false
  canonical : ∀ row ∈ d.batch.items.flatMap env.canonicalRows, storedRow env.toRecoveryEnv ⟨.canonical, row⟩ ≠ none
  quarantine : ∀ row ∈ d.batch.items.flatMap env.quarantineRows, storedRow env.toRecoveryEnv ⟨.quarantine, row⟩ ≠ none
  offset : d.batch.offset < 2 ^ 63

/-- A batch whose transaction commits does not end before the stored checkpoint. -/
def NotBelow (r : DeliveryRun V) (d : Delivery V) : Prop := env.Commits d → r.store.checkpoint ≤ d.batch.offset

/-! ## Offsets -/

end StoreEnv

namespace EngineBatch

theorem mem_offsets (b : EngineBatch V) (n : Nat) :
    (∃ d ∈ b.decisions, d.offset = n) ↔ b.start ≤ n ∧ n < b.start + b.size := by
  have hmem : (n : Int) ∈ (b.decisions.map StoreDecision.offset).filter (0 ≤ ·) ↔ b.start ≤ n ∧ n < b.start + b.size := by
    rw [b.consecutive]
    simp
  rw [← hmem]
  simp

/-- A batch's offset is -1 or one of its log offsets. -/
theorem offset_cases (b : EngineBatch V) : b.offset = -1 ∨ ∃ n : Nat, b.offset = n ∧ n < b.stop := by
  have hlast : b.decisions.getLast b.nonempty ∈ b.decisions := List.getLast_mem _
  by_cases hneg : b.offset < 0
  · exact .inl (b.rejected _ hlast hneg)
  · obtain ⟨n, hn⟩ := Int.eq_ofNat_of_zero_le (Int.not_lt.mp hneg)
    have hrange := (b.mem_offsets n).mp ⟨_, hlast, hn⟩
    refine .inr ⟨n, hn, ?_⟩
    unfold stop
    split
    · omega
    · exact hrange.2

theorem neg_one_le_offset (b : EngineBatch V) : -1 ≤ b.offset := by
  rcases b.offset_cases with h | ⟨n, h, -⟩
  · omega
  · omega

end EngineBatch

namespace StoreEnv

variable {env : StoreEnv V}

/-! ## Transactions -/

section Deliver

variable [DecidableEq V]

theorem insertMany_isSome {env : RecoveryEnv V} {table : JournalTable} {rows : List (List (PyJson V))}
    (h : ∀ row ∈ rows, storedRow env ⟨table, row⟩ ≠ none) (db : StoreDb V) : ∃ db', insertMany env table (entries table rows) db = some db' := by
  rw [← Option.ne_none_iff_exists']
  intro hnone
  obtain ⟨e, he, hrow⟩ := insertMany_none.mp hnone
  obtain ⟨row, hmem, rfl⟩ := List.mem_map.mp he
  exact h row hmem hrow

theorem stored_of_insertMany {env : RecoveryEnv V} {table : JournalTable} {rows : List (List (PyJson V))} {db db' : StoreDb V}
    (h : insertMany env table (entries table rows) db = some db') {row : List (PyJson V)} (hrow : row ∈ rows) :
    ∃ stored, storedRow env ⟨table, row⟩ = some stored ∧ HasRow (db'.rows table) stored := by
  have hentry : (⟨table, row⟩ : JournalEntry V) ∈ entries table rows := List.mem_map_of_mem hrow
  rcases hstored : storedRow env ⟨table, row⟩ with _ | stored
  · rw [insertMany_none.mpr ⟨_, hentry, hstored⟩] at h
    cases h
  · exact ⟨stored, rfl, (insertMany_some h).2.1 _ hentry stored hstored⟩

/-- The transaction of a delivery commits exactly where no statement fails and all values can be bound. -/
theorem applyBatch_isSome_iff {d : Delivery V} {t : StoreTables V} :
    (∃ t', env.applyBatch d.now d.batch.items d.batch.offset d.fault t = some t') ↔ env.Commits d := by
  unfold applyBatch
  constructor
  · rintro ⟨t', h⟩
    split at h
    · cases h
    · rename_i hruns
      simp only [Option.bind_eq_bind, Option.bind_eq_some_iff] at h
      obtain ⟨db₁, h₁, db₂, h₂, h₃⟩ := h
      refine ⟨by simpa using hruns, fun row hrow hnone => ?_, fun row hrow hnone => ?_, ?_⟩
      · obtain ⟨stored, hstored, -⟩ := stored_of_insertMany h₁ hrow
        rw [hnone] at hstored
        cases hstored
      · obtain ⟨stored, hstored, -⟩ := stored_of_insertMany h₂ hrow
        rw [hnone] at hstored
        cases hstored
      · split at h₃
        · rename_i hbound
          exact hbound.2
        · cases h₃
  · intro h
    obtain ⟨db₁, h₁⟩ := insertMany_isSome h.canonical t.db
    obtain ⟨db₂, h₂⟩ := insertMany_isSome h.quarantine db₁
    have hlow := d.batch.neg_one_le_offset
    have hbound : -(2 ^ 63) ≤ d.batch.offset ∧ d.batch.offset < 2 ^ 63 := ⟨by omega, h.offset⟩
    rw [if_neg (by simp [h.runs])]
    simp only [h₁, h₂, Option.bind_eq_bind, Option.bind_some, if_pos hbound, Option.some.injEq, exists_eq']

/-- A transaction that commits keeps the rows of the tables, adds those of its decisions, and stores the offset of the batch. -/
theorem applyBatch_tables {now : V} {ds : List (StoreDecision V)} {offset : Int} {fault : Option StoreStmt} {t t' : StoreTables V}
    (h : env.applyBatch now (ds.map .decision) offset fault t = some t') :
    t'.checkpoint = some offset ∧ (∀ table row, HasRow (t.db.rows table) row → HasRow (t'.db.rows table) row) ∧
      ∀ d ∈ ds, env.InTables t' d := by
  unfold applyBatch at h
  split at h
  · cases h
  · simp only [Option.bind_eq_bind, Option.bind_eq_some_iff] at h
    obtain ⟨db₁, h₁, db₂, h₂, h₃⟩ := h
    obtain ⟨hold₁, -, -⟩ := insertMany_some h₁
    obtain ⟨hold₂, -, -⟩ := insertMany_some h₂
    split at h₃
    · cases h₃
      refine ⟨rfl, fun table row hrow => ?_, fun d hd => ⟨fun row hrow => ?_, fun row hrow => ?_⟩⟩
      · rw [rows_appendMerkle]
        exact hold₂ _ _ (hold₁ _ _ hrow)
      · have hmem := List.mem_flatMap.mpr ⟨_, List.mem_map_of_mem hd, hrow⟩
        obtain ⟨stored, hstored, hhas⟩ := stored_of_insertMany h₁ hmem
        refine ⟨stored, hstored, ?_⟩
        rw [rows_appendMerkle]
        exact hold₂ _ _ hhas
      · have hmem := List.mem_flatMap.mpr ⟨_, List.mem_map_of_mem hd, hrow⟩
        obtain ⟨stored, hstored, hhas⟩ := stored_of_insertMany h₂ hmem
        refine ⟨stored, hstored, ?_⟩
        rw [rows_appendMerkle]
        exact hhas
    · cases h₃

/-! ## Runs -/

/-- No transaction is open. -/
structure Idle (s : SqliteStore V) : Prop where
  closed : s.inTransaction = false
  same : s.current = s.saved

/-- A delivery is committed, and the store has the new tables; or it raises, and nothing has changed. -/
theorem deliver_cases {r : DeliveryRun V} (hidle : Idle r.store) (d : Delivery V) :
    (¬env.Commits d ∧ env.deliver r d = r) ∨
      ∃ t', env.Commits d ∧ env.applyBatch d.now d.batch.items d.batch.offset d.fault r.store.current = some t' ∧
        env.deliver r d = ⟨⟨t', t', false⟩, max r.next d.batch.stop, r.committed ++ [d.batch]⟩ := by
  have hne : ¬(d.batch.items.isEmpty ∧ d.batch.offset < 0) := by
    simp [EngineBatch.items, d.batch.nonempty]
  unfold deliver apply SqliteStore.transaction
  rw [if_neg hne, if_neg (by simp [hidle.closed])]
  rcases happly : env.applyBatch d.now d.batch.items d.batch.offset d.fault r.store.current with _ | t'
  · refine .inl ⟨fun h => ?_, rfl⟩
    obtain ⟨t', ht'⟩ := applyBatch_isSome_iff.mpr h
    rw [happly] at ht'
    cases ht'
  · exact .inr ⟨t', applyBatch_isSome_iff.mp ⟨t', happly⟩, rfl, rfl⟩

theorem Idle.deliver (r : DeliveryRun V) (d : Delivery V) (h : Idle r.store) : Idle (env.deliver r d).store := by
  rcases deliver_cases h d with ⟨-, heq⟩ | ⟨t', -, -, heq⟩
  · rwa [heq]
  · rw [heq]
    exact ⟨rfl, rfl⟩

/-- The checkpoint does not fall in a step exactly where the batch does not end before it. -/
theorem checkpoint_le_iff {r : DeliveryRun V} (hidle : Idle r.store) (d : Delivery V) :
    r.store.checkpoint ≤ (env.deliver r d).store.checkpoint ↔ env.NotBelow r d := by
  rcases deliver_cases hidle d with ⟨hnot, heq⟩ | ⟨t', hcommits, happly, heq⟩
  · rw [heq]
    exact ⟨fun _ h => absurd h hnot, fun _ => Int.le_refl _⟩
  · have hcheckpoint : (env.deliver r d).store.checkpoint = d.batch.offset := by
      rw [heq]
      simp [SqliteStore.checkpoint, (applyBatch_tables happly).1]
    rw [hcheckpoint]
    exact ⟨fun h _ => h, fun h => h hcommits⟩

variable (env) in
/-- What lies before the offset that is due has been committed, and the checkpoint lies before it. -/
structure Delivered (first : Nat) (r : DeliveryRun V) : Prop where
  idle : Idle r.store
  before : r.store.checkpoint < r.next
  committed : ∀ n : Nat, first ≤ n → n < r.next →
    ∃ b ∈ r.committed, ∃ d ∈ b.decisions, d.offset = n ∧ env.InTables r.store.saved d

theorem Delivered.new (first : Nat) : env.Delivered first (.new first) where
  idle := ⟨rfl, rfl⟩
  before := by
    simp [DeliveryRun.new, SqliteStore.new, SqliteStore.checkpoint]
    omega
  committed := fun n hlow hhigh => absurd hhigh (Nat.not_lt.mpr hlow)

theorem Delivered.deliver {first : Nat} (r : DeliveryRun V) (d : Delivery V) (h : env.Delivered first r)
    (horder : r.InOrder d) : env.Delivered first (env.deliver r d) := by
  rcases deliver_cases h.idle d with ⟨-, heq⟩ | ⟨t', -, happly, heq⟩
  · rwa [heq]
  · obtain ⟨hcheckpoint, hold, hnew⟩ := applyBatch_tables happly
    rw [heq]
    refine ⟨⟨rfl, rfl⟩, ?_, fun n hlow hhigh => ?_⟩
    · have hoffset : (⟨t', t', false⟩ : SqliteStore V).checkpoint = d.batch.offset := by
        simp [SqliteStore.checkpoint, hcheckpoint]
      dsimp only
      rw [hoffset]
      rcases d.batch.offset_cases with hrejected | ⟨n, hn, hstop⟩
      · rw [hrejected]
        omega
      · rw [hn]
        omega
    · dsimp only at hhigh
      by_cases hbefore : n < r.next
      · obtain ⟨b, hb, d', hd', hn, hcanonical, hquarantine⟩ := h.committed n hlow hbefore
        rw [← h.idle.same] at hcanonical hquarantine
        refine ⟨b, List.mem_append_left _ hb, d', hd', hn, fun row hrow => ?_, fun row hrow => ?_⟩
        · obtain ⟨stored, hstored, hhas⟩ := hcanonical row hrow
          exact ⟨stored, hstored, hold _ _ hhas⟩
        · obtain ⟨stored, hstored, hhas⟩ := hquarantine row hrow
          exact ⟨stored, hstored, hold _ _ hhas⟩
      · -- the offset is one of the batch, which does not begin behind the one that was due
        have hstop : n < d.batch.stop := by omega
        unfold EngineBatch.stop at hstop
        split at hstop
        · omega
        · rename_i hsize
          have hstart := horder hsize
          obtain ⟨d', hd', hn⟩ := (d.batch.mem_offsets n).mpr ⟨by omega, hstop⟩
          exact ⟨d.batch, List.mem_append_right _ (List.mem_singleton_self _), d', hd', hn, hnew d' hd'⟩

end Deliver

/-- An engine delivers batches in order, from an offset on, to a store on a new database, and any statement may fail. What lies up to
the checkpoint has been committed in every state, and the checkpoint never falls, exactly if no batch that is committed ends before
the checkpoint. -/
theorem checkpoint_sound_iff [DecidableEq V] (env : StoreEnv V) (first : Nat) (ds : List (Delivery V))
    (horder : Along env.deliver DeliveryRun.InOrder (.new first) ds) :
    env.CheckpointSound first ds ↔ Along env.deliver env.NotBelow (.new first) ds := by
  have hcommitted : ∀ run, run <+: ds → env.UpToCheckpoint first (runFrom env.deliver (.new first) run) := by
    intro run hrun n hlow hhigh
    have hinv : env.Delivered first (runFrom env.deliver (.new first) run) :=
      horder.inv_prefix Delivered.deliver (.new first) hrun
    have hbefore := hinv.before
    exact hinv.committed n hlow (by omega)
  have hmonotone : (∀ run run', run <+: run' → run' <+: ds → (runFrom env.deliver (.new first) run).store.checkpoint ≤
      (runFrom env.deliver (.new first) run').store.checkpoint) ↔
      Along env.deliver (fun r d => r.store.checkpoint ≤ (env.deliver r d).store.checkpoint) (.new first) ds :=
    Along.monotone_iff (fun r : DeliveryRun V => r.store.checkpoint) (DeliveryRun.new first) ds
  have hcond : Along env.deliver (fun r d => r.store.checkpoint ≤ (env.deliver r d).store.checkpoint) (.new first) ds ↔
      Along env.deliver env.NotBelow (.new first) ds :=
    Along.congr_inv Idle.deliver (fun _ d hidle => checkpoint_le_iff hidle d) ⟨rfl, rfl⟩ ds
  constructor
  · intro h
    exact hcond.mp (hmonotone.mp h.monotone)
  · intro h
    exact ⟨hmonotone.mpr (hcond.mpr h), hcommitted⟩

/-! ## A rejected event -/

/-- The decision on a record that is not valid, or on one that was rejected before the log. -/
def invalidDecision (offset : Int) (id : String) : StoreDecision Float64 :=
  ⟨offset, none, .invalid, some [.str (pyText id), .str (pyText "UNKNOWN"), .str (pyText "feed"), .str (pyText "INVALID"),
    .str (pyText "[\"SCHEMA_VIOLATION\"]"), .str (pyText "\x7b\x7d"), .int 1]⟩

/-- A batch of one record of the log. -/
def loggedBatch (n : Nat) (id : String) : EngineBatch Float64 where
  start := n
  size := 1
  decisions := [invalidDecision n id]
  nonempty := by simp
  consecutive := by simp [invalidDecision]
  rejected d hd hneg := by
    rw [List.mem_singleton.mp hd] at hneg
    exact absurd hneg (Int.not_lt.mpr (Int.natCast_nonneg n))

/-- A batch of one rejected event. -/
def rejectedBatch : EngineBatch Float64 where
  start := 0
  size := 0
  decisions := [invalidDecision (-1) "q_feed_2"]
  nonempty := by simp
  consecutive := by simp [invalidDecision]
  rejected d hd _ := by rw [List.mem_singleton.mp hd]; rfl

/-- A record is delivered in vain, delivered again, and followed by another one. -/
theorem checkpoint_sound_again : passwordEnv.CheckpointSound 0
    [⟨plainEnv.zero, loggedBatch 0 "q_feed_0", some .commit⟩, ⟨plainEnv.zero, loggedBatch 0 "q_feed_0", none⟩,
      ⟨plainEnv.zero, loggedBatch 1 "q_feed_1", none⟩] :=
  (checkpoint_sound_iff passwordEnv 0 _ (by decide)).mpr
    ⟨fun _ => by decide, fun _ => by decide, fun _ => by decide, trivial⟩

/-- A rejected event takes the checkpoint back to -1. -/
theorem checkpoint_sound_false :
    Along passwordEnv.deliver DeliveryRun.InOrder (.new 0)
      [⟨plainEnv.zero, loggedBatch 0 "q_feed_0", none⟩, ⟨plainEnv.zero, rejectedBatch, none⟩] ∧
    ¬passwordEnv.CheckpointSound 0
      [⟨plainEnv.zero, loggedBatch 0 "q_feed_0", none⟩, ⟨plainEnv.zero, rejectedBatch, none⟩] := by
  refine ⟨by decide, fun h => ?_⟩
  have hle := h.monotone [⟨plainEnv.zero, loggedBatch 0 "q_feed_0", none⟩] _
    (List.prefix_append _ [⟨plainEnv.zero, rejectedBatch, none⟩]) (List.prefix_refl _)
  exact absurd hle (by decide)

end StoreEnv

end Mdrap
