import Mathlib.Data.List.Chain
import Mdrap.Shm.Drainer
import Mdrap.Theorems.Seqlock

/-!
# What is drained

The journal gets the ticks in order, whatever the threads do. A tick that is counted is in the store or pending, unless the writer
came round to its slot before it was read the second time, or a thread put an empty list in place of a list with a tick that was
never written. Only the thread that does not append can do so: the worker's own flush never loses a tick.
-/

namespace Mdrap

open Lib

namespace DrainRun

variable {c : DrainConfig} {r r' : DrainRun}

/-! ## Statements -/

/-- An entry of the journal comes after another one, and if it does not come next, a lap was counted in between. -/
def Follows (a b : UInt64 × Nat) : Prop := a.1 < b.1 ∧ (b.1.toNat ≠ a.1.toNat + 1 → a.2 < b.2)

/-- No thread is at work, and the pending events have been flushed. -/
def Quiescent (r : DrainRun) : Prop := r.other = .idle ∧ (r.thread = .exited ∨ (r.thread = .cycle ∧ r.lists r.pending = []))

/-- The number that marks an uncommitted slot is neither written nor looked for. -/
def Numbers (r : DrainRun) : DrainEvent → Prop
  | .write _ => r.shm.ticks.length < uncommitted.toNat
  | .drain _ =>
    match r.thread with
    | .loadCommit _ => r.currentSeq ≠ uncommitted.toNat
    | _ => True
  | _ => True

/-- The second read of a slot finds its tick, an event is appended to the list that is pending, and the other thread puts an empty
list only in place of a list whose events were written. -/
def Safe (c : DrainConfig) (r : DrainRun) : DrainEvent → Prop
  | .drain _ =>
    match r.thread with
    | .readHead _ => ¬r.Lapped c
    | .readCommit _ => (r.commitWord c).toNat = r.currentSeq
    | .readRecheck _ => (r.commitWord c).toNat = r.currentSeq
    | .appendPending _ list => list = r.pending
    | _ => True
  | .other =>
    match r.other with
    | .flushing .replace => ∀ seq ∈ r.lists r.pending, seq ∈ r.store
    | _ => True
  | _ => True

instance (r : DrainRun) (e : DrainEvent) : Decidable (r.Numbers e) := by
  unfold Numbers
  split
  · infer_instance
  · split <;> infer_instance
  · infer_instance

instance (c : DrainConfig) (r : DrainRun) (e : DrainEvent) : Decidable (r.Safe c e) := by
  unfold Safe
  split
  · split <;> infer_instance
  · split <;> infer_instance
  · infer_instance

/-! ## The store -/

theorem mem_foldl_insertRow {rows store : List Nat} {seq : Nat} :
    seq ∈ rows.foldl insertRow store ↔ seq ∈ store ∨ seq ∈ rows := by
  induction rows generalizing store with
  | nil => simp
  | cons row rows ih =>
    have hone : seq ∈ insertRow store row ↔ seq ∈ store ∨ seq = row := by
      unfold insertRow
      split
      · rename_i hmem
        constructor
        · exact Or.inl
        · rintro (h | rfl)
          · exact h
          · exact hmem
      · simp
    rw [List.foldl_cons, ih, hone, List.mem_cons, or_assoc]

/-- A tick is in the store or pending. -/
def Held (r : DrainRun) (seq : Nat) : Prop := seq ∈ r.store ∨ seq ∈ r.lists r.pending

/-- Where the worker's own flush stands: the list it has taken is pending, or the other thread has put an empty one in its place. -/
def OwnFlush (r : DrainRun) : FlushPc → Prop
  | .check => True
  | .take => True
  | .enter batch => batch < r.nextList ∧ (batch = r.pending ∨ r.lists r.pending = [])
  | .writing batch rows => batch < r.nextList ∧ (batch = r.pending ∨ r.lists r.pending = []) ∧ rows <+: r.lists batch
  | .replace => ∀ seq ∈ r.lists r.pending, seq ∈ r.store

/-- Where the thread of the worker stands. -/
def ThreadKept (r : DrainRun) : DrainPc → Prop
  | .count _ => r.Held r.currentSeq
  | .flush pc => r.OwnFlush pc
  | .finalFlush pc => r.OwnFlush pc
  | .exited => r.lists r.pending = []
  | _ => True

/-- Nothing that was counted is lost. -/
structure Kept (r : DrainRun) : Prop where
  fresh : r.pending < r.nextList
  counted : ∀ seq ∈ r.counted, r.Held seq
  thread : r.ThreadKept r.thread

theorem prefix_snoc {rows list : List Nat} {seq : Nat} (h : rows <+: list) (hnext : list[rows.length]? = some seq) :
    rows ++ [seq] <+: list := by
  obtain ⟨rest, rfl⟩ := h
  rw [List.getElem?_append_right (Nat.le_refl _), Nat.sub_self] at hnext
  cases rest with
  | nil => cases hnext
  | cons next rest =>
    cases hnext
    exact ⟨rest, by rw [List.append_assoc, List.singleton_append]⟩

theorem eq_of_prefix {rows list : List Nat} (h : rows <+: list) (hend : list[rows.length]? = none) : rows = list :=
  h.eq_of_length_le (List.getElem?_eq_none_iff.mp hend)

/-- What a step of a flush does, whichever thread it is of. -/
theorem flushStep_cases (r : DrainRun) (pc : FlushPc) :
    (r.flushStep pc).1 = r ∨
    (∃ batch rows, pc = .writing batch rows ∧ (r.lists batch)[rows.length]? = none ∧
      r.flushStep pc = ({ r with store := rows.foldl insertRow r.store }, some .replace)) ∨
    pc = .replace := by
  cases pc with
  | check => exact .inl rfl
  | take => exact .inl rfl
  | enter batch => exact .inl rfl
  | writing batch rows =>
    unfold flushStep
    rcases hnext : (r.lists batch)[rows.length]? with _ | seq
    · exact .inr (.inl ⟨batch, rows, rfl, hnext, by simp only [hnext]⟩)
    · left
      simp only [hnext]
  | replace => exact .inr (.inr rfl)

/-- A list that is replaced by an empty one loses nothing when its events were written. -/
theorem Held.replaced {seq : Nat} (h : r.Held seq) (hwritten : ∀ seq ∈ r.lists r.pending, seq ∈ r.store) :
    (r.flushStep .replace).1.Held seq := by
  left
  rcases h with h | h
  · exact h
  · exact hwritten seq h

theorem lists_replaced (r : DrainRun) : (r.flushStep .replace).1.lists (r.flushStep .replace).1.pending = [] := if_pos rfl

/-- The worker's own flush loses nothing. -/
theorem OwnFlush.step {pc : FlushPc} (h : r.OwnFlush pc) (hfresh : r.pending < r.nextList) (hcounted : ∀ seq ∈ r.counted, r.Held seq) :
    ((r.flushStep pc).1.pending < (r.flushStep pc).1.nextList ∧ ∀ seq ∈ (r.flushStep pc).1.counted, (r.flushStep pc).1.Held seq) ∧
      (∀ pc', (r.flushStep pc).2 = some pc' → (r.flushStep pc).1.OwnFlush pc') ∧
      ((r.flushStep pc).2 = none → (r.flushStep pc).1.lists (r.flushStep pc).1.pending = []) := by
  cases pc with
  | check =>
    refine ⟨⟨hfresh, hcounted⟩, ?_, ?_⟩
    · intro pc' hnext
      unfold flushStep at hnext
      dsimp only at hnext
      split at hnext
      · cases hnext
      · cases hnext
        trivial
    · intro hnext
      unfold flushStep at hnext
      dsimp only at hnext
      split at hnext
      · assumption
      · cases hnext
  | take =>
    refine ⟨⟨hfresh, hcounted⟩, ?_, fun hnext => nomatch hnext⟩
    intro pc' hnext
    cases hnext
    exact ⟨hfresh, .inl rfl⟩
  | enter batch =>
    refine ⟨⟨hfresh, hcounted⟩, ?_, fun hnext => nomatch hnext⟩
    intro pc' hnext
    unfold flushStep at hnext
    dsimp only at hnext
    split at hnext
    · cases hnext
      exact h
    · cases hnext
      exact ⟨h.1, h.2, List.nil_prefix⟩
  | writing batch rows =>
    obtain ⟨hbatch, hpending, hrows⟩ := h
    unfold flushStep
    dsimp only
    split
    · rename_i seq hnext
      refine ⟨⟨hfresh, hcounted⟩, ?_, fun hnext => nomatch hnext⟩
      intro pc' hpc'
      cases hpc'
      exact ⟨hbatch, hpending, prefix_snoc hrows hnext⟩
    · rename_i hend
      have hwhole := eq_of_prefix hrows hend
      refine ⟨⟨hfresh, ?_⟩, ?_, fun hnext => nomatch hnext⟩
      · intro seq hseq
        rcases hcounted seq hseq with h | h
        · exact .inl (mem_foldl_insertRow.mpr (.inl h))
        · exact .inr h
      · intro pc' hpc'
        cases hpc'
        intro seq hseq
        rcases hpending with rfl | hnil
        · exact mem_foldl_insertRow.mpr (.inr (hwhole ▸ hseq))
        · -- the other thread has put an empty list in place of the one that was taken, and only this thread appends
          have hseq' : seq ∈ r.lists r.pending := hseq
          rw [hnil] at hseq'
          cases hseq'
  | replace =>
    refine ⟨⟨Nat.lt_succ_self _, fun seq hseq => (hcounted seq hseq).replaced h⟩, fun _ hnext => (nomatch hnext), fun _ => ?_⟩
    exact lists_replaced r

/-- What the worker's thread has is kept when rows come to the store. -/
theorem ThreadKept.grow {pc : DrainPc} (h : r.ThreadKept pc) {store : List Nat} (hstore : ∀ seq ∈ r.store, seq ∈ store) :
    ThreadKept { r with store := store } pc := by
  have hown : ∀ pc, r.OwnFlush pc → OwnFlush { r with store := store } pc := by
    intro pc hpc
    cases pc with
    | check => trivial
    | take => trivial
    | enter batch => exact hpc
    | writing batch rows => exact hpc
    | replace => exact fun seq hseq => hstore seq (hpc seq hseq)
  cases pc with
  | count drained => exact h.imp (hstore _) id
  | flush pc => exact hown pc h
  | finalFlush pc => exact hown pc h
  | exited => exact h
  | _ => trivial

/-- What the worker's thread has is kept when the other thread puts an empty list in place of one whose events were written. -/
theorem ThreadKept.replaced {pc : DrainPc} (h : r.ThreadKept pc) (hwritten : ∀ seq ∈ r.lists r.pending, seq ∈ r.store) :
    (r.flushStep .replace).1.ThreadKept pc := by
  have hlists : ∀ batch, batch < r.nextList → (r.flushStep .replace).1.lists batch = r.lists batch :=
    fun batch hbatch => if_neg (Nat.ne_of_lt hbatch)
  have hown : ∀ pc, r.OwnFlush pc → (r.flushStep .replace).1.OwnFlush pc := by
    intro pc hpc
    cases pc with
    | check => trivial
    | take => trivial
    | enter batch => exact ⟨Nat.lt_succ_of_lt hpc.1, .inr (lists_replaced r)⟩
    | writing batch rows =>
      refine ⟨Nat.lt_succ_of_lt hpc.1, .inr (lists_replaced r), ?_⟩
      rw [hlists batch hpc.1]
      exact hpc.2.2
    | replace =>
      intro seq hseq
      rw [lists_replaced] at hseq
      cases hseq
  cases pc with
  | count drained => exact Held.replaced h hwritten
  | flush pc => exact hown pc h
  | finalFlush pc => exact hown pc h
  | exited => exact lists_replaced r
  | _ => trivial

theorem Kept.otherStep (h : r.Kept) (hsafe : r.Safe c .other) : r.otherStep.Kept := by
  unfold DrainRun.otherStep
  rcases hother : r.other with _ | _ | pc
  · exact h
  · exact ⟨h.fresh, h.counted, h.thread⟩
  · dsimp only
    rcases flushStep_cases r pc with hsame | ⟨batch, rows, rfl, -, hstep⟩ | rfl
    · rw [hsame]
      exact ⟨h.fresh, h.counted, h.thread⟩
    · rw [hstep]
      have hstore : ∀ seq ∈ r.store, seq ∈ rows.foldl insertRow r.store := fun seq hseq => mem_foldl_insertRow.mpr (.inl hseq)
      exact ⟨h.fresh, fun seq hseq => (h.counted seq hseq).imp (hstore seq) id, h.thread.grow hstore⟩
    · have hwritten : ∀ seq ∈ r.lists r.pending, seq ∈ r.store := by
        unfold Safe at hsafe
        rw [hother] at hsafe
        exact hsafe
      exact ⟨Nat.lt_succ_self _, fun seq hseq => (h.counted seq hseq).replaced hwritten, h.thread.replaced hwritten⟩

/-- Where the thread goes on to is kept. -/
theorem Kept.goto (h : r.Kept) {pc : DrainPc} (hpc : r.ThreadKept pc) : Kept { r with thread := pc } := ⟨h.fresh, h.counted, hpc⟩

theorem Kept.drainStep (h : r.Kept) {due : Bool} (hsafe : r.Safe c (.drain due)) : (r.drainStep c due).Kept := by
  have hthread := h.thread
  unfold Safe at hsafe
  dsimp only at hsafe
  unfold DrainRun.drainStep
  rcases hpc : r.thread with _ | _ | drained | drained | drained | ⟨drained, raw⟩ | ⟨drained, raw⟩ | drained | drained | drained |
    drained | drained | ⟨drained, list⟩ | drained | drained | pc | pc | _
  all_goals rw [hpc] at hsafe hthread
  all_goals dsimp only at hsafe ⊢
  · exact h
  · split <;> exact h.goto trivial
  · split
    · unfold checkLag
      dsimp only
      split <;> exact ⟨h.fresh, h.counted, trivial⟩
    · exact h.goto trivial
  · split <;> exact h.goto trivial
  · exact h.goto trivial
  · split <;> exact h.goto trivial
  · exact ⟨h.fresh, h.counted, trivial⟩
  · rw [if_neg hsafe]
    split
    · exact ⟨h.fresh, h.counted, trivial⟩
    · exact h.goto trivial
  · unfold nativeStep
    dsimp only
    split
    · split <;> exact ⟨h.fresh, h.counted, trivial⟩
    · exact ⟨h.fresh, h.counted, by rw [hpc]; trivial⟩
  · rw [if_pos hsafe]
    exact h.goto trivial
  · rw [if_pos hsafe]
    exact h.goto trivial
  · exact h.goto trivial
  · subst hsafe
    have happended : ∀ seq, r.Held seq ∨ seq = r.currentSeq → (r.appendTo r.pending r.currentSeq).Held seq := by
      intro seq hseq
      have hlist : (r.appendTo r.pending r.currentSeq).lists r.pending = r.lists r.pending ++ [r.currentSeq] := if_pos rfl
      rcases hseq with (hseq | hseq) | hseq
      · exact .inl hseq
      · exact .inr (hlist ▸ List.mem_append_left _ hseq)
      · exact .inr (hlist ▸ List.mem_append_right _ (List.mem_singleton.mpr hseq))
    exact ⟨h.fresh, fun seq hseq => happended seq (.inl (h.counted seq hseq)), happended _ (.inr rfl)⟩
  · refine ⟨h.fresh, ?_, trivial⟩
    intro seq hseq
    rcases List.mem_append.mp hseq with hseq | hseq
    · exact h.counted seq hseq
    · rw [List.mem_singleton.mp hseq]
      exact hthread
  · split <;> exact h.goto trivial
  · obtain ⟨⟨hfresh, hcounted⟩, hnext, -⟩ := OwnFlush.step hthread h.fresh h.counted
    refine ⟨hfresh, hcounted, ?_⟩
    rcases hpc' : (r.flushStep pc).2 with _ | pc'
    · trivial
    · exact hnext pc' hpc'
  · obtain ⟨⟨hfresh, hcounted⟩, hnext, hend⟩ := OwnFlush.step hthread h.fresh h.counted
    refine ⟨hfresh, hcounted, ?_⟩
    rcases hpc' : (r.flushStep pc).2 with _ | pc'
    · exact hend hpc'
    · exact hnext pc' hpc'
  · exact h

theorem Kept.step (h : r.Kept) {e : DrainEvent} (hsafe : r.Safe c e) : (r.step c e).Kept := by
  unfold DrainRun.step
  cases e with
  | write src => exact ⟨h.fresh, h.counted, h.thread⟩
  | writer => exact ⟨h.fresh, h.counted, h.thread⟩
  | start startSeq =>
    dsimp only
    unfold DrainRun.start
    split
    · exact ⟨h.fresh, h.counted, trivial⟩
    · exact h
  | drain due => exact h.drainStep hsafe
  | drainUntil targetSeq =>
    dsimp only
    split
    · exact ⟨h.fresh, h.counted, h.thread⟩
    · exact h
  | stop =>
    dsimp only
    split
    · exact ⟨h.fresh, h.counted, h.thread⟩
    · exact h
  | other => exact h.otherStep hsafe

/-- What was counted is in the store when the threads are done. -/
theorem Kept.stored (h : r.Kept) (hquiescent : r.Quiescent) : ∀ seq ∈ r.counted, seq ∈ r.store := by
  have hnil : r.lists r.pending = [] := by
    rcases hquiescent.2 with hexited | ⟨-, hnil⟩
    · have hthread := h.thread
      rw [hexited] at hthread
      exact hthread
    · exact hnil
  intro seq hseq
  rcases h.counted seq hseq with hstore | hpending
  · exact hstore
  · rw [hnil] at hpending
    cases hpending

/-! ## The journal -/

/-- The commit word of the current slot tells the current tick. -/
theorem commit_eq (hlt : r.currentSeq < uncommitted.toNat) (hcommit : (r.commitWord c).toNat = r.currentSeq) :
    r.shm.segment.commit (c.ring.slotOf (UInt64.ofNat r.currentSeq)) = UInt64.ofNat r.currentSeq := by
  have hslot : c.slotIdx r.currentSeq = c.ring.slotOf (UInt64.ofNat r.currentSeq) := by
    unfold DrainConfig.slotIdx ShmGeometry.slotOf
    rw [toNat_ofNat_of_lt hlt]
  have hword := congrArg UInt64.ofNat hcommit
  rw [UInt64.ofNat_toNat] at hword
  rw [← hslot]
  exact hword

/-- What the worker's thread knows of its tick. -/
def ThreadSound (c : DrainConfig) (r : DrainRun) : DrainPc → Prop
  | .copySlot _ => r.currentSeq < uncommitted.toNat ∧ r.shm.Fresh c.ring (UInt64.ofNat r.currentSeq) []
  | .recheck _ raw => r.currentSeq < uncommitted.toNat ∧
      (r.shm.Overwritten c.ring (UInt64.ofNat r.currentSeq) ∨ raw = UInt64.ofNat r.currentSeq)
  | .append _ raw => r.currentSeq < uncommitted.toNat ∧ raw = UInt64.ofNat r.currentSeq
  | .readHead _ => r.currentSeq < uncommitted.toNat
  | .readNative _ => r.currentSeq < uncommitted.toNat
  | .readCommit _ => r.currentSeq < uncommitted.toNat
  | .readRecheck _ => r.currentSeq < uncommitted.toNat
  | .loadPending _ => r.currentSeq < uncommitted.toNat
  | .appendPending _ _ => r.currentSeq < uncommitted.toNat
  | .count _ => r.currentSeq < uncommitted.toNat
  | _ => True

/-- The last entry of the journal is before the current tick, and a lap was counted if it is not the one before. -/
def LastBefore (r : DrainRun) : Prop :=
  ∀ a ∈ r.journal.getLast?, a.1.toNat < r.currentSeq ∧ a.2 ≤ r.lapsDetected ∧ (a.1.toNat + 1 ≠ r.currentSeq → a.2 < r.lapsDetected)

/-- The last entry of the journal is that of the current tick. -/
def LastIs (r : DrainRun) : Prop := r.journal.getLast? = some (UInt64.ofNat r.currentSeq, r.lapsDetected)

/-- Where the journal stands. -/
def JournalAt (r : DrainRun) : DrainPc → Prop
  | .notStarted => r.journal = []
  | .readHead _ => r.LastIs
  | .readNative _ => r.LastIs
  | .readCommit _ => r.LastIs
  | .readRecheck _ => r.LastIs
  | .loadPending _ => r.LastIs
  | .appendPending _ _ => r.LastIs
  | .count _ => r.LastIs
  | _ => r.LastBefore

/-- What holds after every step. -/
structure Sound (c : DrainConfig) (r : DrainRun) : Prop where
  shm : r.shm.Sound c.ring
  thread : r.ThreadSound c r.thread
  chain : r.journal.IsChain Follows
  journal : r.JournalAt r.thread

theorem ThreadSound.shm_step {pc : DrainPc} (h : r.ThreadSound c pc) (hshm : r.shm.Sound c.ring) (e : ShmEvent) :
    ThreadSound c { r with shm := r.shm.step c.ring e } pc := by
  cases pc with
  | copySlot drained => exact ⟨h.1, hshm.fresh_step (ofNat_ne_uncommitted h.1) h.2⟩
  | recheck drained raw => exact ⟨h.1, h.2.imp (ShmRun.Overwritten.mono (ShmRun.ticks_step c.ring r.shm e)) id⟩
  | append drained raw => exact h
  | readHead drained => exact h
  | readNative drained => exact h
  | readCommit drained => exact h
  | readRecheck drained => exact h
  | loadPending drained => exact h
  | appendPending drained list => exact h
  | count drained => exact h
  | _ => trivial

/-- The segment goes on. -/
theorem Sound.shm_step (h : r.Sound c) {e : ShmEvent} (he : r.shm.Numbers e) : Sound c { r with shm := r.shm.step c.ring e } :=
  ⟨h.shm.step he, h.thread.shm_step h.shm e, h.chain, h.journal⟩

/-- The thread goes on where the journal and the tick stay. -/
theorem Sound.goto (h : r.Sound c) {pc : DrainPc} (hpc : r.ThreadSound c pc) (hjournal : r.JournalAt pc) :
    Sound c { r with thread := pc } := ⟨h.shm, hpc, h.chain, hjournal⟩

/-- A flush concerns neither the segment nor the journal. -/
theorem flushStep_frame (r : DrainRun) (pc : FlushPc) :
    (r.flushStep pc).1.shm = r.shm ∧ (r.flushStep pc).1.currentSeq = r.currentSeq ∧ (r.flushStep pc).1.journal = r.journal ∧
      (r.flushStep pc).1.lapsDetected = r.lapsDetected ∧ (r.flushStep pc).1.thread = r.thread := by
  rcases flushStep_cases r pc with hsame | ⟨batch, rows, rfl, -, hstep⟩ | rfl
  · rw [hsame]
    exact ⟨rfl, rfl, rfl, rfl, rfl⟩
  · rw [hstep]
    exact ⟨rfl, rfl, rfl, rfl, rfl⟩
  · exact ⟨rfl, rfl, rfl, rfl, rfl⟩

theorem LastBefore.flushStep (h : r.LastBefore) (pc : FlushPc) : (r.flushStep pc).1.LastBefore := by
  obtain ⟨-, hcurrent, hjournal, hlaps, -⟩ := flushStep_frame r pc
  unfold LastBefore
  rw [hcurrent, hjournal, hlaps]
  exact h

theorem LastBefore.checkLag (h : r.LastBefore) : (r.checkLag c).LastBefore := by
  unfold DrainRun.checkLag
  dsimp only
  split
  · rename_i hlag
    intro a ha
    obtain ⟨hlt, hle, -⟩ := h a ha
    dsimp only
    exact ⟨by omega, by omega, fun _ => by omega⟩
  · exact h

theorem checkLag_frame (c : DrainConfig) (r : DrainRun) : (r.checkLag c).shm = r.shm ∧ (r.checkLag c).journal = r.journal := by
  unfold DrainRun.checkLag
  dsimp only
  split <;> exact ⟨rfl, rfl⟩

/-- The entry of a tick comes behind the last one. -/
theorem chain_append (hchain : r.journal.IsChain Follows) (hlast : r.LastBefore) (hlt : r.currentSeq < uncommitted.toNat) :
    (r.journal ++ [(UInt64.ofNat r.currentSeq, r.lapsDetected)]).IsChain Follows := by
  rw [List.isChain_append]
  refine ⟨hchain, List.isChain_singleton _, ?_⟩
  intro a ha b hb
  cases hb
  obtain ⟨hbefore, -, hjump⟩ := hlast a ha
  have hnat : (UInt64.ofNat r.currentSeq).toNat = r.currentSeq := toNat_ofNat_of_lt hlt
  refine ⟨UInt64.lt_iff_toNat_lt.mpr (by rw [hnat]; exact hbefore), ?_⟩
  intro hne
  rw [hnat] at hne
  exact hjump (fun heq => hne heq.symm)

theorem Sound.drainStep (h : r.Sound c) {due : Bool} (hnumber : r.Numbers (.drain due)) : (r.drainStep c due).Sound c := by
  have hthread := h.thread
  have hjournal := h.journal
  unfold Numbers at hnumber
  dsimp only at hnumber
  unfold DrainRun.drainStep
  rcases hpc : r.thread with _ | _ | drained | drained | drained | ⟨drained, raw⟩ | ⟨drained, raw⟩ | drained | drained | drained |
    drained | drained | ⟨drained, list⟩ | drained | drained | pc | pc | _
  all_goals rw [hpc] at hnumber hthread hjournal
  all_goals dsimp only at hnumber ⊢
  · exact h
  · split <;> exact h.goto trivial hjournal
  · split
    · refine ⟨(checkLag_frame c r).1 ▸ h.shm, trivial, (checkLag_frame c r).2 ▸ h.chain, hjournal.checkLag⟩
    · exact h.goto trivial hjournal
  · split
    · rename_i hcommit
      have hlt : r.currentSeq < uncommitted.toNat := by
        have := (r.commitWord c).toNat_lt
        rw [toNat_uncommitted] at hnumber ⊢
        omega
      have hword := commit_eq hlt hcommit
      obtain ⟨src, hcommitted⟩ := h.shm.committed (ofNat_ne_uncommitted hlt) hword
      exact h.goto ⟨hlt, .inr ⟨hword, src, hcommitted.begun, rfl⟩⟩ hjournal
    · exact h.goto trivial hjournal
  · refine h.goto ⟨hthread.1, ?_⟩ hjournal
    rcases hthread.2 with hover | ⟨hword, -⟩
    · exact .inl hover
    · right
      have hslot : c.slotIdx r.currentSeq = c.ring.slotOf (UInt64.ofNat r.currentSeq) := by
        unfold DrainConfig.slotIdx ShmGeometry.slotOf
        rw [toNat_ofNat_of_lt hthread.1]
      unfold commitWord
      rw [hslot]
      exact hword
  · split
    · rename_i hcommit
      refine h.goto ⟨hthread.1, ?_⟩ hjournal
      rcases hthread.2 with hover | hraw
      · exact absurd hover (h.shm.not_overwritten (ofNat_ne_uncommitted hthread.1) (commit_eq hthread.1 hcommit))
      · exact hraw
    · exact h.goto trivial hjournal
  · obtain ⟨hlt, rfl⟩ := hthread
    exact ⟨h.shm, hlt, chain_append h.chain hjournal hlt, List.getLast?_concat⟩
  · split
    · exact h.goto hthread hjournal
    · split
      · have hread : r.shm.Numbers (.read 0 (UInt64.ofNat r.currentSeq)) := ofNat_ne_uncommitted hthread
        exact ⟨h.shm.step hread, hthread, h.chain, hjournal⟩
      · exact h.goto hthread hjournal
  · have hshm : (r.shm.step c.ring (.reader 0)).Sound c.ring := h.shm.step trivial
    unfold nativeStep
    dsimp only
    split
    · split
      · exact ⟨hshm, hthread, h.chain, hjournal⟩
      · exact ⟨hshm, hthread, h.chain, hjournal⟩
    · exact ⟨hshm, by rw [hpc]; exact hthread, h.chain, by rw [hpc]; exact hjournal⟩
  · split <;> exact h.goto hthread hjournal
  · split <;> exact h.goto hthread hjournal
  · exact h.goto hthread hjournal
  · exact ⟨h.shm, hthread, h.chain, hjournal⟩
  · refine ⟨h.shm, trivial, h.chain, ?_⟩
    intro a ha
    have ha' : a ∈ r.journal.getLast? := ha
    rw [hjournal] at ha'
    cases ha'
    have hnat : (UInt64.ofNat r.currentSeq).toNat = r.currentSeq := toNat_ofNat_of_lt hthread
    dsimp only
    rw [hnat]
    exact ⟨Nat.lt_succ_self _, Nat.le_refl _, fun hne => absurd rfl hne⟩
  · split <;> exact h.goto trivial hjournal
  · obtain ⟨hshm, -, hentries, -⟩ := flushStep_frame r pc
    have hlast : (r.flushStep pc).1.LastBefore := LastBefore.flushStep hjournal pc
    rcases (r.flushStep pc).2 with _ | pc'
    · exact ⟨hshm ▸ h.shm, trivial, hentries ▸ h.chain, hlast⟩
    · exact ⟨hshm ▸ h.shm, trivial, hentries ▸ h.chain, hlast⟩
  · obtain ⟨hshm, -, hentries, -⟩ := flushStep_frame r pc
    have hlast : (r.flushStep pc).1.LastBefore := LastBefore.flushStep hjournal pc
    rcases (r.flushStep pc).2 with _ | pc'
    · exact ⟨hshm ▸ h.shm, trivial, hentries ▸ h.chain, hlast⟩
    · exact ⟨hshm ▸ h.shm, trivial, hentries ▸ h.chain, hlast⟩
  · exact h

/-- Neither the lists nor the store nor the other thread matter here. -/
theorem Sound.congr (h : r.Sound c) (hshm : r'.shm = r.shm) (hcurrent : r'.currentSeq = r.currentSeq) (hjournal : r'.journal = r.journal)
    (hlaps : r'.lapsDetected = r.lapsDetected) (hthread : r'.thread = r.thread) : r'.Sound c := by
  obtain ⟨shm, currentSeq, stopEvent, thread, other, pending, lists, nextList, journal, store, counted, lastDrainedSeq,
    lapsDetected⟩ := r'
  dsimp only at hshm hcurrent hjournal hlaps hthread
  subst hshm hcurrent hjournal hlaps hthread
  exact ⟨h.shm, h.thread, h.chain, h.journal⟩

theorem Sound.otherStep (h : r.Sound c) : r.otherStep.Sound c := by
  unfold DrainRun.otherStep
  rcases r.other with _ | _ | pc
  · exact h
  · exact h.congr rfl rfl rfl rfl rfl
  · obtain ⟨hshm, hcurrent, hentries, hlaps, hthread⟩ := flushStep_frame r pc
    exact h.congr hshm hcurrent hentries hlaps hthread

theorem Sound.step (h : r.Sound c) {e : DrainEvent} (hnumber : r.Numbers e) : (r.step c e).Sound c := by
  unfold DrainRun.step
  cases e with
  | write src => exact h.shm_step hnumber
  | writer => exact h.shm_step trivial
  | start startSeq =>
    dsimp only
    unfold DrainRun.start
    split
    · rename_i hpc
      have hjournal := h.journal
      rw [hpc] at hjournal
      refine ⟨h.shm, trivial, h.chain, ?_⟩
      intro a ha
      have ha' : a ∈ r.journal.getLast? := ha
      rw [show r.journal = [] from hjournal] at ha'
      cases ha'
    · exact h
  | drain due => exact h.drainStep hnumber
  | drainUntil targetSeq =>
    dsimp only
    split
    · exact h.congr rfl rfl rfl rfl rfl
    · exact h
  | stop =>
    dsimp only
    split
    · exact h.congr rfl rfl rfl rfl rfl
    · exact h
  | other => exact h.otherStep

theorem Sound.init (c : DrainConfig) : Sound c {} := ⟨.init c.ring, trivial, List.isChain_nil, rfl⟩

theorem Kept.init : Kept {} := ⟨by decide, fun _ hseq => (nomatch hseq), trivial⟩

end DrainRun

/-- In every run that keeps clear of the mark of an uncommitted slot the journal is in order, with a lap counted at every jump. In
every run in which the second read of a slot finds its tick and no list with an unwritten event is replaced by the other thread, what
was counted is in the store when the threads are done. -/
theorem drained_once (c : DrainConfig) (es : List DrainEvent) :
    (Along (DrainRun.step c) DrainRun.Numbers {} es → (runFrom (DrainRun.step c) {} es).journal.IsChain DrainRun.Follows) ∧
      (Along (DrainRun.step c) (DrainRun.Safe c) {} es → (runFrom (DrainRun.step c) {} es).Quiescent →
        ∀ seq ∈ (runFrom (DrainRun.step c) {} es).counted, seq ∈ (runFrom (DrainRun.step c) {} es).store) := by
  constructor
  · intro hnumbers
    exact (hnumbers.inv (fun _ _ hr he => DrainRun.Sound.step hr he) (.init c)).chain
  · intro hsafe hquiescent
    exact (hsafe.inv (fun _ _ hr he => DrainRun.Kept.step hr he) .init).stored hquiescent

/-- A worker without the native read, on a ring of two slots. -/
def plainDrainer : DrainConfig := ⟨twoSlots, 1000, false⟩

/-- A tick is written and published. -/
def tickWritten : List DrainEvent := .write (fun _ => 0) :: List.replicate 18 .writer

/-- A tick is drained, and the worker is stopped. -/
def drainedAlone : List DrainEvent :=
  .start none :: tickWritten ++ List.replicate 15 (.drain false) ++ [.stop] ++ List.replicate 9 (.drain false) ++ [.other, .other]

/-- A tick comes to the pending list when the other thread has written the list and not yet put an empty one in its place. -/
def drainedBetween : List DrainEvent :=
  .start none :: tickWritten ++ List.replicate 12 (.drain false) ++ .drainUntil 0 :: List.replicate 5 .other ++ tickWritten ++
    List.replicate 11 (.drain false) ++ [.other, .stop, .other] ++ List.replicate 6 (.drain false) ++ [.other]

/-- The tick of a worker that nobody disturbs. -/
theorem drained_once_alone :
    (runFrom (DrainRun.step plainDrainer) {} drainedAlone).journal.IsChain DrainRun.Follows ∧
      0 ∈ (runFrom (DrainRun.step plainDrainer) {} drainedAlone).counted ∧
      0 ∈ (runFrom (DrainRun.step plainDrainer) {} drainedAlone).store := by
  have hcounted : 0 ∈ (runFrom (DrainRun.step plainDrainer) {} drainedAlone).counted := by decide
  have hquiescent : (runFrom (DrainRun.step plainDrainer) {} drainedAlone).Quiescent :=
    ⟨by decide, .inl (by decide)⟩
  obtain ⟨hjournal, hstored⟩ := drained_once plainDrainer drainedAlone
  exact ⟨hjournal (by decide), hcounted, hstored (by decide) hquiescent 0 hcounted⟩

/-- A tick that was counted can be missing from the store. -/
theorem drained_once_false :
    ¬∀ (c : DrainConfig) (es : List DrainEvent), (runFrom (DrainRun.step c) {} es).journal.IsChain DrainRun.Follows ∧
      ((runFrom (DrainRun.step c) {} es).Quiescent →
        ∀ seq ∈ (runFrom (DrainRun.step c) {} es).counted, seq ∈ (runFrom (DrainRun.step c) {} es).store) := by
  intro h
  have hquiescent : (runFrom (DrainRun.step plainDrainer) {} drainedBetween).Quiescent :=
    ⟨by decide +kernel, .inl (by decide +kernel)⟩
  have hstored := (h plainDrainer drainedBetween).2 hquiescent 1 (by decide +kernel)
  have hmissing : 1 ∉ (runFrom (DrainRun.step plainDrainer) {} drainedBetween).store := by decide +kernel
  exact hmissing hstored

end Mdrap
