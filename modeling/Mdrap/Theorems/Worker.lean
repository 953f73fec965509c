import Mdrap.Engine.Exact
import Mdrap.Lemmas.Sqlite
import Mdrap.Projection.Worker

/-!
# The checkpoint of the projection worker

Items get lost at two places, at a full queue and when a batch is dropped after its last attempt. The checkpoint stays before a
lost item where the batches that are let through have no holes and follow the stored checkpoint.
-/

namespace Mdrap

open Lib

variable {V : Type}

@[simp] theorem BatchItem.queued_offset (item : BatchItem V) (n : Nat) : (item.queued n).offset = n := by
  cases item <;> rfl

namespace WorkerRun

/-- The queue holds items that were taken, in the order of their offsets; the last item of the batch has the highest offset so
far, and the items in the queue have higher ones. -/
structure Sound (r : WorkerRun V) : Prop where
  ahead : r.worker.projection.Ahead
  taken : ∀ q ∈ r.worker.batch ++ r.worker.queue, q ∈ r.taken
  sorted : r.worker.queue.Pairwise (fun a b => a.offset < b.offset)
  next : ∀ q ∈ r.worker.queue, q.offset < r.nextOffset
  highest : r.worker.highestOffset < r.nextOffset
  above : ∀ q ∈ r.worker.queue, r.worker.highestOffset < q.offset
  last : ∀ q ∈ r.worker.batch.getLast?, (q.offset : Int) = r.worker.highestOffset
  writing : r.worker.attemptsLeft ≠ 0 → r.worker.batch ≠ []
  delivered : r.Delivered

theorem Sound.new (start size batch : Int) (retries : Nat) : Sound (new start size batch retries : WorkerRun V) where
  ahead := .openOn (by simp [Database.empty]) start
  taken := by simp [WorkerRun.new, AsyncProjectionWorker.new]
  sorted := by simp [WorkerRun.new, AsyncProjectionWorker.new]
  next := by simp [WorkerRun.new, AsyncProjectionWorker.new]
  highest := by simp [WorkerRun.new, AsyncProjectionWorker.new]
  above := by simp [WorkerRun.new, AsyncProjectionWorker.new]
  last := by simp [WorkerRun.new, AsyncProjectionWorker.new]
  writing := by simp [WorkerRun.new, AsyncProjectionWorker.new]
  delivered := by
    intro n hn
    simp only [WorkerRun.new, AsyncProjectionWorker.new, AsyncProjectionWorker.checkpoint, SqliteProjection.checkpoint,
      SqliteProjection.openOn, Database.empty, Option.getD_none] at hn
    omega

/-- A full queue changes nothing but the offset of the next item. -/
theorem Sound.drop {r : WorkerRun V} (h : Sound r) : Sound { r with nextOffset := r.nextOffset + 1 } where
  ahead := h.ahead
  taken := h.taken
  sorted := h.sorted
  next := fun q hq => (h.next q hq).trans (Nat.lt_succ_self _)
  highest := by have := h.highest; push_cast; omega
  above := h.above
  last := h.last
  writing := h.writing
  delivered := h.delivered

theorem Sound.take {r : WorkerRun V} (h : Sound r) (item : BatchItem V) :
    Sound { r with
      worker := { r.worker with queue := r.worker.queue ++ [item.queued r.nextOffset] }
      nextOffset := r.nextOffset + 1
      taken := r.taken ++ [item.queued r.nextOffset] } where
  ahead := h.ahead
  taken := by
    intro q hq
    simp only [← List.append_assoc, List.mem_append] at hq ⊢
    exact hq.imp_left (fun hq => h.taken q (List.mem_append.mpr hq))
  sorted := by
    refine List.pairwise_append.mpr ⟨h.sorted, List.pairwise_singleton _ _, ?_⟩
    intro a ha b hb
    rw [List.mem_singleton] at hb
    simpa [hb] using h.next a ha
  next := by
    intro q hq
    rcases List.mem_append.mp hq with hq | hq
    · exact (h.next q hq).trans (Nat.lt_succ_self _)
    · rw [List.mem_singleton] at hq
      simp [hq]
  highest := by have := h.highest; push_cast; omega
  above := by
    intro q hq
    rcases List.mem_append.mp hq with hq | hq
    · exact h.above q hq
    · rw [List.mem_singleton] at hq
      simpa [hq] using h.highest
  last := h.last
  writing := h.writing
  delivered := by
    intro n hn
    obtain ⟨q, hq, hn, hb⟩ := h.delivered n hn
    exact ⟨q, List.mem_append_left _ hq, hn, hb⟩

theorem Sound.pull {r : WorkerRun V} (h : Sound r) : Sound { r with worker := r.worker.pull } := by
  rcases hq : r.worker.queue with _ | ⟨q, queue⟩
  · simpa [AsyncProjectionWorker.pull, hq] using h
  · have habove := h.above q (by simp [hq])
    have hsorted := h.sorted
    rw [hq, List.pairwise_cons] at hsorted
    have htaken := h.taken
    have hnext := h.next
    rw [hq] at htaken hnext
    simp only [AsyncProjectionWorker.pull, hq, habove, if_true]
    exact {
      ahead := h.ahead
      taken := by simpa using htaken
      sorted := hsorted.2
      next := fun a ha => hnext a (List.mem_cons_of_mem _ ha)
      highest := by have := hnext q (List.mem_cons_self ..); simpa using this
      above := fun a ha => by simpa using hsorted.1 a ha
      last := by simp
      writing := by simp
      delivered := h.delivered }

/-- A batch that is dropped is not needed for anything that holds so far. -/
theorem Sound.clear {r : WorkerRun V} (h : Sound r) :
    Sound { r with worker := { r.worker with batch := [], attemptsLeft := 0 } } where
  ahead := h.ahead
  taken := fun q hq => h.taken q (List.mem_append_right _ (by simpa using hq))
  sorted := h.sorted
  next := h.next
  highest := h.highest
  above := h.above
  last := by simp
  writing := by simp
  delivered := h.delivered

theorem Sound.attemptsLeft {r : WorkerRun V} (h : Sound r) (hne : r.worker.batch ≠ []) (left : Nat) :
    Sound { r with worker := { r.worker with attemptsLeft := left } } :=
  ⟨h.ahead, h.taken, h.sorted, h.next, h.highest, h.above, h.last, fun _ => hne, h.delivered⟩

theorem Sound.turn {r : WorkerRun V} (h : Sound r) (hidle : r.worker.attemptsLeft = 0) (due : Bool) :
    Sound { r with worker := r.worker.turn due } := by
  have hpull := h.pull
  have hleft : r.worker.pull.attemptsLeft = 0 := by
    rw [AsyncProjectionWorker.pull]
    split <;> exact hidle
  rw [AsyncProjectionWorker.turn]
  split
  · rename_i hdue
    split
    · have hclear := hpull.clear
      simpa only [← hleft] using hclear
    · exact hpull.attemptsLeft hdue.1 _
  · exact hpull

/-- A batch without holes has every offset from its first to the highest one. -/
theorem Sound.mem_batch {r : WorkerRun V} (h : Sound r) (hhole : NoHole r.worker.batch) {n : Nat}
    (hlo : (r.worker.batch.map Queued.offset).headD 0 ≤ n) (hhi : (n : Int) ≤ r.worker.highestOffset) (hne : r.worker.batch ≠ []) :
    ∃ q ∈ r.worker.batch, q.offset = n := by
  obtain ⟨q, hq⟩ : ∃ q, r.worker.batch.getLast? = some q := ⟨_, List.getLast?_eq_some_getLast hne⟩
  have hlast := h.last q hq
  have hmem : q.offset ∈ r.worker.batch.map Queued.offset := List.mem_map_of_mem (List.mem_of_getLast? hq)
  rw [hhole, List.mem_range'_1] at hmem
  have hn : n ∈ r.worker.batch.map Queued.offset := by
    rw [hhole, List.mem_range'_1]
    omega
  obtain ⟨a, ha, heq⟩ := List.mem_map.mp hn
  exact ⟨a, ha, heq⟩

/-- The projection may have moved its checkpoint, where the batch was committed. -/
theorem Sound.project {r : WorkerRun V} (h : Sound r) (hne : r.worker.batch ≠ []) {p : SqliteProjection V} {committed : Prop}
    (hmoves : r.worker.projection.Moves r.worker.items r.worker.highestOffset committed p)
    (hfollows : r.worker.projection.Admits r.worker.items r.worker.highestOffset →
      NoHole r.worker.batch ∧ ((r.worker.batch.map Queued.offset).headD 0 : Int) ≤ r.worker.checkpoint + 1)
    {batches : List (List (Queued V))} (hold : ∀ b ∈ r.committed, b ∈ batches) (hnew : committed → r.worker.batch ∈ batches) :
    Sound { r with worker := { r.worker with projection := p }, committed := batches } := by
  refine ⟨hmoves.ahead, h.taken, h.sorted, h.next, h.highest, h.above, h.last, h.writing, ?_⟩
  have hbefore : ∀ n : Nat, n ≤ r.worker.checkpoint → ∃ q ∈ r.taken, q.offset = n ∧ ∃ b ∈ batches, q ∈ b := by
    intro n hn
    obtain ⟨q, hq, hqn, b, hb, hqb⟩ := h.delivered n hn
    exact ⟨q, hq, hqn, b, hold b hb, hqb⟩
  intro n hn
  rcases hmoves.stored with hcp | ⟨hcommitted, hadmits, hcp⟩
  · refine hbefore n ?_
    simpa [AsyncProjectionWorker.checkpoint, SqliteProjection.checkpoint, hcp] using hn
  · obtain ⟨hhole, hhead⟩ := hfollows hadmits
    have hle : (n : Int) ≤ r.worker.highestOffset := by
      simpa [AsyncProjectionWorker.checkpoint, SqliteProjection.checkpoint, hcp] using hn
    by_cases hlo : (r.worker.batch.map Queued.offset).headD 0 ≤ n
    · obtain ⟨q, hq, hqn⟩ := h.mem_batch hhole hlo hle hne
      exact ⟨q, h.taken q (List.mem_append_left _ hq), hqn, _, hnew hcommitted, hq⟩
    · exact hbefore n (by omega)

theorem Sound.attempt (P : Py V) {r : WorkerRun V} (h : Sound r) (hne : r.worker.batch ≠ []) (fault : Stmt → Option SqlFault)
    (he : r.FollowsStored (.attempt fault)) {ok : Bool} {w : AsyncProjectionWorker V} (ha : r.worker.attempt P fault = (ok, w)) :
    Sound { r with worker := w, committed := if ok then r.committed ++ [r.worker.batch] else r.committed } := by
  rw [AsyncProjectionWorker.attempt] at ha
  rcases hp : r.worker.projection.apply P r.worker.items r.worker.highestOffset [fault] with ⟨res, p⟩
  have hmoves := SqliteProjection.apply_moves h.ahead hp
  rw [hp] at ha
  split at ha
  · rename_i heq
    cases heq
    have hproj := h.project hne hmoves he (fun b hb => hb) nofun
    cases ha
    split
    · exact hproj.clear
    · exact hproj.attemptsLeft hne _
  · rename_i heq
    cases heq
    cases ha
    exact (h.project hne hmoves he (fun b hb => List.mem_append_left _ hb) (fun _ => by simp)).clear

theorem Sound.step (P : Py V) (r : WorkerRun V) (e : WorkerEvent V) (h : Sound r) (he : r.FollowsStored e) :
    Sound (r.step P e) := by
  cases e with
  | enqueue item =>
    rw [WorkerRun.step, AsyncProjectionWorker.enqueue]
    split
    · rename_i heq
      split at heq <;> cases heq
      exact h.take item
    · rename_i heq
      split at heq <;> cases heq
      exact h.drop
  | turn due =>
    rw [WorkerRun.step]
    split
    · rename_i hidle
      exact h.turn hidle due
    · exact h
  | attempt fault =>
    rw [WorkerRun.step]
    split
    · exact h
    · rename_i hleft
      split
      · rename_i ha
        exact h.attempt P (h.writing hleft) fault he ha
      · rename_i ha
        exact h.attempt P (h.writing hleft) fault he ha

end WorkerRun

/-- Over any interleaving of the calls of `enqueue`, the loop and its attempts, wherever it is cut, every offset up to the
checkpoint is of an item that the queue took and that is in a committed batch, as long as every batch that is let through has no
hole and follows the stored checkpoint. -/
theorem worker_delivered (P : Py V) (start size batch : Int) (retries : Nat) (events : List (WorkerEvent V))
    (hfollows : Along (WorkerRun.step P) WorkerRun.FollowsStored (.new start size batch retries) events) :
    ∀ run, run <+: events → (runFrom (WorkerRun.step P) (.new start size batch retries) run).Delivered := by
  intro run hrun
  have hinv : (runFrom (WorkerRun.step P) (.new start size batch retries) run).Sound :=
    hfollows.inv_prefix (WorkerRun.Sound.step P) (.new start size batch retries) hrun
  exact hinv.delivered

/-- The decision on a record without an instrument. -/
def BatchItem.noInstrument : BatchItem V :=
  .decision (.quarantined 0 .schemaViolation (.noInstrument "q_feed" (.str "feed") (.obj []) (.int 1)))

/-- A queue of one place: the first item is written in the second attempt, the third one finds the queue full. -/
theorem worker_delivered_full :
    (runFrom (WorkerRun.step exactPy) (.new 0 1 1 3) [.enqueue .noInstrument, .turn false,
      .attempt (fun s => if s = .begin then some .busy else none), .enqueue .noInstrument, .enqueue .noInstrument,
      .attempt (fun _ => none), .turn false, .attempt (fun _ => none)]).worker.checkpoint = 1 ∧
    ∀ run, run <+: [.enqueue .noInstrument, .turn false, .attempt (fun s => if s = .begin then some .busy else none),
      .enqueue .noInstrument, .enqueue .noInstrument, .attempt (fun _ => none), .turn false, .attempt (fun _ => none)] →
      (runFrom (WorkerRun.step exactPy) (.new 0 1 1 3) run).Delivered :=
  ⟨by decide, worker_delivered exactPy 0 1 1 3 _ (by decide)⟩

/-- The queue has one place. The second item finds it full, the first and the third one are written as one batch, and the
checkpoint covers the second. -/
theorem worker_delivered_false :
    ¬(runFrom (WorkerRun.step exactPy) (.new 0 1 2 3) [.enqueue .noInstrument, .enqueue .noInstrument, .turn false,
      .enqueue .noInstrument, .turn false, .attempt (fun _ => none)]).Delivered := by
  intro h
  have hmissing : ¬∃ q ∈ (runFrom (WorkerRun.step exactPy) (.new 0 1 2 3) [.enqueue .noInstrument, .enqueue .noInstrument, .turn false,
      .enqueue .noInstrument, .turn false, .attempt (fun _ => none)]).taken, q.offset = 1 := by
    decide
  obtain ⟨q, hq, hn, -⟩ := h 1 (by decide)
  exact hmissing ⟨q, hq, hn⟩

end Mdrap
