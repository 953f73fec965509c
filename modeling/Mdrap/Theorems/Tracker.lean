import Mdrap.Engine.Exact
import Mdrap.Projection.Tracker

/-!
# The projection tracker loses no batch

A drain removes as many batches from the front of the queue as it has taken. These are the ones it has taken where no batch came
in before them in the meantime.
-/

namespace Mdrap

open Lib

variable {V : Type}

namespace ProjectionTracker

/-- Where there is room, a batch is put behind those whose offsets are not greater. -/
theorem push_eq {t : ProjectionTracker V} (hroom : t.pendingBatches.length < t.maxPending)
    (hsorted : SortedBy PendingBatch.offset t.pendingBatches) (b : PendingBatch V) :
    t.push b = { t with pendingBatches := insertBy PendingBatch.offset b t.pendingBatches } := by
  rw [push, if_neg (not_le.mpr hroom)]
  rcases List.eq_nil_or_concat t.pendingBatches with hnil | ⟨bs, last, hbs⟩
  · rw [hnil]
    rfl
  · rw [List.concat_eq_append] at hbs
    rw [hbs] at hsorted ⊢
    simp only [List.getLast?_append, List.getLast?_singleton, Option.some_or]
    split
    · rename_i hle
      rw [insertBy_of_le]
      intro y hy
      rcases List.mem_append.mp hy with hy | hy
      · exact (hsorted.last y hy).trans hle
      · rw [List.mem_singleton] at hy
        exact hy ▸ hle
    · rw [hsorted.sortBy_append]

@[simp] theorem noteOffset_pendingBatches (t : ProjectionTracker V) (offset : Int) :
    (t.noteOffset offset).pendingBatches = t.pendingBatches := by
  rw [noteOffset]
  split <;> rfl

@[simp] theorem noteOffset_maxPending (t : ProjectionTracker V) (offset : Int) : (t.noteOffset offset).maxPending = t.maxPending := by
  rw [noteOffset]
  split <;> rfl

@[simp] theorem noteOffset_walCatchupNeeded (t : ProjectionTracker V) (offset : Int) :
    (t.noteOffset offset).walCatchupNeeded = t.walCatchupNeeded := by
  rw [noteOffset]
  split <;> rfl

@[simp] theorem failed_pendingBatches (t : ProjectionTracker V) (taken : List (PendingBatch V)) :
    (t.failed taken).pendingBatches = t.pendingBatches := by
  rw [failed]
  split <;> rfl

@[simp] theorem failed_walCatchupNeeded (t : ProjectionTracker V) (taken : List (PendingBatch V)) :
    (t.failed taken).walCatchupNeeded = t.walCatchupNeeded := by
  rw [failed]
  split <;> rfl

/-- The checkpoint of the projection is noted, and nothing else. -/
theorem checkpoint_keeps (t : ProjectionTracker V) (stored : Option Int) :
    (t.checkpoint stored).2.pendingBatches = t.pendingBatches ∧ (t.checkpoint stored).2.walCatchupNeeded = t.walCatchupNeeded := by
  cases stored with
  | none => exact ⟨rfl, rfl⟩
  | some c =>
    rw [checkpoint]
    split <;> exact ⟨rfl, rfl⟩

theorem gather_prefix (batchSize : Nat) (bs : List (PendingBatch V)) :
    ∀ (expected : Option Int) (size : Nat), gather batchSize bs expected size <+: bs := by
  induction bs with
  | nil => intro expected size; exact List.prefix_refl _
  | cons b bs ih =>
    intro expected size
    rw [gather]
    split
    · exact List.nil_prefix
    · split
      · exact List.prefix_append [b] bs
      · exact (List.prefix_cons_inj b).mpr (ih _ _)

/-- What is taken stands at the front of the queue, which is not changed. -/
theorem pick_keeps {t t' : ProjectionTracker V} {stored : Option Int} {taken : List (PendingBatch V)}
    (h : t.pick stored = (taken, t')) :
    taken <+: t'.pendingBatches ∧ t'.pendingBatches = t.pendingBatches ∧ t'.walCatchupNeeded = t.walCatchupNeeded := by
  rw [pick] at h
  split at h
  · cases h
    exact ⟨List.nil_prefix, rfl, rfl⟩
  · rename_i b bs hpending
    rcases hcp : (if t.lastContiguousOffset < 0 then t.checkpoint stored else (t.lastContiguousOffset, t)) with ⟨cp, u⟩
    have hkeeps : u.pendingBatches = t.pendingBatches ∧ u.walCatchupNeeded = t.walCatchupNeeded := by
      split at hcp
      · have := t.checkpoint_keeps stored
        rwa [hcp] at this
      · cases hcp
        exact ⟨rfl, rfl⟩
    simp only [hcp] at h
    generalize (if 0 ≤ cp then some (cp + 1) else u.expectedStartOffset) = expected at h
    split at h
    · cases h
      exact ⟨List.nil_prefix, hkeeps⟩
    · cases h
      refine ⟨?_, hkeeps⟩
      rw [hkeeps.1, hpending]
      split
      · exact gather_prefix _ _ _ _
      · exact List.prefix_append [b] bs

end ProjectionTracker

namespace TrackerRun

/-- The queue is sorted, what a drain has taken stands at its front, and nothing is lost. -/
structure Sound (r : TrackerRun V) : Prop where
  sorted : SortedBy PendingBatch.offset r.tracker.pendingBatches
  caughtUp : r.tracker.walCatchupNeeded = false
  front : r.taken <+: r.tracker.pendingBatches
  called : ∀ taken, r.phase = .applied taken → taken ∈ r.calls
  nothingLost : r.NothingLost

theorem Sound.new {t : ProjectionTracker V} (hpending : t.pendingBatches = []) (hcaught : t.walCatchupNeeded = false) :
    Sound (new t) where
  sorted := by rw [TrackerRun.new, hpending]; exact List.Pairwise.nil
  caughtUp := hcaught
  front := List.nil_prefix
  called := nofun
  nothingLost := by simp [NothingLost, TrackerRun.new]

/-- A batch that belongs behind what a drain has taken leaves that at the front. -/
theorem Sound.push {r : TrackerRun V} (h : Sound r) {t : ProjectionTracker V} (hpending : t.pendingBatches = r.tracker.pendingBatches)
    (hcaught : t.walCatchupNeeded = false) (hroom : t.pendingBatches.length < t.maxPending) {b : PendingBatch V}
    (hbehind : ∀ a ∈ r.taken, a.offset ≤ b.offset) :
    Sound { r with tracker := t.push b, submitted := r.submitted ++ [b] } := by
  have hsorted := h.sorted
  rw [← hpending] at hsorted
  rw [ProjectionTracker.push_eq hroom hsorted]
  refine ⟨hsorted.insertBy, hcaught, ?_, h.called, ?_⟩
  · obtain ⟨rest, hrest⟩ := h.front
    change r.taken <+: insertBy PendingBatch.offset b t.pendingBatches
    rw [hpending, ← hrest, insertBy_append hbehind]
    exact List.prefix_append _ _
  · intro a ha
    rcases List.mem_append.mp ha with ha | ha
    · refine (h.nothingLost a ha).imp_left (fun hmem => ?_)
      exact mem_insertBy.mpr (.inr (hpending ▸ hmem))
    · rw [List.mem_singleton] at ha
      exact .inl (mem_insertBy.mpr (.inl ha))

theorem Sound.quiet {r : TrackerRun V} (h : Sound r) {t : ProjectionTracker V} (hpending : t.pendingBatches = r.tracker.pendingBatches)
    (hcaught : t.walCatchupNeeded = r.tracker.walCatchupNeeded) {phase : DrainPhase V}
    (hphase : ∀ taken, phase ≠ .applied taken)
    (hfront : (⟨t, phase, r.submitted, r.calls⟩ : TrackerRun V).taken <+: r.tracker.pendingBatches) :
    Sound ⟨t, phase, r.submitted, r.calls⟩ where
  sorted := hpending ▸ h.sorted
  caughtUp := hcaught.trans h.caughtUp
  front := hpending ▸ hfront
  called := fun taken htaken => absurd htaken (hphase taken)
  nothingLost := fun b hb => (h.nothingLost b hb).imp_left (fun hmem => hpending ▸ hmem)

/-- The batches at the front, which the projection has taken, are removed. -/
theorem Sound.remove {r : TrackerRun V} (h : Sound r) {taken : List (PendingBatch V)} (hphase : r.phase = .applied taken) :
    Sound { r with tracker := r.tracker.delivered taken, phase := .draining } := by
  have hcalled := h.called taken hphase
  have hfront := h.front
  simp only [TrackerRun.taken, hphase] at hfront
  obtain ⟨rest, hrest⟩ := hfront
  have hdrop : r.tracker.pendingBatches.drop taken.length = rest := by rw [← hrest, List.drop_left]
  refine ⟨?_, h.caughtUp, List.nil_prefix, nofun, ?_⟩
  · exact List.Pairwise.sublist (List.drop_sublist _ _) h.sorted
  · intro b hb
    rcases h.nothingLost b hb with hmem | hcall
    · rw [← hrest] at hmem
      rcases List.mem_append.mp hmem with hmem | hmem
      · exact .inr ⟨taken, hcalled, hmem⟩
      · left
        change b ∈ r.tracker.pendingBatches.drop taken.length
        rwa [hdrop]
    · exact .inr hcall

theorem Sound.step (r : TrackerRun V) (e : TrackerEvent V) (h : Sound r) (he : r.HasRoom e ∧ r.ComesBehind e) : Sound (r.step e) := by
  cases e with
  | enqueue batch offset =>
    rw [TrackerRun.step, ProjectionTracker.enqueue]
    split
    · rename_i hempty
      have hempty : batch = [] ∧ offset < 0 := hempty
      simpa only [hempty, and_self, if_true] using h
    · rename_i hempty
      have hempty : ¬(batch = [] ∧ offset < 0) := hempty
      have hroom : r.tracker.pendingBatches.length < r.tracker.maxPending := he.1
      simp only [hempty, if_false]
      exact h.push (by simp) (by simpa using h.caughtUp) (by simpa using hroom) he.2
  | submit batch offset =>
    rw [TrackerRun.step, ProjectionTracker.submit]
    split
    · rename_i hempty
      have hempty : batch = [] := hempty
      have hpending := ProjectionTracker.noteOffset_pendingBatches r.tracker offset
      simp only [hempty, if_true]
      refine ⟨by simpa using h.sorted, by simpa using h.caughtUp, ?_, h.called, ?_⟩
      · exact hpending ▸ h.front
      · intro b hb
        exact (h.nothingLost b hb).imp_left (fun hmem => hpending ▸ hmem)
    · rename_i hempty
      have hempty : batch ≠ [] := hempty
      have hroom : r.tracker.pendingBatches.length < r.tracker.maxPending := he.1
      simp only [hempty, if_false]
      exact h.push (by simp) (by simpa using h.caughtUp) (by simpa using hroom) he.2
  | drain stored head walBatch walOff ok =>
    rw [TrackerRun.step]
    split
    · rw [ProjectionTracker.catchUp, if_neg (by simp [h.caughtUp])]
      exact h.quiet rfl rfl nofun List.nil_prefix
    · exact h
  | pick stored =>
    rw [TrackerRun.step]
    split
    · split
      · rename_i hpick
        obtain ⟨-, hpending, hcaught⟩ := ProjectionTracker.pick_keeps hpick
        exact h.quiet hpending hcaught nofun List.nil_prefix
      · rename_i taken t _ hpick
        obtain ⟨hfront, hpending, hcaught⟩ := ProjectionTracker.pick_keeps hpick
        exact h.quiet hpending hcaught nofun (hpending ▸ hfront)
    · exact h
  | apply ok =>
    rw [TrackerRun.step]
    split
    · rename_i taken hphase
      have hfront := h.front
      simp only [TrackerRun.taken, hphase] at hfront
      split
      · refine ⟨h.sorted, h.caughtUp, hfront, ?_, ?_⟩
        · intro a ha
          cases ha
          exact List.mem_append_right _ (List.mem_singleton_self _)
        · intro b hb
          refine (h.nothingLost b hb).imp_right (fun ⟨call, hcall, hmem⟩ => ?_)
          exact ⟨call, List.mem_append_left _ hcall, hmem⟩
      · exact h.quiet (by simp) (by simp) nofun List.nil_prefix
    · exact h
  | remove =>
    rw [TrackerRun.step]
    split
    · rename_i taken hphase
      exact h.remove hphase
    · exact h

end TrackerRun

/-- Over any interleaving of threads that hand in batches and drain the queue, wherever it is cut, every batch is in the queue or
was among those of a call that the projection has taken: as long as the queue has room, and no batch comes in that belongs before
a batch which a drain has taken and not yet removed. -/
theorem tracker_nothingLost (canCoalesce : Bool) (start : Option Int) (size room : Nat) (last : Int) (events : List (TrackerEvent V))
    (hroom : Along TrackerRun.step TrackerRun.HasRoom (.new (.new canCoalesce start size room last)) events)
    (hbehind : Along TrackerRun.step TrackerRun.ComesBehind (.new (.new canCoalesce start size room last)) events) :
    ∀ run, run <+: events →
      (runFrom TrackerRun.step (.new (.new canCoalesce start size room last)) run).NothingLost := by
  intro run hrun
  have hboth := hroom.and hbehind
  have hinv : (runFrom TrackerRun.step (.new (.new canCoalesce start size room last)) run).Sound :=
    hboth.inv_prefix TrackerRun.Sound.step (.new rfl rfl) hrun
  exact hinv.nothingLost

/-- A thread hands in the decision on an event without an instrument. -/
def TrackerEvent.noInstrument (id : String) (offset : Int) : TrackerEvent V :=
  .submit [.decision (.quarantined offset .schemaViolation (.noInstrument id (.str "feed") (.obj []) (.int 1)))] offset

/-- Two records in the wrong order, and an event that was rejected, all before the drain begins. -/
theorem tracker_nothingLost_three :
    (runFrom TrackerRun.step (.new (.new true (some 0) 1000 50000 (-1) : ProjectionTracker PyNum))
      [.noInstrument "q_feed_1" 1, .noInstrument "q_feed_2" (-1), .noInstrument "q_feed_0" 0, .drain none 0 [] 0 true, .pick none,
        .apply true, .remove]).calls.map (List.map PendingBatch.ticket) = [[1, 2, 0]] ∧
    ∀ run, run <+: [.noInstrument "q_feed_1" 1, .noInstrument "q_feed_2" (-1), .noInstrument "q_feed_0" 0,
        .drain none 0 [] 0 true, .pick none, .apply true, .remove] →
      (runFrom TrackerRun.step (.new (.new true (some 0) 1000 50000 (-1) : ProjectionTracker PyNum)) run).NothingLost :=
  ⟨by decide, tracker_nothingLost true (some 0) 1000 50000 (-1) _ (by decide) (by decide)⟩

/-- While the projection writes the first record, an event comes in that was rejected. It belongs before the record, and is the one
that is then removed. -/
theorem tracker_nothingLost_false :
    Along TrackerRun.step TrackerRun.HasRoom (.new (.new true (some 0) 1000 50000 (-1) : ProjectionTracker PyNum))
      [.noInstrument "q_feed_0" 0, .drain none 0 [] 0 true, .pick none, .noInstrument "q_feed_2" (-1), .apply true, .remove] ∧
    ¬(runFrom TrackerRun.step (.new (.new true (some 0) 1000 50000 (-1) : ProjectionTracker PyNum))
      [.noInstrument "q_feed_0" 0, .drain none 0 [] 0 true, .pick none, .noInstrument "q_feed_2" (-1), .apply true,
        .remove]).NothingLost := by
  refine ⟨by decide, ?_⟩
  generalize hr : runFrom TrackerRun.step (.new (.new true (some 0) 1000 50000 (-1) : ProjectionTracker PyNum))
      [.noInstrument "q_feed_0" 0, .drain none 0 [] 0 true, .pick none, .noInstrument "q_feed_2" (-1), .apply true, .remove] = r
  have htickets : r.submitted.map PendingBatch.ticket = [0, 1] ∧ r.tracker.pendingBatches.map PendingBatch.ticket = [0] ∧
      r.calls.map (List.map PendingBatch.ticket) = [[0]] := by
    rw [← hr]
    decide
  intro h
  obtain ⟨b, hb, hone⟩ : ∃ b ∈ r.submitted, b.ticket = 1 := List.mem_map.mp (by rw [htickets.1]; simp)
  rcases h b hb with hmem | ⟨call, hcall, hmem⟩
  · have := List.mem_map_of_mem (f := PendingBatch.ticket) hmem
    rw [htickets.2.1, hone] at this
    simp at this
  · have hcall := List.mem_map_of_mem (f := List.map PendingBatch.ticket) hcall
    have hmem := List.mem_map_of_mem (f := PendingBatch.ticket) hmem
    rw [htickets.2.2, List.mem_singleton] at hcall
    rw [hcall, hone] at hmem
    simp at hmem

end Mdrap
