import Mdrap.Engine.Exact
import Mdrap.Lemmas.Sqlite

/-!
# The checkpoint of the SQLite projection

A checkpoint says that all before it is in the tables. It does where every batch that is let through follows the stored
checkpoint. The offset in memory, which is not restored when a transaction fails, lets through more than that.
-/

namespace Mdrap

open Lib

variable {V : Type}

/-! ## Committed batches -/

namespace Ledger

/-- The checkpoint is covered, and the projection's memory is not behind it. -/
structure Sound (start : Int) (l : Ledger V) : Prop where
  expectedStart : l.proj.expectedStartOffset = start
  ahead : l.proj.Ahead
  covered : l.Covered

theorem Sound.new (start : Int) : Sound start (new start : Ledger V) where
  expectedStart := rfl
  ahead := .openOn (by simp [Database.empty]) start
  covered := by simp [Covered, Ledger.new, SqliteProjection.openOn, Database.empty]

/-- A batch that follows the stored checkpoint covers what lies between the checkpoint and its own last offset. -/
theorem Covered.extend {l : Ledger V} (hl : l.Covered) (hahead : l.proj.Ahead) {b : WalBatch V}
    (hb : b.start ≤ l.proj.expectedNext l.proj.checkpoint) {n : Int} (hlo : l.proj.expectedStartOffset ≤ n) (hhi : n ≤ b.last) :
    ∃ b' ∈ l.committed ++ [b], ∃ d ∈ b'.decisions, d.offset = n := by
  by_cases hn : b.start ≤ n
  · exact ⟨b, by simp, b.offset_mem hn hhi⟩
  · have hlt : n < l.proj.expectedNext l.proj.checkpoint := by omega
    rcases hc : l.proj.db.checkpoint with _ | c
    · -- nothing is stored, so the batch begins at the expected start
      simp only [SqliteProjection.checkpoint, hc, SqliteProjection.expectedNext, Option.getD_none] at hlt
      simp only [Int.reduceNeg, Int.reduceLE, if_false] at hlt
      omega
    · have hpos := (hahead.2 c (by simp [hc])).1
      simp only [SqliteProjection.checkpoint, hc, SqliteProjection.expectedNext, Option.getD_some, hpos, if_true] at hlt
      obtain ⟨b', hb', hd⟩ := hl c (by simp [hc]) n hlo (by omega)
      exact ⟨b', List.mem_append_left _ hb', hd⟩

theorem Covered.append {l : Ledger V} (hl : l.Covered) {p : SqliteProjection V} (hcp : p.db.checkpoint = l.proj.db.checkpoint)
    (hstart : p.expectedStartOffset = l.proj.expectedStartOffset) (bs : List (WalBatch V)) :
    (⟨p, l.committed ++ bs⟩ : Ledger V).Covered := by
  intro c hc n hlo hhi
  obtain ⟨b, hb, hd⟩ := hl c (hcp ▸ hc) n (hstart ▸ hlo) hhi
  exact ⟨b, List.mem_append_left _ hb, hd⟩

theorem Sound.step (P : Py V) {start : Int} (l : Ledger V) (e : SqliteEvent V) (hl : Sound start l) (he : l.FollowsStored e) :
    Sound start (l.step P e) := by
  cases e with
  | reopen =>
    refine ⟨hl.expectedStart, .openOn (fun c hc => (hl.ahead.2 c hc).1) _, ?_⟩
    have hkeep := hl.covered.append (p := .openOn l.proj.db l.proj.expectedStartOffset) rfl rfl []
    simpa only [Ledger.step, List.append_nil] using hkeep
  | apply b faults =>
    rcases ha : l.proj.apply P b.items b.last faults with ⟨r, p⟩
    have hmoves := SqliteProjection.apply_moves hl.ahead ha
    have hstart := hmoves.start.trans hl.expectedStart
    rw [Ledger.step, ha]
    rcases hmoves.stored with hcp | ⟨rfl, hadmits, hcp⟩
    · have hkeep := hl.covered.append hcp hmoves.start
      split
      · rename_i heq
        cases heq
        exact ⟨hstart, hmoves.ahead, hkeep _⟩
      · rename_i heq
        cases heq
        exact ⟨hstart, hmoves.ahead, by simpa only [List.append_nil] using hkeep []⟩
    · refine ⟨hstart, hmoves.ahead, ?_⟩
      have hb := he hadmits
      intro c hc n hlo hhi
      obtain rfl : c = b.last := by simpa [hcp] using hc.symm
      exact hl.covered.extend hl.ahead hb (hmoves.start ▸ hlo) hhi

end Ledger

/-- Wherever a run of a projection on a new database is cut, every offset from the expected start up to the checkpoint is of a
decision in a batch whose transaction was committed, as long as no batch is let through only because of the offset in memory. -/
theorem checkpoint_covered (P : Py V) (start : Int) (events : List (SqliteEvent V))
    (hfollows : Along (Ledger.step P) Ledger.FollowsStored (.new start) events) :
    ∀ run, run <+: events → (runFrom (Ledger.step P) (.new start) run).Covered := by
  intro run hrun
  have hinv : Ledger.Sound start (runFrom (Ledger.step P) (.new start) run) :=
    hfollows.inv_prefix (Ledger.Sound.step P) (.new start) hrun
  exact hinv.covered

/-- A batch of one record, which has no instrument. -/
def WalBatch.noInstrument (n : Nat) : WalBatch V where
  start := n
  decisions := [.quarantined n .schemaViolation (.noInstrument s!"q_feed_{n}" (.str "feed") (.obj []) (.int 1))]
  nonempty := by simp
  consecutive := rfl

/-- The first record fails to commit and is delivered again before the second one comes. -/
theorem checkpoint_covered_retry :
    (runFrom (Ledger.step exactPy) (.new 0) [.apply (.noInstrument 0) [fun s => if s = .commit then some .busy else none],
      .apply (.noInstrument 0) [fun _ => none], .reopen, .apply (.noInstrument 0) [fun _ => none],
      .apply (.noInstrument 1) [fun _ => none]]).proj.db.checkpoint = some 1 ∧
    ∀ run, run <+: [.apply (.noInstrument 0) [fun s => if s = .commit then some .busy else none],
      .apply (.noInstrument 0) [fun _ => none], .reopen, .apply (.noInstrument 0) [fun _ => none],
      .apply (.noInstrument 1) [fun _ => none]] → (runFrom (Ledger.step exactPy) (.new 0) run).Covered :=
  ⟨by decide, checkpoint_covered exactPy 0 _ (by decide)⟩

/-- The first record fails to commit; the second one is let through because of the offset the failure left in memory, and the
checkpoint then covers both. -/
theorem checkpoint_covered_false :
    ¬(runFrom (Ledger.step exactPy) (.new 0) [.apply (.noInstrument 0) [fun s => if s = .commit then some .busy else none],
      .apply (.noInstrument 1) [fun _ => none]]).Covered := by
  intro h
  have hcp : (runFrom (Ledger.step exactPy) (.new 0) [.apply (.noInstrument 0) [fun s => if s = .commit then some .busy else none],
      .apply (.noInstrument 1) [fun _ => none]]).proj.db.checkpoint = some 1 := by
    decide
  have hmissing : ¬∃ b ∈ (runFrom (Ledger.step exactPy) (.new 0)
      [.apply (.noInstrument 0) [fun s => if s = .commit then some .busy else none],
      .apply (.noInstrument 1) [fun _ => none]]).committed, ∃ d ∈ b.decisions, d.offset = 0 := by
    decide
  exact hmissing (h 1 hcp 0 (by decide) (by omega))

end Mdrap
