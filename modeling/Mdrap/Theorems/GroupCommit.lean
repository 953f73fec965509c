import Mathlib.Data.List.Perm.Basic
import Mdrap.IngestLog.Group
import Mdrap.Lemmas.Stores

/-!
# Group commit and the frames of other threads

Whatever the order of the threads, the frame of a record that was acknowledged, or whose call has not returned yet, is in its
segment file, as long as an append that fails after it had given up the lock finds nothing written behind its frame. Where it
does find something, it cuts it off, acknowledged or not.
-/

namespace Mdrap

open Lib IngestLog

/-- Two records at different offsets whose frames do not overlap. -/
def Item.Apart (i j : Item) : Prop :=
  i.offset ≠ j.offset ∧
    (i.segment = j.segment → i.endPos + j.entry.size ≤ j.endPos ∨ j.endPos + i.entry.size ≤ i.endPos)

theorem Item.Apart.symm {i j : Item} (h : i.Apart j) : j.Apart i :=
  ⟨h.1.symm, fun hseg => (h.2 hseg.symm).symm⟩

/-- Records written one behind the other. -/
theorem size_le_of_mem_itemsFrom {g offset pos : Nat} {es : List LogEntry} {i : Item} (hi : i ∈ itemsFrom g offset pos es) :
    pos + i.entry.size ≤ i.endPos := by
  induction es generalizing offset pos with
  | nil => simp [itemsFrom] at hi
  | cons e es ih =>
    rcases List.mem_cons.mp hi with rfl | hi
    · exact Nat.le_refl _
    · have := ih hi
      omega

theorem apart_itemsFrom (g offset pos : Nat) (es : List LogEntry) : (itemsFrom g offset pos es).Pairwise Item.Apart := by
  induction es generalizing offset pos with
  | nil => exact List.Pairwise.nil
  | cons e es ih =>
    refine List.pairwise_cons.mpr ⟨?_, ih _ _⟩
    intro j hj
    have hoff := offset_of_mem_itemsFrom hj
    have hsize := size_le_of_mem_itemsFrom hj
    refine ⟨?_, fun _ => Or.inl hsize⟩
    simp only
    omega

/-- The records of the threads are stored in their files, apart from each other. -/
structure Guarded (s : IngestLog) (A : List Item) : Prop where
  policy : s.config.fsyncPolicy = .trueGroupCommit
  stores : s.Stores A
  inFile : ∀ i ∈ A, i.InFile s
  apart : A.Pairwise Item.Apart
  drained : s.isPoisoned = false → ∀ f, s.current = some f → f.buffer = []

namespace Guarded

variable {s t : IngestLog} {A B : List Item}

theorem perm (h : Guarded s A) (hAB : List.Perm A B) : Guarded s B :=
  ⟨h.policy, h.stores.subset (fun _ hi => hAB.mem_iff.mpr hi), fun i hi => h.inFile i (hAB.mem_iff.mpr hi),
    (hAB.pairwise_iff Item.Apart.symm).mp h.apart, h.drained⟩

/-- Counters do not matter. -/
theorem congr (h : Guarded s A) (hcfg : t.config = s.config) (hdir : t.dir.segments = s.dir.segments)
    (hcur : t.current = s.current) (hnext : t.nextOffset = s.nextOffset)
    (hstart : t.currentSegmentStartOffset = s.currentSegmentStartOffset)
    (hbytes : t.currentSegmentBytes = s.currentSegmentBytes) (hp : t.isPoisoned = false → s.isPoisoned = false) :
    Guarded t A := by
  refine ⟨by rw [hcfg]; exact h.policy, h.stores.congr hdir hcur hnext hstart hbytes hp, ?_, h.apart, ?_⟩
  · intro i hi
    exact (Item.Kept.of_files hdir hcur).inFile (h.inFile i hi)
  · intro hp'
    rw [hcur]
    exact h.drained (hp hp')

/-- With nothing in the buffer a rotation loses nothing. -/
theorem drains (h : Guarded s A) (size : Nat) (env : Env) : s.Drains size env := by
  intro hp _ _
  exact Or.inr (h.drained hp)

/-- Frames that are intact while nothing is in the buffer are in their files. -/
theorem inFile_of_drained (hstores : s.Stores A) (hnil : ∀ f, s.current = some f → f.buffer = []) : ∀ i ∈ A, i.InFile s := by
  intro i hi
  obtain ⟨file, hfile, hstands⟩ := hstores.intact i hi
  obtain ⟨f, hf, _⟩ := hstores.current
  rw [pending_of_current hf, hnil f hf, ite_self, List.append_nil] at hstands
  exact ⟨file, hfile, hstands⟩

/-- A step that adds no record. -/
theorem of_unharmed {P : Prop} (h : Guarded s A) (ht : s.Unharmed A P t) (hp : s.isPoisoned = false ∨ t = s) :
    Guarded t A := by
  rcases hp with hp | rfl
  · exact ⟨by rw [ht.config]; exact h.policy, ht.stores, fun i hi => (ht.kept i hi).inFile (h.inFile i hi), h.apart,
      ht.drained (h.drained hp)⟩
  · exact h

/-- A flush or fsync of the open file. -/
theorem fileFlush (h : Guarded s A) (r : IoResult) : Guarded (s.fileFlush r).2 A := by
  have hkeeps := s.keeps_fileFlush r
  refine ⟨by rw [hkeeps.config]; exact h.policy, h.stores.fileFlush r, fun i hi => (kept_fileFlush i s r).inFile (h.inFile i hi),
    h.apart, ?_⟩
  intro hp
  rw [hkeeps.isPoisoned] at hp
  exact buffer_fileFlush_nil (h.drained hp)

theorem fileFsync (h : Guarded s A) (ok : Bool) : Guarded (s.fileFsync ok).2 A := by
  have hkeeps := s.keeps_fileFsync ok
  refine ⟨by rw [hkeeps.config]; exact h.policy, h.stores.fileFsync ok,
    fun i hi => (kept_fileFsync i s ok).inFile (h.inFile i hi), h.apart, ?_⟩
  intro hp
  rw [hkeeps.isPoisoned] at hp
  rw [current_fileFsync]
  exact h.drained hp

theorem flush (h : Guarded s A) (flushIo : IoResult) (fsyncIo : Bool) (now : UInt64) :
    Guarded (s.flush flushIo fsyncIo now).2 A := by
  have hflush := h.fileFlush flushIo
  unfold IngestLog.flush
  split
  · exact h
  · split
    · exact h
    · split
      · rename_i heq
        rw [heq] at hflush
        exact hflush
      · rename_i u heq
        rw [heq] at hflush
        have hsync := (hflush.congr (t := { u with bytesSinceFlush := 0 }) rfl rfl rfl rfl rfl rfl id).fileFsync fsyncIo
        split
        · rename_i heq'
          rw [heq'] at hsync
          exact hsync
        · rename_i heq'
          rw [heq'] at hsync
          exact hsync.congr rfl rfl rfl rfl rfl rfl id

/-- An append in flight that fails takes back its own frame only. -/
theorem abort {p : InFlight} (h : Guarded s (p.item :: A)) (hp : s.isPoisoned = true)
    (hplace : p.writePos + p.item.entry.size = p.item.endPos) (halone : p.RollsBackAlone s) (r : IoResult) :
    Guarded (s.appendAbort p.item.offset p.writePos r) A := by
  obtain ⟨happ, hrest⟩ := List.pairwise_cons.mp h.apart
  have hstores : s.Stores A := h.stores.subset (fun i hi => List.mem_cons_of_mem _ hi)
  have hbefore : ∀ i ∈ A, i.segment = s.currentSegmentStartOffset → i.endPos ≤ p.writePos := by
    intro i hi hseg
    have hend := hstores.ends i hi hseg
    rcases halone with ⟨hsegment, hbytes⟩ | hshort
    · have hsize := i.entry.size_pos
      rcases (happ i hi).2 (hsegment.symm.trans hseg.symm) with hover | hunder
      · omega
      · omega
    · omega
  obtain ⟨hstores', hkept, hcfg, _, _, _, _, hdrained⟩ := hstores.appendAbort hbefore
    (fun i hi => (happ i hi).1.symm) (fun hsound => by rw [hp] at hsound; cases hsound) r
  exact ⟨by rw [hcfg]; exact h.policy, hstores', fun i hi => (hkept i hi).inFile (h.inFile i (List.mem_cons_of_mem _ hi)), hrest,
    hdrained⟩

end Guarded

/-- The invariant of the threads. -/
structure Group.Inv (g : Group) : Prop where
  guarded : Guarded g.log g.live
  places : ∀ p ∈ g.inFlight, p.writePos + p.item.entry.size = p.item.endPos

namespace Group.Inv

variable {g : Group} {p : InFlight}

/-- The head of the loop: the append returns, fails, waits or leads. -/
theorem turn (h : Guarded g.log (p.item :: g.live)) (hplaces : ∀ q ∈ g.inFlight, q.writePos + q.item.entry.size = q.item.endPos)
    (hplace : p.writePos + p.item.entry.size = p.item.endPos)
    (halone : g.log.isPoisoned = true → g.log.syncedOffset < p.item.offset → p.RollsBackAlone g.log) (r : IoResult) :
    (g.turn p r).Inv := by
  have hmiddle : List.Perm (p.item :: g.live) (g.acked ++ p.item :: g.inFlight.map InFlight.item) := List.perm_middle.symm
  unfold Group.turn
  split
  · refine ⟨h.perm ?_, hplaces⟩
    show List.Perm (p.item :: g.live) (g.acked ++ [p.item] ++ g.inFlight.map InFlight.item)
    rw [List.append_assoc]
    exact hmiddle
  · rename_i hturn
    have hpoisoned : g.log.isPoisoned = true ∧ g.log.syncedOffset < p.item.offset := by
      unfold groupTurn at hturn
      split at hturn
      · cases hturn
      · rename_i hlt
        split at hturn
        · rename_i hp
          exact ⟨hp, by omega⟩
        · split at hturn <;> cases hturn
    exact ⟨h.abort hpoisoned.1 hplace (halone hpoisoned.1 hpoisoned.2) r, hplaces⟩
  · exact ⟨h.perm hmiddle, List.forall_mem_cons.mpr ⟨hplace, hplaces⟩⟩
  · rename_i target hturn
    have hsound : g.log.isPoisoned = false := by
      unfold groupTurn at hturn
      split at hturn
      · cases hturn
      · split at hturn
        · cases hturn
        · rename_i hp
          simpa using hp
    obtain ⟨f, file, hw, _⟩ := h.stores.sound hsound
    simp only [hw.current, hw.isOpen, Bool.false_eq_true, if_false]
    exact ⟨(h.perm hmiddle).congr rfl rfl hw.current.symm rfl rfl rfl id, List.forall_mem_cons.mpr ⟨hplace, hplaces⟩⟩

/-- A thread starts an append. -/
theorem append (h : g.Inv) (raw : RawInput) (env : Env) : ((GroupStep.append raw env).run g).Inv := by
  rcases hbegin : g.log.appendBegin raw env with ⟨r, t⟩
  simp only [GroupStep.run, hbegin]
  rcases h.guarded.stores.appendBegin (h.guarded.drains _ _) hbegin with ⟨⟨e, rfl⟩, hun⟩ | ⟨writePos, rfl, hb⟩
  · refine ⟨h.guarded.of_unharmed hun ?_, h.places⟩
    cases hp : g.log.isPoisoned with
    | false => exact Or.inl rfl
    | true =>
      rw [appendBegin, if_pos hp] at hbegin
      exact Or.inr (Prod.mk.inj hbegin).2.symm
  · have hnil := hb.drained (by rw [h.guarded.policy]; decide)
    have hguarded : Guarded t (g.live ++
        [⟨g.log.nextOffset, appendEntry raw env, t.currentSegmentStartOffset, t.currentSegmentBytes⟩]) := by
      refine ⟨by rw [hb.config]; exact h.guarded.policy, hb.stores, Guarded.inFile_of_drained hb.stores hnil, ?_, fun _ => hnil⟩
      refine List.pairwise_append.mpr ⟨h.guarded.apart, List.pairwise_singleton _ _, ?_⟩
      intro i hi j hj
      rw [List.mem_singleton.mp hj]
      refine ⟨Nat.ne_of_lt (h.guarded.stores.below i hi).2, ?_⟩
      intro hseg
      have hend := hb.before i hi hseg
      have hbytes := hb.bytes
      simp only
      omega
    refine turn (g := { g with log := t }) (p := ⟨_, writePos, .waiting⟩) (hguarded.perm (List.perm_append_singleton _ _)) h.places
      hb.bytes.symm ?_ env.rollback
    intro hp
    rw [hb.sound] at hp
    cases hp

/-- A thread appends a batch. -/
theorem appendBatch (h : g.Inv) (raws : List RawInput) (env : Env) : ((GroupStep.appendBatch raws env).run g).Inv := by
  rcases ht : g.log.appendBatch raws env with ⟨r, t⟩
  simp only [GroupStep.run]
  rcases h.guarded.stores.appendBatch (h.guarded.drains _ _) ht with ⟨⟨e, rfl⟩, hun⟩ | ⟨_, rfl, rfl⟩ | ⟨hne, rfl, hb⟩
  · have hrun : (Call.appendBatch raws env).run g.log = ([], t) := by simp only [Call.run, ht]
    rw [hrun, List.append_nil]
    refine ⟨h.guarded.of_unharmed hun ?_, h.places⟩
    cases hp : g.log.isPoisoned with
    | false => exact Or.inl rfl
    | true =>
      rw [IngestLog.appendBatch] at ht
      split at ht
      · cases ht
      · exact Or.inr (Prod.mk.inj ht).2.symm
  · have hrun : (Call.appendBatch raws env).run g.log = ([], g.log) := by simp only [Call.run, ht]
    rw [hrun, List.append_nil]
    exact h
  · have hrun : (Call.appendBatch raws env).run g.log = (itemsFrom t.currentSegmentStartOffset g.log.nextOffset
        (t.currentSegmentBytes - entriesSize (batchEntries raws env)) (batchEntries raws env), t) := by
      cases raws with
      | nil => exact absurd rfl hne
      | cons raw raws =>
        simp only [Call.run, ht, batchEntries, List.map_cons, List.length_cons, List.range'_succ]
        rfl
    rw [hrun]
    have hnil := hb.drained (by rw [h.guarded.policy]; decide)
    have hguarded : Guarded t (g.live ++ itemsFrom t.currentSegmentStartOffset g.log.nextOffset
        (t.currentSegmentBytes - entriesSize (batchEntries raws env)) (batchEntries raws env)) := by
      refine ⟨by rw [hb.config]; exact h.guarded.policy, hb.stores, Guarded.inFile_of_drained hb.stores hnil, ?_, fun _ => hnil⟩
      refine List.pairwise_append.mpr ⟨h.guarded.apart, apart_itemsFrom _ _ _ _, ?_⟩
      intro i hi j hj
      have hlt := (h.guarded.stores.below i hi).2
      have hoff := offset_of_mem_itemsFrom hj
      refine ⟨by omega, ?_⟩
      intro hseg
      have hend := hb.before i hi (hseg.trans (segment_of_mem_itemsFrom hj))
      have hsize := size_le_of_mem_itemsFrom hj
      omega
    refine ⟨hguarded.perm ?_, h.places⟩
    show List.Perm (g.acked ++ g.inFlight.map InFlight.item ++ _) (g.acked ++ _ ++ g.inFlight.map InFlight.item)
    rw [List.append_assoc, List.append_assoc]
    exact List.Perm.append_left _ List.perm_append_comm

/-- An append in flight stands before the others. -/
theorem take_out {n : Nat} (hn : g.inFlight[n]? = some p) :
    List.Perm g.live (p.item :: (g.acked ++ (g.inFlight.eraseIdx n).map InFlight.item)) := by
  obtain ⟨hlt, hget⟩ := List.getElem?_eq_some_iff.mp hn
  have hperm := (List.getElem_cons_eraseIdx_perm hlt).map InFlight.item
  rw [hget] at hperm
  exact (List.Perm.append_left g.acked hperm.symm).trans List.perm_middle

/-- A thread comes back from its fsync or from waiting. -/
theorem places_of_eraseIdx (h : g.Inv) {n : Nat} (hn : g.inFlight[n]? = some p) :
    p.writePos + p.item.entry.size = p.item.endPos ∧
      ∀ q ∈ g.inFlight.eraseIdx n, q.writePos + q.item.entry.size = q.item.endPos :=
  ⟨h.places p (List.mem_of_getElem? hn), fun q hq => h.places q (List.mem_of_mem_eraseIdx hq)⟩

theorem synced (h : g.Inv) (n : Nat) (ok : Bool) (r : IoResult) (halone : (GroupStep.synced n ok r).RollsBackAlone g) :
    ((GroupStep.synced n ok r).run g).Inv := by
  simp only [GroupStep.run]
  split
  · exact h
  · rename_i p hn
    split
    · exact h
    · rename_i target segment hrole
      obtain ⟨hplace, hplaces⟩ := h.places_of_eraseIdx hn
      have hfsync : Guarded (Group.leaderFsync g.log segment ok) g.live ∧
          g.log.Keeps (Group.leaderFsync g.log segment ok) := by
        unfold Group.leaderFsync
        split
        · exact ⟨h.guarded.fileFsync ok, g.log.keeps_fileFsync ok⟩
        · exact ⟨h.guarded, .refl _⟩
      obtain ⟨hguarded, hkeeps⟩ := hfsync
      have halone' := halone p hn
      cases ok with
      | true =>
        rw [if_pos rfl]
        have hsynced := (hguarded.congr (t := (Group.leaderFsync g.log segment true).groupSynced target true) rfl rfl rfl rfl rfl
          rfl id).perm (take_out hn)
        refine turn (g := ⟨_, g.inFlight.eraseIdx n, g.acked⟩) hsynced hplaces hplace ?_ r
        intro hp hlt
        have hp' : g.log.isPoisoned = true := hkeeps.isPoisoned.symm.trans hp
        have hlt' : max g.log.syncedOffset p.target < p.item.offset := by
          rw [← hkeeps.syncedOffset, InFlight.target, hrole]
          exact hlt
        rcases halone' (Or.inr ⟨hp', hlt'⟩) with ⟨hseg, hbytes⟩ | hshort
        · exact Or.inl ⟨hkeeps.currentSegmentStartOffset.trans hseg, hkeeps.currentSegmentBytes.trans hbytes⟩
        · exact Or.inr (Nat.le_trans (Nat.le_of_eq hkeeps.currentSegmentBytes) hshort)
      | false =>
        rw [if_neg (by simp)]
        have hpoisoned := (hguarded.congr (t := (Group.leaderFsync g.log segment false).groupSynced target false) rfl rfl rfl rfl
          rfl rfl (by simp [groupSynced])).perm (take_out hn)
        refine ⟨hpoisoned.abort rfl hplace ?_ r, hplaces⟩
        rcases halone' (Or.inl rfl) with ⟨hseg, hbytes⟩ | hshort
        · exact Or.inl ⟨hkeeps.currentSegmentStartOffset.trans hseg, hkeeps.currentSegmentBytes.trans hbytes⟩
        · exact Or.inr (Nat.le_trans (Nat.le_of_eq hkeeps.currentSegmentBytes) hshort)

theorem woken (h : g.Inv) (n : Nat) (r : IoResult) (halone : (GroupStep.woken n r).RollsBackAlone g) :
    ((GroupStep.woken n r).run g).Inv := by
  simp only [GroupStep.run]
  split
  · exact h
  · rename_i p hn
    split
    · exact h
    · obtain ⟨hplace, hplaces⟩ := h.places_of_eraseIdx hn
      exact turn (g := ⟨g.log, g.inFlight.eraseIdx n, g.acked⟩) (h.guarded.perm (take_out hn)) hplaces hplace (halone p hn) r

theorem step (h : g.Inv) (step : GroupStep) (halone : step.RollsBackAlone g) : (step.run g).Inv := by
  cases step with
  | append raw env => exact h.append raw env
  | appendBatch raws env => exact h.appendBatch raws env
  | flush flushIo fsyncIo now => exact ⟨h.guarded.flush flushIo fsyncIo now, h.places⟩
  | synced n ok r => exact h.synced n ok r halone
  | woken n r => exact h.woken n r halone

theorem run (steps : List GroupStep) (h : g.Inv) (halone : RollBackAlone steps g) : (runSteps steps g).Inv := by
  induction steps generalizing g with
  | nil => exact h
  | cons st steps ih => exact ih (h.step st halone.1) halone.2

/-- The threads of a new log have written nothing. -/
theorem of_openLog {cfg : LogConfig} (hpolicy : cfg.fsyncPolicy = .trueGroupCommit) {now ts : UInt64} {s : IngestLog}
    (hopen : openLog cfg LogDir.empty now ts = .ok s) : (Group.mk s [] []).Inv := by
  have h := openLog_new hopen
  refine ⟨⟨by rw [h.config]; exact hpolicy, stores_of_openLog hopen, by simp [Group.live], by simp [Group.live], ?_⟩, by simp⟩
  intro _ f hf
  have hf' : some _ = some f := h.current.symm.trans hf
  rw [Option.some.injEq] at hf'
  rw [← hf']

end Group.Inv

/-- Over any steps of any threads on a new log under group commit, whatever fails, the frame of every record that was
acknowledged or is still in flight is in its segment file, as long as every append that fails after it had given up the lock
rolls back alone. -/
theorem groupCommit_inFile (cfg : LogConfig) (hpolicy : cfg.fsyncPolicy = .trueGroupCommit) {now ts : UInt64} {s : IngestLog}
    (hopen : openLog cfg LogDir.empty now ts = .ok s) (steps : List GroupStep) (halone : RollBackAlone steps ⟨s, [], []⟩) :
    ∀ i ∈ (runSteps steps ⟨s, [], []⟩).live, i.InFile (runSteps steps ⟨s, [], []⟩).log :=
  ((Group.Inv.of_openLog hpolicy hopen).run steps halone).guarded.inFile

/-- Two threads append; the second one waits and then leads. The fsync of a third one fails when it is alone. -/
theorem groupCommit_inFile_three : ∃ s, openLog ⟨.trueGroupCommit, 1000, 128⟩ LogDir.empty 0 0 = .ok s ∧
    (runSteps [.append (.dict [("receive_timestamp", .int 1)]) (Env.faultless 0 0 0 0),
      .append (.dict [("receive_timestamp", .int 2)]) (Env.faultless 0 0 0 0), .synced 1 true .ok, .woken 0 .ok,
      .synced 0 true .ok, .append (.dict [("receive_timestamp", .int 3)]) (Env.faultless 0 0 0 0), .synced 0 false .ok]
      ⟨s, [], []⟩).live.map Item.offset = [0, 1] ∧
    ∀ i ∈ (runSteps [.append (.dict [("receive_timestamp", .int 1)]) (Env.faultless 0 0 0 0),
      .append (.dict [("receive_timestamp", .int 2)]) (Env.faultless 0 0 0 0), .synced 1 true .ok, .woken 0 .ok,
      .synced 0 true .ok, .append (.dict [("receive_timestamp", .int 3)]) (Env.faultless 0 0 0 0), .synced 0 false .ok]
      ⟨s, [], []⟩).live, i.InFile (runSteps [.append (.dict [("receive_timestamp", .int 1)]) (Env.faultless 0 0 0 0),
      .append (.dict [("receive_timestamp", .int 2)]) (Env.faultless 0 0 0 0), .synced 1 true .ok, .woken 0 .ok,
      .synced 0 true .ok, .append (.dict [("receive_timestamp", .int 3)]) (Env.faultless 0 0 0 0), .synced 0 false .ok]
      ⟨s, [], []⟩).log := by
  obtain ⟨s, hopen, _⟩ := exists_openLog_new ⟨.trueGroupCommit, 1000, 128⟩ 0 0
  have hrun : (openLog ⟨.trueGroupCommit, 1000, 128⟩ LogDir.empty 0 0).map (fun s =>
      let steps : List GroupStep := [.append (.dict [("receive_timestamp", .int 1)]) (Env.faultless 0 0 0 0),
        .append (.dict [("receive_timestamp", .int 2)]) (Env.faultless 0 0 0 0), .synced 1 true .ok, .woken 0 .ok,
        .synced 0 true .ok, .append (.dict [("receive_timestamp", .int 3)]) (Env.faultless 0 0 0 0), .synced 0 false .ok]
      (decide (RollBackAlone steps ⟨s, [], []⟩), (runSteps steps ⟨s, [], []⟩).live.map Item.offset)) =
      .ok (true, [0, 1]) := by
    decide
  have hrun := eq_of_map_ok hopen hrun
  simp only [Prod.mk.injEq, decide_eq_true_eq] at hrun
  exact ⟨s, hopen, hrun.2, groupCommit_inFile _ rfl hopen _ hrun.1⟩

/-- While a leader is in its fsync another thread appends a batch, syncs it and returns. The fsync fails, and the leader goes
back to the position before its frame, which cuts off the batch. -/
theorem groupCommit_inFile_false : ∃ s, openLog ⟨.trueGroupCommit, 1000, 128⟩ LogDir.empty 0 0 = .ok s ∧
    ¬∀ i ∈ (runSteps [.append (.dict [("receive_timestamp", .int 1)]) (Env.faultless 0 0 0 0),
      .appendBatch [.dict [("receive_timestamp", .int 2)]] (Env.faultless 0 0 0 0), .synced 0 false .ok] ⟨s, [], []⟩).acked,
      i.InFile (runSteps [.append (.dict [("receive_timestamp", .int 1)]) (Env.faultless 0 0 0 0),
        .appendBatch [.dict [("receive_timestamp", .int 2)]] (Env.faultless 0 0 0 0), .synced 0 false .ok] ⟨s, [], []⟩).log := by
  obtain ⟨s, hopen, _⟩ := exists_openLog_new ⟨.trueGroupCommit, 1000, 128⟩ 0 0
  have hrun : (openLog ⟨.trueGroupCommit, 1000, 128⟩ LogDir.empty 0 0).map (fun s =>
      let g := runSteps [.append (.dict [("receive_timestamp", .int 1)]) (Env.faultless 0 0 0 0),
        .appendBatch [.dict [("receive_timestamp", .int 2)]] (Env.faultless 0 0 0 0), .synced 0 false .ok] ⟨s, [], []⟩
      decide (∀ i ∈ g.acked, i.InFile g.log)) = .ok false := by
    decide +kernel
  have hrun := eq_of_map_ok hopen hrun
  simp only [decide_eq_false_iff_not] at hrun
  exact ⟨s, hopen, hrun⟩

end Mdrap
