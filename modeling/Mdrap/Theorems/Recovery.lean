import Mdrap.Lemmas.ZeroTail

/-!
# Crash recovery

A log is opened on an empty directory, any calls append to it, and a crash cuts its newest segment file at any byte. Opening the
directory again gives the records that lie wholly before the cut.
-/

namespace Mdrap

open Lib

open IngestLog

/-- After any appending calls on a new log and a cut of its newest segment file at any byte, opening the directory succeeds and
reading it from the earliest offset gives exactly the acknowledged records that lie wholly before the cut. Their offsets are
those below the next offset, in order, and opening the directory once more leaves it as it is. -/
theorem recovery_after_crash (cfg : LogConfig) {now ts : UInt64} {s : IngestLog} (hopen : openLog cfg LogDir.empty now ts = .ok s)
    (calls : List Call) {acks : List Item} {t : IngestLog} (hrun : runCalls calls s = (acks, t))
    (henv : ∀ call ∈ calls, call.env.Recoverable)
    (hfit : ∀ call ∈ calls, ∀ e ∈ call.entries, e.FitsLimits cfg.maxSegmentBytes) (c : Nat) (now' ts' now'' ts'' : UInt64) :
    ∃ u, openLog cfg (t.crash c) now' ts' = .ok u ∧
      (u.iterFrom u.earliestOffset now').1 = .ok ((acks.filter (t.survives c)).map Item.event) ∧
      (acks.filter (t.survives c)).map Item.offset = List.range u.nextOffset ∧
      u.nextOffset = ((acks.filter (t.survives c)).getLast?.map (fun i => i.offset + 1)).getD 0 ∧
      ∃ v, openLog cfg u.dir now'' ts'' = .ok v ∧ v.dir = u.dir ∧ v.nextOffset = u.nextOffset := by
  obtain ⟨L, hrep, rfl, hfirst, hwithin⟩ := runCalls_new hopen hrun henv
  have hw := hwithin hfit
  rw [filter_survives hrep]
  have hkeep : (L.cut c).items ≠ [] ∨ L.active.start = 0 := by
    cases hsealed : L.sealed with
    | nil =>
      rw [Layout.first, hsealed] at hfirst
      exact Or.inr hfirst
    | cons g gs =>
      refine Or.inl ?_
      have hne := L.nonempty g (by simp [hsealed])
      obtain ⟨e, es, hes⟩ := List.exists_cons_of_ne_nil hne
      simp [Layout.items_cut, hsealed, Segment.items, hes, itemsFrom]
  obtain ⟨u, L', hopen1, hopened1, hitems1, hfirst1, hw1, hanchored⟩ :=
    openLog_cut now' ts' (files_crash hrep c) (Layout.within_cut hw c)
      (Segment.tornTail_of_cut (L.fits L.active (by simp)) (hw L.active (by simp [Layout.segments]))) hkeep
  have hoff := L'.map_offset_items.1
  rw [hfirst1, hfirst, Nat.sub_zero, ← hopened1.represents.next, hitems1] at hoff
  refine ⟨u, hopen1, ?_, ?_, ?_, ?_⟩
  · rw [hopened1.iterFrom hw1, hitems1]
  · rw [hoff, List.range_eq_range']
  · rw [hopened1.represents.next, L'.next_eq_last (hfirst1.trans hfirst), hitems1]
    cases (L.cut c).items.getLast? <;> rfl
  · obtain ⟨v, hopen2, hopened2, hdir⟩ := openLog_again hopened1 hw1 hanchored now'' ts''
    exact ⟨v, hopen2, hdir, by rw [hopened2.represents.next, hopened1.represents.next]⟩

/-- Two records, and a cut inside the second. -/
theorem recovery_after_crash_two : ∃ s acks t, openLog ⟨.always, 1000, 128⟩ LogDir.empty 0 0 = .ok s ∧
    runCalls [.append (.dict [("receive_timestamp", .int 1)]) (Env.faultless 0 0 0 0),
      .appendBatch [.dict [("receive_timestamp", .int 2)]] (Env.faultless 0 0 0 0)] s = (acks, t) ∧
    acks.length = 2 ∧ (acks.filter (t.survives 100)).length = 1 ∧
    ∃ u, openLog ⟨.always, 1000, 128⟩ (t.crash 100) 0 0 = .ok u ∧
      (u.iterFrom u.earliestOffset 0).1 = .ok ((acks.filter (t.survives 100)).map Item.event) := by
  obtain ⟨s, hopen, _⟩ := exists_openLog_new ⟨.always, 1000, 128⟩ 0 0
  have hcount : (openLog ⟨.always, 1000, 128⟩ LogDir.empty 0 0).map (fun s =>
      let r := runCalls [.append (.dict [("receive_timestamp", .int 1)]) (Env.faultless 0 0 0 0),
        .appendBatch [.dict [("receive_timestamp", .int 2)]] (Env.faultless 0 0 0 0)] s
      (r.1.length, (r.1.filter (r.2.survives 100)).length)) = .ok (2, 1) := by
    decide
  have hcount := Prod.mk.injEq _ _ _ _ ▸ eq_of_map_ok hopen hcount
  have henv := Env.recoverable_faultless 0 0 0 0
  obtain ⟨u, hopen', hread, _⟩ := recovery_after_crash ⟨.always, 1000, 128⟩ hopen
    [.append (.dict [("receive_timestamp", .int 1)]) (Env.faultless 0 0 0 0),
      .appendBatch [.dict [("receive_timestamp", .int 2)]] (Env.faultless 0 0 0 0)] rfl
    (by simpa using ⟨henv, henv⟩) (by decide) 100 0 0 0 0
  exact ⟨s, _, _, hopen, rfl, hcount.1, hcount.2, u, hopen', hread⟩

/-! ## Zeros behind the cut -/

/-- After a crash that leaves the first `c` bytes of the newest segment file and `z` zeros, the directory is opened with exactly
the frames that lie wholly in these bytes: the newest segment file ends with the last of them, and they are what is read. -/
def KeepsWholeFrames (cfg : LogConfig) (s : IngestLog) (acks : List Item) (c z : Nat) (now ts : UInt64) : Prop :=
  ∃ u, openLog cfg (s.crashZeros c z) now ts = .ok u ∧ u.dir.files = (s.crash (s.wholeEnd acks c)).files ∧
    (u.iterFrom u.earliestOffset now).1 = .ok ((acks.filter (s.survives c)).map Item.event)

/-- After any appending calls on a new log and a crash that leaves the first bytes of the newest segment file, at least its
header, with zeros behind them, opening keeps exactly the whole frames if and only if the zeros are harmless to the frame
that was torn. -/
theorem keepsWholeFrames_iff (cfg : LogConfig) {now ts : UInt64} {s : IngestLog}
    (hopen : openLog cfg LogDir.empty now ts = .ok s) (calls : List Call) {acks : List Item} {t : IngestLog}
    (hrun : runCalls calls s = (acks, t)) (henv : ∀ call ∈ calls, call.env.Recoverable)
    (hfit : ∀ call ∈ calls, ∀ e ∈ call.entries, e.FitsLimits cfg.maxSegmentBytes) {c : Nat} (hc : segmentHeaderSize ≤ c)
    (z : Nat) (now' ts' : UInt64) :
    KeepsWholeFrames cfg t acks c z now' ts' ↔
      ZerosHarmless ((t.newestBytes.take c).drop (t.wholeEnd acks c)) z := by
  obtain ⟨L, hrep, rfl, hfirst, hwithin⟩ := runCalls_new hopen hrun henv
  have hw := hwithin hfit
  have hactive : L.active.Fits := L.fits L.active (by simp)
  have hwactive : L.active.Within cfg.maxSegmentBytes := hw L.active (by simp [Layout.segments])
  obtain ⟨tail, htake, hiff⟩ := Segment.tornTail_zeros_iff hactive hwactive hc z
  have htorn : (t.newestBytes.take c).drop (t.wholeEnd L.items c) = tail := by
    rw [newestBytes_eq hrep, htake, wholeEnd_eq hrep, List.drop_left]
  have hfiles : (t.crash (t.wholeEnd L.items c)).files = (L.cut c).files := by
    have hwhole : L.active.bytes.take (L.active.cut c).bytes.length = (L.active.cut c).bytes := by
      have hpre : (L.active.cut c).bytes <+: L.active.bytes.take c := ⟨tail, htake.symm⟩
      exact (List.prefix_iff_eq_take.mp (hpre.trans (List.take_prefix c _))).symm
    rw [crash, newestBytes_eq hrep, wholeEnd_eq hrep, hwhole, files_crashTo hrep, Layout.files, Layout.segments,
      List.map_append]
    rfl
  have hzeros : t.crashZeros c z = t.crashTo ((L.active.cut c).bytes ++ (tail ++ zeros z)) := by
    rw [crashZeros, newestBytes_eq hrep, htake, List.append_assoc]
  have hw' : (L.cut c).Within cfg.maxSegmentBytes := Layout.within_cut hw c
  rw [htorn, ← hiff, KeepsWholeFrames, hzeros, hfiles]
  constructor
  · rintro ⟨u, hu, hdir, _⟩
    by_contra hnot
    exact files_ne_of_not_tornTail hrep hw c hnot hu hdir
  · intro htail
    obtain ⟨u, hu, hopened⟩ := openLog_torn now' ts' (files_crashTo hrep _) hw' (Layout.anchored_of_first hfirst) htail
    refine ⟨u, hu, hopened.files, ?_⟩
    rw [hopened.iterFrom hw', filter_survives hrep]

/-- Eight bytes of a frame and five zeros are cut off. -/
theorem keepsWholeFrames_short : ∃ s acks t, openLog ⟨.always, 1000, 128⟩ LogDir.empty 0 0 = .ok s ∧
    runCalls [.append (.dict [("receive_timestamp", .int 1)]) (Env.faultless 0 0 0 0)] s = (acks, t) ∧
    KeepsWholeFrames ⟨.always, 1000, 128⟩ t acks 40 5 0 0 := by
  obtain ⟨s, hopen, _⟩ := exists_openLog_new ⟨.always, 1000, 128⟩ 0 0
  have hharmless : (openLog ⟨.always, 1000, 128⟩ LogDir.empty 0 0).map (fun s =>
      let r := runCalls [.append (.dict [("receive_timestamp", .int 1)]) (Env.faultless 0 0 0 0)] s
      decide (ZerosHarmless ((r.2.newestBytes.take 40).drop (r.2.wholeEnd r.1 40)) 5)) = .ok true := by
    decide
  rcases hrun : runCalls [.append (.dict [("receive_timestamp", .int 1)]) (Env.faultless 0 0 0 0)] s with ⟨acks, t⟩
  have hharmless := eq_of_map_ok hopen hharmless
  simp only [hrun, decide_eq_true_eq] at hharmless
  have henv := Env.recoverable_faultless 0 0 0 0
  exact ⟨s, acks, t, hopen, hrun, (keepsWholeFrames_iff ⟨.always, 1000, 128⟩ hopen _ hrun
    (List.forall_mem_singleton.mpr henv) (by decide) (by decide) 5 0 0).mpr hharmless⟩

set_option maxRecDepth 20000 in
/-- One byte of a frame and 27 zeros make the log refuse to open. -/
theorem keepsWholeFrames_false : ∃ s acks t, openLog ⟨.always, 1000, 128⟩ LogDir.empty 0 0 = .ok s ∧
    runCalls [.append (.dict [("receive_timestamp", .int 1)]) (Env.faultless 0 0 0 0)] s = (acks, t) ∧
    (∀ i ∈ acks, i.entry.FitsLimits 1000) ∧
    openLog ⟨.always, 1000, 128⟩ (t.crashZeros 33 27) 0 0 = .error (.corrupt 0 (.frameMagic 0xAA00 32 0)) ∧
    ¬KeepsWholeFrames ⟨.always, 1000, 128⟩ t acks 33 27 0 0 := by
  obtain ⟨s, hopen, _⟩ := exists_openLog_new ⟨.always, 1000, 128⟩ 0 0
  have hrun : (openLog ⟨.always, 1000, 128⟩ LogDir.empty 0 0).map (fun s =>
      let r := runCalls [.append (.dict [("receive_timestamp", .int 1)]) (Env.faultless 0 0 0 0)] s
      (decide (∀ i ∈ r.1, i.entry.FitsLimits 1000),
        (openLog ⟨.always, 1000, 128⟩ (r.2.crashZeros 33 27) 0 0).map (fun _ => ()))) =
      .ok (true, .error (.corrupt 0 (.frameMagic 0xAA00 32 0))) := by
    decide
  rcases hcalls : runCalls [.append (.dict [("receive_timestamp", .int 1)]) (Env.faultless 0 0 0 0)] s with ⟨acks, t⟩
  have hrun := eq_of_map_ok hopen hrun
  simp only [hcalls, Prod.mk.injEq, decide_eq_true_eq] at hrun
  obtain ⟨hfit, hopen'⟩ := hrun
  have herr := error_of_map hopen'
  refine ⟨s, acks, t, hopen, hcalls, hfit, herr, ?_⟩
  rintro ⟨u, hu, _⟩
  rw [herr] at hu
  cases hu

/-! ## Closing and opening again -/

/-- The log closes and opens again, and reads back every record that was acknowledged. -/
def ReadsBack (cfg : LogConfig) (s : IngestLog) (acks : List Item) (now ts : UInt64) : Prop :=
  ∃ u, openLog cfg (s.close .ok true).dir now ts = .ok u ∧ (u.iterFrom 0 now).1 = .ok (acks.map Item.event)

/-- After appending calls on a new log that all return offsets, the log can be closed, opened again and read back if and only
if the payload of every record is within both limits of the reader. -/
theorem readsBack_iff (cfg : LogConfig) {now ts : UInt64} {s : IngestLog} (hopen : openLog cfg LogDir.empty now ts = .ok s)
    (calls : List Call) {acks : List Item} {t : IngestLog} (hrun : runCalls calls s = (acks, t))
    (henv : ∀ call ∈ calls, call.env.Recoverable) (hall : acks.length = (calls.flatMap Call.entries).length)
    (now' ts' : UInt64) :
    ReadsBack cfg t acks now' ts' ↔ ∀ call ∈ calls, ∀ e ∈ call.entries, e.FitsLimits cfg.maxSegmentBytes := by
  obtain ⟨L, hrep, rfl, hfirst, hwithin⟩ := runCalls_new hopen hrun henv
  have hfiles := (close_spec hrep true).2.1
  have hentries : L.items.map Item.entry = calls.flatMap Call.entries := by
    have h := (runCalls_entries calls s).2
    rw [hrun] at h
    exact h hall
  constructor
  · rintro ⟨u, hu, _⟩ call hcall e he
    have hw := Layout.within_iff_items.mp (within_of_repairedFiles hfiles L.fits (repaired_of_openLog hu))
    have hmem : e ∈ L.items.map Item.entry := by
      rw [hentries]
      exact List.mem_flatMap.mpr ⟨call, hcall, he⟩
    obtain ⟨i, hi, rfl⟩ := List.mem_map.mp hmem
    exact hw i hi
  · intro hfit
    have hw := hwithin hfit
    obtain ⟨u, hu, hopened⟩ := openLog_tornFiles now' ts' (Layout.anchored_of_first hfirst)
      (TornFiles.of_files hfiles L.fits hw)
    refine ⟨u, hu, ?_⟩
    have hread := hopened.iterFrom hw now'
    rw [(earliestOffset_eq hopened.represents).1, hfirst] at hread
    exact hread

/-- Three records in two calls are read back. -/
theorem readsBack_three : ∃ s acks t, openLog ⟨.trueGroupCommit, 100, 1⟩ LogDir.empty 0 0 = .ok s ∧
    runCalls [.append (.dict [("receive_timestamp", .int 1)]) (Env.faultless 0 0 0 0),
      .appendBatch [.dict [("receive_timestamp", .int 2)], .dict [("receive_timestamp", .int 3)]]
        (Env.faultless 0 0 0 0)] s = (acks, t) ∧
    acks.map Item.offset = [0, 1, 2] ∧ ReadsBack ⟨.trueGroupCommit, 100, 1⟩ t acks 0 0 := by
  obtain ⟨s, hopen, _⟩ := exists_openLog_new ⟨.trueGroupCommit, 100, 1⟩ 0 0
  have hacks : (openLog ⟨.trueGroupCommit, 100, 1⟩ LogDir.empty 0 0).map (fun s =>
      let r := runCalls [.append (.dict [("receive_timestamp", .int 1)]) (Env.faultless 0 0 0 0),
        .appendBatch [.dict [("receive_timestamp", .int 2)], .dict [("receive_timestamp", .int 3)]]
          (Env.faultless 0 0 0 0)] s
      r.1.map Item.offset) = .ok [0, 1, 2] := by
    decide
  rcases hrun : runCalls [.append (.dict [("receive_timestamp", .int 1)]) (Env.faultless 0 0 0 0),
      .appendBatch [.dict [("receive_timestamp", .int 2)], .dict [("receive_timestamp", .int 3)]]
        (Env.faultless 0 0 0 0)] s with ⟨acks, t⟩
  have hacks := eq_of_map_ok hopen hacks
  simp only [hrun] at hacks
  have hlen : acks.length = 3 := by simpa using congrArg List.length hacks
  have henv := Env.recoverable_faultless 0 0 0 0
  exact ⟨s, acks, t, hopen, hrun, hacks, (readsBack_iff ⟨.trueGroupCommit, 100, 1⟩ hopen _ hrun
    (List.forall_mem_cons.mpr ⟨henv, List.forall_mem_singleton.mpr henv⟩) hlen 0 0).mpr (by decide)⟩

set_option maxRecDepth 20000 in
/-- A record of 23 bytes is acknowledged by a log of segments of 10 bytes, which then refuses to open. -/
theorem readsBack_false : ∃ s acks t, openLog ⟨.always, 10, 128⟩ LogDir.empty 0 0 = .ok s ∧
    runCalls [.append (.dict [("receive_timestamp", .int 1)]) (Env.faultless 0 0 0 0)] s = (acks, t) ∧
    acks.map Item.offset = [0] ∧
    openLog ⟨.always, 10, 128⟩ (t.close .ok true).dir 0 0 = .error (.corrupt 0 (.oversized 23 32)) ∧
    ¬ReadsBack ⟨.always, 10, 128⟩ t acks 0 0 := by
  obtain ⟨s, hopen, _⟩ := exists_openLog_new ⟨.always, 10, 128⟩ 0 0
  have hcalls : (openLog ⟨.always, 10, 128⟩ LogDir.empty 0 0).map (fun s =>
      let r := runCalls [.append (.dict [("receive_timestamp", .int 1)]) (Env.faultless 0 0 0 0)] s
      (r.1.map Item.offset, (openLog ⟨.always, 10, 128⟩ (r.2.close .ok true).dir 0 0).map (fun _ => ()))) =
      .ok ([0], .error (.corrupt 0 (.oversized 23 32))) := by
    decide
  rcases hrun : runCalls [.append (.dict [("receive_timestamp", .int 1)]) (Env.faultless 0 0 0 0)] s with ⟨acks, t⟩
  have hcalls := eq_of_map_ok hopen hcalls
  simp only [hrun, Prod.mk.injEq] at hcalls
  obtain ⟨hacks, hopen'⟩ := hcalls
  have herr := error_of_map hopen'
  refine ⟨s, acks, t, hopen, hrun, hacks, herr, ?_⟩
  rintro ⟨u, hu, _⟩
  rw [herr] at hu
  cases hu

end Mdrap
