import Mdrap.Lemmas.Lifetime

/-!
# Offsets over the lifetime of a directory

On opening, the next offset is computed from the frames found, not from the names of the files. Where the directory has a whole
frame, or its newest segment is the one at zero, that is the same; over a run in which every opening finds such a directory, no
offset is given twice.
-/

namespace Mdrap

open Lib IngestLog

/-- A directory whose frames give the next offset: it has a whole frame, or its newest segment is the one at zero. -/
def LogDir.Anchored (limit : Int) (dir : LogDir) : Prop := dir.frames limit ≠ [] ∨ dir.newestOffset = 0

instance (limit : Int) (dir : LogDir) : Decidable (dir.Anchored limit) := inferInstanceAs (Decidable (_ ∨ _))

/-- What a run assumes of an event: failed writes are rolled back, and an opening finds an anchored directory. -/
def Event.Admitted (cfg : LogConfig) (e : Event) (w : World) : Prop :=
  match e with
  | .call c => c.env.Recoverable
  | .reopen _ _ => ∀ dir ∈ w.log.dir?, dir.Anchored cfg.maxSegmentBytes
  | _ => True

instance (cfg : LogConfig) (e : Event) (w : World) : Decidable (e.Admitted cfg w) :=
  match e with
  | .call c => inferInstanceAs (Decidable c.env.Recoverable)
  | .reopen _ _ => inferInstanceAs (Decidable (∀ dir ∈ w.log.dir?, dir.Anchored cfg.maxSegmentBytes))
  | .purge _ | .close _ | .crash _ => isTrue trivial

/-- All events of a run are admitted. -/
def World.AdmitsRun (cfg : LogConfig) : List Event → World → Prop
  | [], _ => True
  | e :: es, w => e.Admitted cfg w ∧ World.AdmitsRun cfg es (e.step cfg w)

instance World.decidableAdmitsRun (cfg : LogConfig) : (es : List Event) → (w : World) → Decidable (World.AdmitsRun cfg es w)
  | [], _ => isTrue trivial
  | e :: es, w =>
    have := World.decidableAdmitsRun cfg es (e.step cfg w)
    inferInstanceAs (Decidable (_ ∧ _))

/-- The invariant of a run: the log represents a layout, or the directory has the files of one with the last one cut; every
acknowledged record that survived is in what is left of it, or was purged before its first offset. -/
def World.Inv (w : World) : Prop :=
  match w.log with
  | .running s => s.groupCommitFlushing = false ∧
      ∃ L : Layout, s.Represents L ∧ ∀ i ∈ w.acked, i ∈ L.items ∨ i.offset < L.first
  | .down dir => (dir.segments.entries = [] ∧ w.acked = []) ∨
      ∃ (L : Layout) (c : Nat), dir.files = L.cutFiles c ∧ ∀ i ∈ w.acked, i ∈ (L.cut c).items ∨ i.offset < L.first

namespace World

variable {cfg : LogConfig} {w : World}

/-- What an opening of an anchored directory gives. -/
theorem reopened {dir : LogDir} (ha : dir.Anchored cfg.maxSegmentBytes) {now ts : UInt64} {s : IngestLog}
    (hopen : openLog cfg dir now ts = .ok s) {acked : List Item}
    (h : (dir.segments.entries = [] ∧ acked = []) ∨
      ∃ (L : Layout) (c : Nat), dir.files = L.cutFiles c ∧ ∀ i ∈ acked, i ∈ (L.cut c).items ∨ i.offset < L.first) :
    (World.mk (.running s) acked).Inv ∧ dir.newestOffset ≤ s.nextOffset ∧ s.newestSegment ≤ s.nextOffset := by
  obtain ⟨L', hopened, hacked, hnext⟩ : ∃ L' : Layout, s.Opened cfg L' ∧
      (∀ i ∈ acked, i ∈ L'.items ∨ i.offset < L'.first) ∧ dir.newestOffset ≤ L'.next := by
    rcases h with ⟨hnil, rfl⟩ | ⟨L, c, hfiles, hacked⟩
    · obtain ⟨s', hopen', hopened⟩ := openLog_empty cfg now ts dir (by rw [hnil]; rfl) (by rw [hnil]; rfl)
        (by simp [hnil])
      rw [hopen, Except.ok.injEq] at hopen'
      subst hopen'
      exact ⟨_, hopened, by simp, by simp [LogDir.newestOffset, hnil]⟩
    · obtain ⟨L', hopened, hitems, hfirst, hnext⟩ := openLog_left hfiles hopen ha
      exact ⟨L', hopened, by rw [hitems, hfirst]; exact hacked, hnext⟩
  refine ⟨⟨hopened.idle, L', hopened.represents, hacked⟩, ?_⟩
  rw [newestSegment_eq hopened.represents, hopened.represents.next]
  exact ⟨hnext, Nat.le_add_right _ _⟩

/-- The directory the next process finds. -/
theorem Inv.dir? (h : w.Inv) {dir : LogDir} (hdir : w.log.dir? = some dir) :
    (dir.segments.entries = [] ∧ w.acked = []) ∨
      ∃ (L : Layout) (c : Nat), dir.files = L.cutFiles c ∧ ∀ i ∈ w.acked, i ∈ (L.cut c).items ∨ i.offset < L.first := by
  obtain ⟨log, acked⟩ := w
  cases log with
  | down dir' =>
    simp only [LogState.dir?, Option.some.injEq] at hdir
    subst hdir
    exact h
  | running s =>
    simp only [LogState.dir?] at hdir
    split at hdir
    · rename_i hnone
      rw [Option.isNone_iff_eq_none] at hnone
      simp only [Option.some.injEq] at hdir
      subst hdir
      obtain ⟨_, L, hrep, hacked⟩ := h
      -- all is in the files: nothing is cut off
      refine Or.inr ⟨L, L.active.bytes.length, ?_, ?_⟩
      · rw [files_of_contents hrep.contents (by simp [hnone]), L.cutFiles_length]
      · rw [L.cut_length]
        exact hacked
    · cases hdir

/-- New records stand behind all that survived. -/
theorem lt_of_grown {s t : IngestLog} {L L' : Layout} {acks acked : List Item} (h : Grown s L acks t L')
    (hacked : ∀ i ∈ acked, i ∈ L.items ∨ i.offset < L.first) :
    (∀ i ∈ acks, ∀ j ∈ acked, j.offset < i.offset) ∧ (acks.map Item.offset).Pairwise (· < ·) := by
  have hsorted : (L'.items.map Item.offset).Pairwise (· < ·) := by
    rw [L'.map_offset_items.1]
    exact List.pairwise_lt_range'
  rw [h.items, List.map_append, List.pairwise_append] at hsorted
  refine ⟨?_, hsorted.2.1⟩
  intro i hi j hj
  rcases hacked j hj with hmem | hlt
  · exact hsorted.2.2 _ (List.mem_map_of_mem hmem) _ (List.mem_map_of_mem hi)
  · have hle := (L'.first_le_offset (h.items ▸ List.mem_append_right _ hi)).1
    rw [h.first] at hle
    exact Nat.lt_of_lt_of_le hlt hle

/-- Every admitted event keeps the invariant and reuses no offset. -/
theorem Inv.step (h : w.Inv) {e : Event} (ha : e.Admitted cfg w) : (e.step cfg w).Inv ∧ e.Fresh cfg w := by
  obtain ⟨log, acked⟩ := w
  cases e with
  | reopen now ts =>
    have hfound := fun dir (hdir : log.dir? = some dir) => h.dir? (w := ⟨log, acked⟩) hdir
    constructor
    · simp only [Event.step]
      cases hdir : log.dir? with
      | none => exact h
      | some dir =>
        cases hopen : openLog cfg dir now ts with
        | error e => simpa only [hopen] using h
        | ok s =>
          simp only [hopen]
          exact (reopened (ha dir hdir) hopen (hfound dir hdir)).1
    · intro dir hdir s hs
      cases hopen : openLog cfg dir now ts with
      | error e =>
        rw [hopen] at hs
        cases hs
      | ok s' =>
        rw [hopen] at hs
        cases hs
        exact (reopened (ha dir hdir) hopen (hfound dir hdir)).2
  | call c =>
    cases log with
    | down dir => exact ⟨h, trivial⟩
    | running s =>
      obtain ⟨hidle, L, hrep, hacked⟩ := h
      obtain ⟨L', hgrown, _⟩ := c.run_spec hrep hidle ha
      refine ⟨⟨hgrown.idle.trans hidle, L', hgrown.represents, ?_⟩, lt_of_grown hgrown hacked⟩
      intro i hi
      rw [hgrown.items, hgrown.first]
      rcases List.mem_append.mp hi with hi | hi
      · exact (hacked i hi).imp_left (List.mem_append_left _)
      · exact Or.inl (List.mem_append_right _ hi)
  | purge checkpoint =>
    cases log with
    | down dir => exact ⟨h, trivial⟩
    | running s =>
      obtain ⟨hidle, L, hrep, hacked⟩ := h
      obtain ⟨n, hpurged, _⟩ := deleteSegmentsBefore_spec hrep checkpoint
      refine ⟨⟨hidle, L.purge n, hpurged, ?_⟩, trivial⟩
      intro i hi
      rcases hacked i hi with hmem | hlt
      · exact L.mem_purge n hmem
      · exact Or.inr (Nat.lt_of_lt_of_le hlt (L.first_le_purge n))
  | close fsyncIo =>
    cases log with
    | down dir => exact ⟨h, trivial⟩
    | running s =>
      obtain ⟨hidle, L, hrep, hacked⟩ := h
      obtain ⟨hclosed, _, _, hflushing⟩ := close_spec hrep fsyncIo
      exact ⟨⟨hflushing.trans hidle, L, hclosed, hacked⟩, trivial⟩
  | crash c =>
    cases log with
    | down dir => exact ⟨h, trivial⟩
    | running s =>
      obtain ⟨hidle, L, hrep, hacked⟩ := h
      refine ⟨Or.inr ⟨L, c, files_crash hrep c, ?_⟩, trivial⟩
      intro i hi
      obtain ⟨hi, hsurvives⟩ := List.mem_filter.mp hi
      rcases hacked i hi with hmem | hlt
      · rw [← filter_survives hrep c]
        exact Or.inl (List.mem_filter.mpr ⟨hmem, hsurvives⟩)
      · exact Or.inr hlt

/-- Over a run, from the invariant on. -/
theorem Inv.run (es : List Event) (h : w.Inv) (ha : AdmitsRun cfg es w) : FreshRun cfg es w := by
  induction es generalizing w with
  | nil => trivial
  | cons e es ih =>
    obtain ⟨hinv, hfresh⟩ := h.step ha.1
    exact ⟨hfresh, ih hinv ha.2⟩

end World

/-- Over any run of appends, purges, closings, crashes and openings in which failed writes are rolled back and every opening
finds an anchored directory, the offsets that calls return are greater than those of all acknowledged records that survived,
and after every opening the next offset is not below the offset in the name of the newest segment file. -/
theorem offsets_fresh (cfg : LogConfig) (es : List Event) (h : World.AdmitsRun cfg es World.initial) :
    World.FreshRun cfg es World.initial := by
  have hinv : World.initial.Inv := Or.inl ⟨rfl, rfl⟩
  exact hinv.run es h

set_option maxRecDepth 20000 in
/-- The directory is opened again with the second record in its newest segment, the first one purged. -/
theorem offsets_fresh_purged : World.FreshRun ⟨.always, 100, 128⟩
    [.reopen 0 0, .call (.append (.dict [("receive_timestamp", .int 1)]) (Env.faultless 0 0 0 0)),
      .call (.append (.dict [("receive_timestamp", .int 2)]) (Env.faultless 0 0 0 0)), .purge 1, .close true, .reopen 0 0,
      .call (.append (.dict [("receive_timestamp", .int 3)]) (Env.faultless 0 0 0 0))] World.initial :=
  offsets_fresh _ _ (by decide)

set_option maxRecDepth 20000 in
/-- The second record, for which the log had started a segment, is rolled back, and the first one is purged: the directory is
left with a segment without records at one. The next process gives offset zero again. -/
theorem offsets_fresh_false : Env.Recoverable { Env.faultless 0 0 0 0 with write := .fail 3 } ∧
    ¬World.FreshRun ⟨.always, 100, 128⟩
      [.reopen 0 0, .call (.append (.dict [("receive_timestamp", .int 1)]) (Env.faultless 0 0 0 0)),
        .call (.append (.dict [("receive_timestamp", .int 2)]) { Env.faultless 0 0 0 0 with write := .fail 3 }), .purge 1,
        .close true, .reopen 0 0, .call (.append (.dict [("receive_timestamp", .int 3)]) (Env.faultless 0 0 0 0))]
      World.initial :=
  ⟨⟨rfl, rfl, rfl⟩, by decide⟩

end Mdrap
