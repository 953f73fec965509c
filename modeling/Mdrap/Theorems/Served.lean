import Mdrap.Lemmas.Open
import Mdrap.Lemmas.Served
import Mdrap.Theorems.Batch

/-!
# A projection that is served by an engine

A call hands its decisions to the projection with the offset of its last event. An event that is turned away has none, so that a
call that ends with one leaves the checkpoint where it is, and the tracker holds back whatever comes after it. A row whose id is
taken is passed over. In a run in which neither happens the projection is up to date after every call.
-/

namespace Mdrap

open Lib

variable {V : Type}

/-! ## The decisions of a call -/

theorem stepBatch_filed (c : StepConfig V) (now : Json) (events : List (RawEvent × Int)) (w : Work V) :
    ∀ d ∈ (stepBatch c now events w).1, d.Filed := by
  induction events generalizing w with
  | nil => exact fun d hd => nomatch hd
  | cons x events ih =>
    obtain ⟨raw, offset⟩ := x
    intro d hd
    simp only [stepBatch] at hd
    rcases List.mem_cons.mp hd with rfl | hd
    · exact (step_decision c raw now offset false w).2.1
    · exact ih _ d hd

theorem mem_merge {xs : List (Except (EngineDecision V) RawEvent)} {ds : List (EngineDecision V)} {d : EngineDecision V}
    (h : d ∈ merge xs ds) : .error d ∈ xs ∨ d ∈ ds := by
  induction xs generalizing ds with
  | nil => cases h
  | cons x xs ih =>
    rcases x with d' | raw
    · rcases List.mem_cons.mp h with rfl | h
      · exact .inl List.mem_cons_self
      · exact (ih h).imp (List.mem_cons_of_mem _) id
    · cases ds with
      | nil => exact (ih h).imp (List.mem_cons_of_mem _) id
      | cons d' ds =>
        rcases List.mem_cons.mp h with rfl | h
        · exact .inr List.mem_cons_self
        · exact (ih h).imp (List.mem_cons_of_mem _) (List.mem_cons_of_mem _)

theorem length_merge {xs : List (Except (EngineDecision V) RawEvent)} {ds : List (EngineDecision V)}
    (h : ds.length = (accepted xs).length) : (merge xs ds).length = xs.length := by
  induction xs generalizing ds with
  | nil => rfl
  | cons x xs ih =>
    rcases x with d | raw
    · have hlen : ds.length = (accepted xs).length := by simpa [accepted, List.filterMap_cons, Except.toOption] using h
      simp [merge, ih hlen]
    · cases ds with
      | nil => simp [accepted, Except.toOption] at h
      | cons d ds =>
        have hlen : ds.length = (accepted xs).length := by simpa [accepted, Except.toOption] using h
        simp [merge, ih hlen]

/-- The log offsets among the decisions of a call are those of the accepted events. -/
theorem walOffsets_merge {xs : List (Except (EngineDecision V) RawEvent)} {ds : List (EngineDecision V)}
    (hlen : ds.length = (accepted xs).length) (haway : ∀ d, .error d ∈ xs → d.offset = -1)
    (hlogged : ∀ d ∈ ds, 0 ≤ d.offset) : walOffsets ((merge xs ds).map .decision) = ds.map EngineDecision.offset := by
  have hoffsets : ((merge xs ds).map BatchItem.decision).filterMap BatchItem.offset? = (merge xs ds).map EngineDecision.offset := by
    rw [List.filterMap_map, ← List.filterMap_eq_map]
    rfl
  rw [walOffsets, hoffsets, List.filter_map]
  exact congrArg (List.map EngineDecision.offset) (filter_merge hlen haway hlogged)

/-- What a projection takes from decisions does not depend on the note whether they are durable. -/
theorem flatMap_of_bare {A : Type} (f : BatchItem V → List A) (hf : ∀ d : EngineDecision V, f (.decision d.bare) = f (.decision d))
    {ds ds' : List (EngineDecision V)} (h : ds.map EngineDecision.bare = ds'.map EngineDecision.bare) :
    (ds.map .decision).flatMap f = (ds'.map .decision).flatMap f := by
  have hbare : ∀ ds : List (EngineDecision V),
      (ds.map .decision).flatMap f = ((ds.map EngineDecision.bare).map .decision).flatMap f := by
    intro ds
    simp only [List.flatMap_def, List.map_map]
    exact congrArg List.flatten (List.map_congr_left (fun d _ => (hf d).symm))
  rw [hbare ds, hbare ds', h]

theorem walOffsets_of_bare {ds ds' : List (EngineDecision V)} (h : ds.map EngineDecision.bare = ds'.map EngineDecision.bare) :
    walOffsets (ds.map .decision) = walOffsets (ds'.map .decision) := by
  have heq := flatMap_of_bare (fun item => item.offset?.toList) (fun _ => rfl) h
  simp only [walOffsets, List.filterMap_eq_flatMap_toList]
  rw [heq]

namespace Served

/-- The decisions a call makes, whose events would get the next offsets of the log. -/
def handed (s : Served V) (xs : List Incoming) : List (EngineDecision V) :=
  merge (s.engine.screened xs)
    (s.engine.steps xs ((List.range' s.nextOffset (accepted (s.engine.screened xs)).length).map Int.ofNat)).1

/-- The call does not end with an event that is turned away unless all are, and no row of its decisions is null where it must
not be or has an id that another row has. -/
structure Serves (s : Served V) (call : ServedCall) : Prop where
  ends : accepted (s.engine.screened call.events) ≠ [] → ∃ raw, (s.engine.screened call.events).getLast? = some (.ok raw)
  admits : s.projection.db.Admits s.engine.config.py ((s.handed call.events).map .decision)

/-- The projection keeps up: it is up to date, and ready for the next batch. -/
structure Tracks (s : Served V) : Prop where
  logged : s.engine.log.isSome
  sound : s.engine.LogSound
  inStep : InStep s.nextOffset s.tracker s.projection
  rows : ∀ d ∈ s.returned, s.projection.db.HasRow s.engine.config.py d

theorem Tracks.upToDate {s : Served V} (h : s.Tracks) : s.UpToDate := ⟨h.inStep.stored, h.rows⟩

theorem nextOffset_eq {s : Served V} (h : s.engine.log.isSome) : s.nextOffset = s.engine.idBase := by
  obtain ⟨log, hlog⟩ := Option.isSome_iff_exists.mp h
  simp [nextOffset, Engine.idBase, hlog]

/-- The accepted events of a call get the next offsets of the log. -/
theorem Tracks.offsets_eq {s : Served V} (h : s.Tracks) {env : Env} {xs : List Incoming} {offsets : List Int}
    {ds : List (EngineDecision V)} {e : Engine V} (hout : s.engine.Outcome env xs offsets ds e) :
    offsets = (List.range' s.nextOffset (accepted (s.engine.screened xs)).length).map Int.ofNat := by
  obtain ⟨log, hlog⟩ := Option.isSome_iff_exists.mp h.logged
  obtain ⟨L, hL⟩ := h.sound log hlog
  have hstored := hout.log
  rw [hlog] at hstored
  generalize e.log = log' at hstored
  cases hstored with
  | logged happended =>
    obtain ⟨L', -, hoffsets, -⟩ := happended L hL
    rw [hoffsets, nextOffset, hlog, Option.map_some, Option.getD_some, hL.next]

/-- The batch of a call carries the offsets of its accepted events. -/
theorem Tracks.carries {s : Served V} (h : s.Tracks) {call : ServedCall} (hserves : s.Serves call) {env : Env}
    {offsets : List Int} {ds : List (EngineDecision V)} {e : Engine V}
    (hout : s.engine.Outcome env call.events offsets ds e) (hne : ds ≠ []) :
    Carries s.nextOffset (accepted (s.engine.screened call.events)).length
      ⟨0, lastOffset (s.engine.screened call.events) offsets, ds.map .decision⟩ := by
  have hoffsets := h.offsets_eq hout
  refine ⟨by simpa using hne, ?_, ?_⟩
  · have hsteps : (s.engine.steps call.events offsets).1.map EngineDecision.offset = offsets := by
      rw [Engine.steps, stepBatch_offsets, List.map_snd_zip (by rw [hout.length])]
    rw [walOffsets_of_bare hout.decisions, walOffsets_merge (Engine.length_steps hout.length) (fun d hd => (screen_error hd).1),
      hsteps, hoffsets]
    · rfl
    · intro d hd
      have hmem : d.offset ∈ offsets := hsteps ▸ List.mem_map_of_mem hd
      rw [hoffsets] at hmem
      obtain ⟨i, -, hi⟩ := List.mem_map.mp hmem
      rw [← hi]
      exact Int.natCast_nonneg i
  · have hends := hserves.ends
    rcases hk : accepted (s.engine.screened call.events) with _ | ⟨raw, rest⟩
    · -- no event is accepted, so the last one is not
      rw [hk] at hoffsets
      rw [hoffsets]
      simp only [lastOffset]
      split <;> rfl
    · obtain ⟨last, hlast⟩ := hends (by simp [hk])
      have hlen : (accepted (s.engine.screened call.events)).length ≠ 0 := by simp [hk]
      rw [← hk, if_neg hlen, lastOffset, hlast, hoffsets]
      simp only [List.getLast?_map, List.getLast?_range', if_neg hlen, Option.map_some, Option.getD_some]
      simp only [Int.ofNat_eq_natCast]
      omega

theorem tracks_prune {s : Served V} (h : s.Tracks) (before : Option Int) : (s.prune before).Tracks := by
  rcases before with _ | offset
  · exact h
  · obtain ⟨log, hlog⟩ := Option.isSome_iff_exists.mp h.logged
    have hlog' : (s.prune (some offset)).engine.log = some (log.deleteSegmentsBefore offset).2 := by simp [prune, hlog]
    have hnext : (s.prune (some offset)).nextOffset = s.nextOffset := by
      simp only [nextOffset, hlog', hlog]
      rfl
    refine ⟨by simp [hlog'], ?_, ?_, h.rows⟩
    · intro log' hsome
      rw [hlog'] at hsome
      cases hsome
      obtain ⟨L, hL⟩ := h.sound log hlog
      obtain ⟨n, hpurged, -⟩ := IngestLog.deleteSegmentsBefore_spec hL offset
      exact ⟨_, hpurged⟩
    · rw [hnext]
      exact h.inStep

/-- A call whose batch fits leaves the projection up to date. -/
theorem Tracks.submit {s : Served V} {call : ServedCall} (h : s.Tracks) (henv : call.env.log.Recoverable)
    (hserves : s.Serves call) : (s.submit call).Tracks := by
  by_cases hnil : call.events = []
  · -- a call without events does nothing
    have hsame : s.submit call = s := by
      simp [Served.submit, Engine.submit, hnil]
    rw [hsame]
    exact h
  rw [Served.submit]
  rcases hsubmit : s.engine.submit call.events call.env with ⟨err | r, e⟩
  · obtain ⟨hconfig, hsound, hnext⟩ := Engine.submit_error h.sound henv hsubmit
    have hsame : ({ s with engine := e } : Served V).nextOffset = s.nextOffset := congrArg (Option.getD · 0) hnext
    refine ⟨?_, hsound, ?_, ?_⟩
    · have hsome := congrArg Option.isSome hnext
      simpa [h.logged] using hsome
    · rw [hsame]
      exact h.inStep
    · rw [hconfig]
      exact h.rows
  · obtain ⟨offsets, hout, -, hdispatch⟩ := Engine.submit_outcome h.sound henv hsubmit
    have hlogged : e.log.isSome := by rw [hout.isSome_log]; exact h.logged
    have hnext : ({ s with engine := e } : Served V).nextOffset =
        s.nextOffset + (accepted (s.engine.screened call.events)).length := by
      rw [nextOffset_eq hlogged, nextOffset_eq h.logged]
      exact hout.base
    have hlength : r.decisions.length = call.events.length := by
      have hlen := congrArg List.length hout.decisions
      rw [List.length_map, List.length_map, length_merge (Engine.length_steps hout.length), Engine.screened, length_screen] at hlen
      exact hlen
    have hds : r.decisions ≠ [] := by
      rw [← List.length_pos_iff, hlength]
      exact List.length_pos_iff.mpr hnil
    have hoffsets := h.offsets_eq hout
    have hstep : InStep s.nextOffset s.tracker s.projection := h.inStep
    -- the batch reaches the projection, whose rows are those of the decisions that were foreseen
    have hcarries := h.carries hserves hout hds
    rw [← hdispatch] at hcarries
    have hhanded : r.decisions.map EngineDecision.bare = (s.handed call.events).map EngineDecision.bare := by
      rw [hout.decisions, handed, ← hoffsets]
    have hadmits : s.projection.db.Admits s.engine.config.py (r.decisions.map .decision) := by
      have hcanonical := flatMap_of_bare (BatchItem.canonicalRows s.engine.config.py) (fun _ => rfl) hhanded
      have hquarantine := flatMap_of_bare (BatchItem.quarantineRows s.engine.config.py) (fun _ => rfl) hhanded
      obtain ⟨hnull, hids, hids'⟩ := hserves.admits
      exact ⟨hcanonical ▸ hnull, hcanonical ▸ hids, hquarantine ▸ hids'⟩
    have hfiled : ∀ d ∈ r.decisions, d.Filed := by
      intro d hd
      have hmem : d.bare ∈ (merge (s.engine.screened call.events) (s.engine.steps call.events offsets).1).map EngineDecision.bare := by
        rw [← hout.decisions]
        exact List.mem_map_of_mem hd
      obtain ⟨d', hd', hbare⟩ := List.mem_map.mp hmem
      have hfiled' : d'.Filed := by
        rcases mem_merge hd' with haway | hstepped
        · exact (screen_error haway).2
        · exact stepBatch_filed _ _ _ _ d' hstepped
      have hsame : d'.bare.Filed := hfiled'
      rw [hbare] at hsame
      exact hsame
    obtain ⟨hengine, hreturned, hinStep, cp, hdb⟩ := InStep.dispatch
      (s := { s with engine := e, returned := s.returned ++ r.decisions }) hstep hcarries call.readAt
    have htracks : (({ s with engine := e, returned := s.returned ++ r.decisions } : Served V).dispatch r.decisions
        r.dispatchOffset call.readAt).Tracks := by
      refine ⟨?_, ?_, ?_, ?_⟩
      · rw [hengine]
        exact hlogged
      · rw [hengine]
        exact hout.logSound h.sound
      · have hsame : ∀ t : Served V, t.engine = e → t.nextOffset =
            s.nextOffset + (accepted (s.engine.screened call.events)).length := by
          intro t ht
          rw [nextOffset, ht]
          exact hnext
        rw [hsame _ hengine]
        exact hinStep
      · rw [hengine, hreturned, hdb]
        show ∀ d ∈ s.returned ++ r.decisions, (s.projection.db.insertBatch e.config.py (r.decisions.map .decision)).HasRow e.config.py d
        rw [hout.config]
        intro d hd
        rcases List.mem_append.mp hd with hd | hd
        · exact (h.rows d hd).insertBatch _
        · exact hadmits.hasRow (List.mem_map_of_mem hd) (hfiled d hd)
    simp only [hds, if_false]
    split
    · exact tracks_prune htracks _
    · exact htracks

end Served

theorem Served.tracks_new (c : EngineConfig V) (gaps : Option GapManager) {cfg : LogConfig} {now segmentTs : UInt64} {log : IngestLog}
    (hopen : IngestLog.openLog cfg LogDir.empty now segmentTs = .ok log) (expectedStartOffset : Nat) :
    (Served.new (.new c gaps (some log)) expectedStartOffset).Tracks := by
  have hopened := IngestLog.openLog_new hopen
  have hnext : (Served.new (.new c gaps (some log)) expectedStartOffset).nextOffset = 0 := hopened.represents.next
  refine ⟨rfl, ?_, ?_, fun d hd => nomatch hd⟩
  · intro log' hlog
    cases hlog
    exact ⟨_, hopened.represents⟩
  · rw [hnext]
    exact ⟨rfl, rfl, Int.natCast_nonneg _, Nat.zero_lt_succ _, rfl, rfl, rfl, rfl, rfl⟩

/-- In a run whose calls all end with an accepted event, unless all their events are turned away, and whose rows have ids of their
own, the projection is up to date after every call that appends a record. -/
theorem projection_upToDate (c : EngineConfig V) (gaps : Option GapManager) (cfg : LogConfig) (now segmentTs : UInt64)
    (log : IngestLog) (hopen : IngestLog.openLog cfg LogDir.empty now segmentTs = .ok log) (expectedStartOffset : Nat)
    (calls : List ServedCall) (call : ServedCall) (henv : ∀ x ∈ calls ++ [call], x.env.log.Recoverable)
    (hserves : Along Served.submit Served.Serves (.new (.new c gaps (some log)) expectedStartOffset) (calls ++ [call])) :
    (runFrom Served.submit (.new (.new c gaps (some log)) expectedStartOffset) calls).KeepsUp call := by
  have hstart := Served.tracks_new c gaps hopen expectedStartOffset
  have hrecoverable : Along Served.submit (fun _ x => x.env.log.Recoverable) (.new (.new c gaps (some log)) expectedStartOffset)
      (calls ++ [call]) := .of_forall (fun x hx _ => henv x hx) _
  have hrun := hserves.and hrecoverable
  have hend := hrun.inv (fun s call hs hok => hs.submit hok.2 hok.1) hstart
  rw [runFrom_append] at hend
  exact fun _ => hend.upToDate

/-- An event whose payload is no JSON value. -/
def circular : Incoming := ⟨(haltAt 1).raw, some "Circular reference detected"⟩

/-- A call in which nothing fails and no snapshot is taken. -/
def callOf (xs : List Incoming) : ServedCall := ⟨xs, quietEnv, 0, none⟩

theorem Database.Admits.of_nodup {P : Py V} {batch : List (BatchItem V)}
    (hnull : ∀ r ∈ batch.flatMap (BatchItem.canonicalRows P), Database.hasNull P r = false)
    (hcanonical : ((batch.flatMap (BatchItem.canonicalRows P)).map CanonicalRow.eventId).Nodup)
    (hquarantine : ((batch.flatMap (BatchItem.quarantineRows P)).map QuarantineRow.eventId).Nodup) :
    Database.empty.Admits P batch :=
  ⟨hnull, fun _ hr _ hx => List.inj_on_of_nodup_map hcanonical hx hr, fun _ hr _ hx => List.inj_on_of_nodup_map hquarantine hx hr⟩

/-- An event that is turned away does no harm before one that is accepted. -/
theorem projection_upToDate_first : ∃ log, IngestLog.openLog ⟨.always, 1000, 128⟩ LogDir.empty 0 0 = .ok log ∧
    ((Served.new (newEngine (some log)) 0).submit (callOf [circular, haltAt 1])).nextOffset = 1 ∧
    ((Served.new (newEngine (some log)) 0).submit (callOf [circular, haltAt 1])).UpToDate := by
  obtain ⟨log, hopen, hopened⟩ := IngestLog.exists_openLog_new ⟨.always, 1000, 128⟩ 0 0
  have hnext : (IngestLog.openLog ⟨.always, 1000, 128⟩ LogDir.empty 0 0).map (fun log =>
      ((Served.new (newEngine (some log)) 0).submit (callOf [circular, haltAt 1])).nextOffset) = .ok 1 := by
    decide +kernel
  have hscreened : (IngestLog.openLog ⟨.always, 1000, 128⟩ LogDir.empty 0 0).map (fun log =>
      ((newEngine (some log)).screened [circular, haltAt 1]).map Except.isOk) = .ok [false, true] := by
    decide
  have hcanonical : (IngestLog.openLog ⟨.always, 1000, 128⟩ LogDir.empty 0 0).map (fun log =>
      ((((Served.new (newEngine (some log)) 0).handed [circular, haltAt 1]).map BatchItem.decision).flatMap
        (BatchItem.canonicalRows exactPy)).map (fun r => (r.eventId, Database.hasNull exactPy r))) = .ok [("raw_A_0", false)] := by
    decide +kernel
  have hquarantine : (IngestLog.openLog ⟨.always, 1000, 128⟩ LogDir.empty 0 0).map (fun log =>
      ((((Served.new (newEngine (some log)) 0).handed [circular, haltAt 1]).map BatchItem.decision).flatMap
        (BatchItem.quarantineRows exactPy)).map QuarantineRow.eventId) = .ok ["q_A_1"] := by
    decide +kernel
  replace hnext := eq_of_map_ok hopen hnext
  replace hscreened := eq_of_map_ok hopen hscreened
  replace hcanonical := eq_of_map_ok hopen hcanonical
  replace hquarantine := eq_of_map_ok hopen hquarantine
  have hadmits : Database.empty.Admits exactPy
      (((Served.new (newEngine (some log)) 0).handed [circular, haltAt 1]).map BatchItem.decision) := by
    refine Database.Admits.of_nodup ?_ ?_ ?_
    · intro r hr
      have hmem := List.mem_map_of_mem (f := fun r => (r.eventId, Database.hasNull exactPy r)) hr
      rw [hcanonical] at hmem
      exact (Prod.mk.inj (List.mem_singleton.mp hmem)).2
    · have hids := congrArg (List.map Prod.fst) hcanonical
      rw [List.map_map] at hids
      rw [show List.map CanonicalRow.eventId _ = ["raw_A_0"] from hids]
      exact List.nodup_singleton _
    · rw [hquarantine]
      exact List.nodup_singleton _
  have hserves : (Served.new (newEngine (some log)) 0).Serves (callOf [circular, haltAt 1]) := by
    refine ⟨fun _ => ?_, hadmits⟩
    have hlast := congrArg List.getLast? hscreened
    rw [List.getLast?_map] at hlast
    obtain ⟨x, hx, hok⟩ := Option.map_eq_some_iff.mp hlast
    rcases x with d | raw
    · cases hok
    · exact ⟨raw, hx⟩
  refine ⟨log, hopen, hnext, ?_⟩
  have hkeeps := projection_upToDate (newEngine none).config none _ 0 0 log hopen 0 [] (callOf [circular, haltAt 1])
    (by simp [callOf, quietEnv, Env.recoverable_faultless]) ⟨hserves, trivial⟩
  have happends : (Served.new (newEngine (some log)) 0).nextOffset <
      ((Served.new (newEngine (some log)) 0).submit (callOf [circular, haltAt 1])).nextOffset := by
    rw [hnext]
    exact lt_of_eq_of_lt hopened.represents.next Nat.zero_lt_one
  exact hkeeps happends

/-- After an event that is accepted it does: the checkpoint stays where it was. -/
theorem projection_upToDate_false :
    ¬∀ (c : EngineConfig PyNum) (gaps : Option GapManager) (cfg : LogConfig) (now segmentTs : UInt64) (log : IngestLog),
      IngestLog.openLog cfg LogDir.empty now segmentTs = .ok log → ∀ (expectedStartOffset : Nat) (calls : List ServedCall)
      (call : ServedCall), (∀ x ∈ calls ++ [call], x.env.log.Recoverable) →
      (runFrom Served.submit (.new (.new c gaps (some log)) expectedStartOffset) calls).KeepsUp call := by
  intro h
  obtain ⟨log, hopen, hopened⟩ := IngestLog.exists_openLog_new ⟨.always, 1000, 128⟩ 0 0
  have hrun : (IngestLog.openLog ⟨.always, 1000, 128⟩ LogDir.empty 0 0).map (fun log =>
      (((Served.new (newEngine (some log)) 0).submit (callOf [haltAt 1, circular])).nextOffset,
        ((Served.new (newEngine (some log)) 0).submit (callOf [haltAt 1, circular])).projection.checkpoint)) = .ok (1, -1) := by
    decide +kernel
  have hpair := eq_of_map_ok hopen hrun
  rw [Prod.mk.injEq] at hpair
  have hkeeps := h (newEngine none).config none _ 0 0 log hopen 0 [] (callOf [haltAt 1, circular])
    (by simp [callOf, quietEnv, Env.recoverable_faultless])
  have hbefore : (Served.new (newEngine (some log)) 0).nextOffset = 0 := hopened.represents.next
  have happends : (Served.new (newEngine (some log)) 0).nextOffset <
      ((Served.new (newEngine (some log)) 0).submit (callOf [haltAt 1, circular])).nextOffset := by
    rw [hbefore, hpair.1]
    exact Nat.zero_lt_one
  have hup : ((Served.new (newEngine (some log)) 0).submit (callOf [haltAt 1, circular])).UpToDate := hkeeps happends
  have hcp := hup.1
  rw [hpair.1, hpair.2] at hcp
  exact absurd hcp (by decide)

end Mdrap
