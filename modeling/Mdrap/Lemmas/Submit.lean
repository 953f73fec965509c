import Mdrap.Lemmas.Append
import Mdrap.Lemmas.Step
import Mdrap.Engine.Submit

/-!
# What a call of submit does

The accepted events get an offset each and go through a step each. What becomes of them depends on the offsets and not on how the
events are divided among calls (`Engine.Outcome.append`); the log holds the accepted events behind what it held.
-/

namespace Mdrap

open Lib

variable {V : Type}

/-- A decision without the note whether it is durable. -/
def EngineDecision.bare (d : EngineDecision V) : EngineDecision V := { d with durable := false }

/-! ## Batches of steps -/

theorem stepBatch_observed (c : StepConfig V) (now : Json) (events : List (RawEvent × Int)) {n : Nat} {w w' : Work V}
    (hs : Observed n w.state w'.state) (hgaps : w.gaps = w'.gaps) :
    (stepBatch c now events w).1 = (stepBatch c now events w').1 ∧
      Observed n (stepBatch c now events w).2.state (stepBatch c now events w').2.state ∧
      (stepBatch c now events w).2.gaps = (stepBatch c now events w').2.gaps := by
  induction events generalizing w w' with
  | nil => exact ⟨rfl, hs, hgaps⟩
  | cons x events ih =>
    obtain ⟨raw, offset⟩ := x
    obtain ⟨hdecision, hstate, hgaps'⟩ := (stepwise_observed c.py n).step raw now offset false hs hgaps
    obtain ⟨hrest, hstate', hgaps''⟩ := ih hstate hgaps'
    refine ⟨?_, hstate', hgaps''⟩
    simp only [stepBatch]
    rw [hdecision, hrest]

theorem stepBatch_eventCount (c : StepConfig V) (now : Json) (events : List (RawEvent × Int)) (w : Work V) :
    (stepBatch c now events w).2.state.eventCount = w.state.eventCount + events.length := by
  induction events generalizing w with
  | nil => rfl
  | cons x events ih =>
    obtain ⟨raw, offset⟩ := x
    have hone := (step_counters c raw now offset false w).1
    simp only [stepBatch, ih, List.length_cons]
    omega

theorem stepBatch_offsets (c : StepConfig V) (now : Json) (events : List (RawEvent × Int)) (w : Work V) :
    (stepBatch c now events w).1.map EngineDecision.offset = events.map Prod.snd := by
  induction events generalizing w with
  | nil => rfl
  | cons x events ih =>
    obtain ⟨raw, offset⟩ := x
    simp only [stepBatch, List.map_cons, ih, step_offset]

theorem stepBatch_append (c : StepConfig V) (now : Json) (xs ys : List (RawEvent × Int)) (w : Work V) :
    stepBatch c now (xs ++ ys) w =
      ((stepBatch c now xs w).1 ++ (stepBatch c now ys (stepBatch c now xs w).2).1,
        (stepBatch c now ys (stepBatch c now xs w).2).2) := by
  induction xs generalizing w with
  | nil => rfl
  | cons x xs ih =>
    obtain ⟨raw, offset⟩ := x
    simp only [List.cons_append, stepBatch, ih]

theorem observed_observe (n : Nat) (w : Work V) : Observed n w.state (observe n w).2.state ∧ (observe n w).2.gaps = w.gaps := by
  induction n generalizing w with
  | zero => exact ⟨rfl, rfl⟩
  | succ n ih =>
    obtain ⟨hstate, hgaps⟩ := ih ⟨{ w.state with observedCount := w.state.observedCount + 1 },
      .lastAppliedOffset w.state.lastAppliedOffset :: .observedCount w.state.observedCount ::
        .eventCount w.state.eventCount :: w.journal, w.gaps⟩
    refine ⟨?_, hgaps⟩
    have hobserve : (observe (n + 1) w).2.state = (observe n ⟨{ w.state with observedCount := w.state.observedCount + 1 },
      .lastAppliedOffset w.state.lastAppliedOffset :: .observedCount w.state.observedCount ::
        .eventCount w.state.eventCount :: w.journal, w.gaps⟩).2.state := rfl
    rw [hobserve, hstate]
    simp only [Observed]
    congr 1
    omega

/-! ## Screening -/

theorem screen_append (c : EngineConfig V) (xs ys : List Incoming) (n base : Nat) :
    screen c (xs ++ ys) n base =
      screen c xs n base ++ screen c ys (n + xs.length) (base + (accepted (screen c xs n base)).length) := by
  induction xs generalizing n base with
  | nil => rfl
  | cons x xs ih =>
    simp only [List.cons_append, screen]
    rcases turnAway c x (n + 1) with _ | d
    · simp only [ih, List.cons_append, accepted, List.filterMap_cons, Except.toOption, List.length_cons]
      congr 3
      all_goals omega
    · simp only [ih, List.cons_append, accepted, List.filterMap_cons, Except.toOption, List.length_cons]
      congr 3
      omega

theorem length_screen (c : EngineConfig V) (xs : List Incoming) (n base : Nat) : (screen c xs n base).length = xs.length := by
  induction xs generalizing n base with
  | nil => rfl
  | cons x xs ih =>
    simp only [screen]
    split
    · simp [ih]
    · simp [ih]

theorem accepted_append (xs ys : List (Except (EngineDecision V) RawEvent)) : accepted (xs ++ ys) = accepted xs ++ accepted ys :=
  List.filterMap_append

theorem merge_append {xs ys : List (Except (EngineDecision V) RawEvent)} {ds es : List (EngineDecision V)}
    (h : ds.length = (accepted xs).length) : merge (xs ++ ys) (ds ++ es) = merge xs ds ++ merge ys es := by
  induction xs generalizing ds with
  | nil =>
    cases ds with
    | nil => rfl
    | cons d ds => simp [accepted] at h
  | cons x xs ih =>
    cases x with
    | error d =>
      have hlen : ds.length = (accepted xs).length := by simpa [accepted, List.filterMap_cons, Except.toOption] using h
      simp [merge, ih hlen]
    | ok raw =>
      cases ds with
      | nil => simp [accepted, Except.toOption] at h
      | cons d ds =>
        have hlen : ds.length = (accepted xs).length := by simpa [accepted, Except.toOption] using h
        simp [merge, ih hlen]

theorem turnAway_quarantined {c : EngineConfig V} {x : Incoming} {n : Nat} {d : EngineDecision V} (h : turnAway c x n = some d) :
    d.offset = -1 ∧ d.Filed := by
  simp only [turnAway] at h
  repeat' split at h
  all_goals cases h
  all_goals exact ⟨rfl, .inl rfl⟩

theorem screen_error {c : EngineConfig V} {xs : List Incoming} {n base : Nat} {d : EngineDecision V}
    (h : .error d ∈ screen c xs n base) : d.offset = -1 ∧ d.Filed := by
  induction xs generalizing n base with
  | nil => cases h
  | cons x xs ih =>
    rw [screen] at h
    split at h
    · rename_i d' haway
      rcases List.mem_cons.mp h with hd | h
      · cases hd
        exact turnAway_quarantined haway
      · exact ih h
    · rcases List.mem_cons.mp h with hd | h
      · cases hd
      · exact ih h

/-- The decisions with an offset are those on the accepted events. -/
theorem filter_merge {xs : List (Except (EngineDecision V) RawEvent)} {ds : List (EngineDecision V)}
    (hlen : ds.length = (accepted xs).length) (haway : ∀ d, .error d ∈ xs → d.offset = -1) (hlogged : ∀ d ∈ ds, 0 ≤ d.offset) :
    (merge xs ds).filter (fun d => 0 ≤ d.offset) = ds := by
  induction xs generalizing ds with
  | nil =>
    have hnil : ds = [] := by simpa [accepted] using hlen
    rw [hnil]
    rfl
  | cons x xs ih =>
    have haway' : ∀ d, .error d ∈ xs → d.offset = -1 := fun d hd => haway d (List.mem_cons_of_mem _ hd)
    rcases x with d | raw
    · have hlen' : ds.length = (accepted xs).length := by
        simpa [accepted, List.filterMap_cons, Except.toOption] using hlen
      have hd := haway d List.mem_cons_self
      rw [merge, List.filter_cons_of_neg (by simp [hd]), ih hlen' haway' hlogged]
    · cases ds with
      | nil => simp [accepted, Except.toOption] at hlen
      | cons d ds =>
        have hlen' : ds.length = (accepted xs).length := by simpa [accepted, Except.toOption] using hlen
        have hd := hlogged d List.mem_cons_self
        rw [merge, List.filter_cons_of_pos (by simpa using hd), ih hlen' haway' (fun d hd => hlogged d (List.mem_cons_of_mem _ hd))]

/-! ## What a call does -/

theorem Observed.trans {m n : Nat} {s t u : EngineState V} (h : Observed m s t) (h' : Observed n t u) : Observed (m + n) s u := by
  rw [h', h]
  simp only [Observed]
  congr 1
  omega

/-! ## The records of a log -/

/-- Records with their offsets. -/
def numbered (offset : Nat) (es : List LogEntry) : List (Nat × LogEntry) := (List.range' offset es.length).zip es

theorem numbered_append (offset : Nat) (es es' : List LogEntry) :
    numbered offset (es ++ es') = numbered offset es ++ numbered (offset + es.length) es' := by
  rw [numbered, List.length_append, ← List.range'_append_1, List.zip_append (by simp)]
  rfl

theorem map_itemsFrom (segment offset pos : Nat) (es : List LogEntry) :
    (itemsFrom segment offset pos es).map (fun i => (i.offset, i.entry)) = numbered offset es := by
  induction es generalizing offset pos with
  | nil => rfl
  | cons e es ih => simp [itemsFrom, ih, numbered, List.range'_succ]

/-- The records of a layout with their offsets, wherever they stand. -/
def Layout.records (L : Layout) : List (Nat × LogEntry) := L.items.map (fun i => (i.offset, i.entry))

theorem Layout.records_extend (L : Layout) (es : List LogEntry) (h : ∀ f ∈ framesFrom L.next es, f.Fits) :
    (L.extend es h).records = L.records ++ numbered L.next es := by
  rw [records, items_extend, List.map_append, map_itemsFrom]
  rfl

theorem Layout.Rotated.records {L L' : Layout} (h : L.Rotated L') : L'.records = L.records := by
  rw [Layout.records, h.items]
  rfl

/-- The events are in the log, at its end and with these offsets. -/
def Appended (env : Env) (events : List RawEvent) (offsets : List Int) (log log' : IngestLog) : Prop :=
  ∀ L, log.Represents L → ∃ L', log'.Represents L' ∧ offsets = (List.range' L.next events.length).map Int.ofNat ∧
    L'.next = L.next + events.length ∧ L'.records = L.records ++ numbered L.next (IngestLog.batchEntries (events.map .event) env)

theorem Appended.nil (env : Env) (log : IngestLog) : Appended env [] [] log log := by
  intro L hL
  exact ⟨L, hL, rfl, rfl, by simp [IngestLog.batchEntries, numbered]⟩

theorem Appended.append {env : Env} {events events' : List RawEvent} {offsets offsets' : List Int} {log log' log'' : IngestLog}
    (h : Appended env events offsets log log') (h' : Appended env events' offsets' log' log'') :
    Appended env (events ++ events') (offsets ++ offsets') log log'' := by
  intro L hL
  obtain ⟨L', hL', hoffsets, hnext, hrecords⟩ := h L hL
  obtain ⟨L'', hL'', hoffsets', hnext', hrecords'⟩ := h' L' hL'
  refine ⟨L'', hL'', ?_, ?_, ?_⟩
  · rw [hoffsets, hoffsets', hnext, List.length_append, ← List.range'_append_1, List.map_append]
  · rw [hnext', hnext, List.length_append, Nat.add_assoc]
  · rw [hrecords', hrecords, hnext]
    simp only [IngestLog.batchEntries, List.map_append]
    rw [numbered_append]
    simp

/-- The events have been stored with these offsets, where there is a log. -/
inductive Stored (env : Env) (events : List RawEvent) (offsets : List Int) : Option IngestLog → Option IngestLog → Prop
  | unlogged : Stored env events offsets none none
  | logged {log log' : IngestLog} (h : Appended env events offsets log log') : Stored env events offsets (some log) (some log')

theorem Stored.nil (env : Env) (log : Option IngestLog) : Stored env [] [] log log := by
  cases log with
  | none => exact .unlogged
  | some log => exact .logged (.nil env log)

theorem Stored.append {env : Env} {events events' : List RawEvent} {offsets offsets' : List Int}
    {log log' log'' : Option IngestLog} (h : Stored env events offsets log log') (h' : Stored env events' offsets' log' log'') :
    Stored env (events ++ events') (offsets ++ offsets') log log'' := by
  cases h with
  | unlogged =>
    cases h' with
    | unlogged => exact .unlogged
  | logged h =>
    cases h' with
    | logged h' => exact .logged (h.append h')

/-- The offsets that events get from an engine without a log. -/
def unloggedOffsets (s : EngineState V) (n : Nat) : List Int := (List.range n).map (fun (i : Nat) => unloggedStart s + i)

theorem allocate_none {s : EngineState V} {events : List RawEvent} {env : Env} {offsets : List Int} {log' : Option IngestLog}
    (h : allocate none s events env = (.ok offsets, log')) : log' = none ∧ offsets = unloggedOffsets s events.length := by
  cases h
  exact ⟨rfl, rfl⟩

theorem allocate_some {log : IngestLog} {s : EngineState V} {events : List RawEvent} {env : Env} (henv : env.Recoverable)
    {offsets : List Int} {log' : Option IngestLog} (h : allocate (some log) s events env = (.ok offsets, log')) :
    Stored env events offsets (some log) log' := by
  simp only [allocate] at h
  split at h
  · rename_i hnil
    subst hnil
    cases h
    exact .logged (.nil env log)
  · split at h
    · rename_i hne _ offs log'' happend
      cases h
      refine .logged ?_
      intro L hL
      have hspec := IngestLog.appendBatch_spec hL henv (events.map .event)
      rw [happend] at hspec
      obtain ⟨L0, hrot, ⟨err, herr, -⟩ | ⟨hnil, -, -⟩ | ⟨hes, hoffs, hready⟩⟩ := hspec.outcome
      · cases herr
      · simp [IngestLog.batchEntries] at hnil
        exact absurd hnil hne
      · refine ⟨_, hready.represents, ?_, ?_, ?_⟩
        · cases hoffs
          simp [IngestLog.batchEntries]
        · rw [Layout.next_extend, hrot.next]
          simp [IngestLog.batchEntries]
        · rw [Layout.records_extend, hrot.records, hrot.next]
    · cases h

/-- A batch that is not logged leaves a log that holds a history. -/
theorem represents_allocate_error {log log'' : IngestLog} {L : Layout} (hL : log.Represents L) {s : EngineState V}
    {events : List RawEvent} {env : Env} (henv : env.Recoverable) {err : IngestLogError} {log' : Option IngestLog}
    (h : allocate (some log) s events env = (.error err, log')) (hlog' : log' = some log'') :
    ∃ L', log''.Represents L' ∧ L'.next = L.next := by
  simp only [allocate] at h
  split at h
  · cases h
  · split at h
    · cases h
    · rename_i err' log₁ happend
      cases h
      cases hlog'
      have hspec := IngestLog.appendBatch_spec hL henv (events.map .event)
      rw [happend] at hspec
      obtain ⟨L0, hrot, ⟨err, -, hrep⟩ | ⟨-, hnil, -⟩ | ⟨hes, hoffs, -⟩⟩ := hspec.outcome
      · exact ⟨L0, hrep, hrot.next⟩
      · cases hnil
      · cases hoffs

namespace Engine

/-- The events after the check at the boundary. -/
def screened (e : Engine V) (xs : List Incoming) : List (Except (EngineDecision V) RawEvent) :=
  screen e.config xs e.observedRawCount e.idBase

/-- The steps for the accepted events, with these offsets. -/
def steps (e : Engine V) (xs : List Incoming) (offsets : List Int) : List (EngineDecision V) × Work V :=
  stepBatch e.config.toStepConfig e.config.now ((accepted (e.screened xs)).zip offsets) ⟨e.state, [], e.gaps⟩

/-- The log, where there is one, holds a history. -/
def LogSound (e : Engine V) : Prop := ∀ log, e.log = some log → ∃ L, log.Represents L

/-- What becomes of events that have got these offsets, in one call or in several. -/
structure Outcome (env : Env) (e : Engine V) (xs : List Incoming) (offsets : List Int) (ds : List (EngineDecision V))
    (e' : Engine V) : Prop where
  config : e'.config = e.config
  seen : e'.observedRawCount = e.observedRawCount + xs.length
  base : e'.idBase = e.idBase + (accepted (e.screened xs)).length
  length : offsets.length = (accepted (e.screened xs)).length
  log : Stored env (accepted (e.screened xs)) offsets e.log e'.log
  decisions : ds.map EngineDecision.bare = (merge (e.screened xs) (e.steps xs offsets).1).map EngineDecision.bare
  state : Observed xs.length (e.steps xs offsets).2.state e'.state
  gaps : e'.gaps = (e.steps xs offsets).2.gaps

theorem length_steps {e : Engine V} {xs : List Incoming} {offsets : List Int}
    (h : offsets.length = (accepted (e.screened xs)).length) : (e.steps xs offsets).1.length = (accepted (e.screened xs)).length := by
  have hlen := congrArg List.length (stepBatch_offsets e.config.toStepConfig e.config.now
    ((accepted (e.screened xs)).zip offsets) ⟨e.state, [], e.gaps⟩)
  simpa [steps, h] using hlen

namespace Outcome

variable {env : Env} {e e' e'' : Engine V} {xs ys : List Incoming} {offsets offsets' : List Int} {ds ds' : List (EngineDecision V)}

theorem nil (env : Env) (e : Engine V) : e.Outcome env [] [] [] e := ⟨rfl, rfl, rfl, rfl, .nil env e.log, rfl, rfl, rfl⟩

theorem screened_append (h : e.Outcome env xs offsets ds e') (ys : List Incoming) :
    e.screened (xs ++ ys) = e.screened xs ++ e'.screened ys := by
  simp only [screened]
  rw [screen_append, h.config, h.seen, h.base]
  rfl

theorem isSome_log (h : e.Outcome env xs offsets ds e') : e'.log.isSome = e.log.isSome := by
  have hlog := h.log
  generalize e.log = log at hlog
  generalize e'.log = log' at hlog
  cases hlog with
  | unlogged => rfl
  | logged _ => rfl

theorem logSound (h : e.Outcome env xs offsets ds e') (he : e.LogSound) : e'.LogSound := by
  intro log' hlog'
  have hstored := h.log
  rw [hlog'] at hstored
  rcases hlog : e.log with _ | log
  · rw [hlog] at hstored
    cases hstored
  · rw [hlog] at hstored
    cases hstored with
    | logged happended =>
      obtain ⟨L, hL⟩ := he log hlog
      obtain ⟨L', hL', -⟩ := happended L hL
      exact ⟨L', hL'⟩

/-- What becomes of events in two calls is what becomes of them in one, at the same offsets. -/
theorem append (h : e.Outcome env xs offsets ds e') (h' : e'.Outcome env ys offsets' ds' e'') :
    e.Outcome env (xs ++ ys) (offsets ++ offsets') (ds ++ ds') e'' := by
  have hscreened := h.screened_append ys
  have hzip : (accepted (e.screened (xs ++ ys))).zip (offsets ++ offsets') =
      (accepted (e.screened xs)).zip offsets ++ (accepted (e'.screened ys)).zip offsets' := by
    rw [hscreened, accepted_append, List.zip_append h.length.symm]
  obtain ⟨hsame, hstate, hgaps⟩ := stepBatch_observed e.config.toStepConfig e.config.now
    ((accepted (e'.screened ys)).zip offsets') h.state
    (show _ = (Work.mk e'.state [] e'.gaps).gaps from h.gaps.symm)
  have hsteps : e.steps (xs ++ ys) (offsets ++ offsets') = ((e.steps xs offsets).1 ++ (e'.steps ys offsets').1,
      (stepBatch e.config.toStepConfig e.config.now ((accepted (e'.screened ys)).zip offsets') (e.steps xs offsets).2).2) := by
    simp only [steps]
    rw [hzip, stepBatch_append, h.config]
    rw [← hsame]
    rfl
  refine ⟨h'.config.trans h.config, ?_, ?_, ?_, ?_, ?_, ?_, ?_⟩
  · rw [h'.seen, h.seen, List.length_append, Nat.add_assoc]
  · rw [h'.base, h.base, hscreened, accepted_append, List.length_append, Nat.add_assoc]
  · rw [hscreened, accepted_append, List.length_append, List.length_append, h.length, h'.length]
  · rw [hscreened, accepted_append]
    exact h.log.append h'.log
  · rw [hscreened, hsteps, merge_append (length_steps h.length), List.map_append, List.map_append, h.decisions, h'.decisions]
  · rw [hsteps, List.length_append]
    have hlast := h'.state
    simp only [steps, h.config] at hlast
    exact hstate.trans hlast
  · rw [hsteps, h'.gaps]
    simp only [steps, h.config]
    exact hgaps.symm

end Outcome

/-- The offsets of the accepted events of a call. -/
theorem allocate_stored {e : Engine V} {events : List RawEvent} {env : Env} (henv : env.Recoverable) {offsets : List Int}
    {log' : Option IngestLog} (h : allocate e.log e.state events env = (.ok offsets, log')) :
    Stored env events offsets e.log log' ∧ (e.log = none → offsets = unloggedOffsets e.state events.length) := by
  rcases hlog : e.log with _ | log
  · rw [hlog] at h
    obtain ⟨rfl, rfl⟩ := allocate_none h
    exact ⟨.unlogged, fun _ => rfl⟩
  · rw [hlog] at h
    exact ⟨allocate_some henv h, fun hnone => by cases hnone⟩

/-- Stored events have an offset each. -/
theorem length_stored {e : Engine V} (he : e.LogSound) {events : List RawEvent} {env : Env} {offsets : List Int}
    {log' : Option IngestLog} (h : Stored env events offsets e.log log')
    (hunlogged : e.log = none → offsets = unloggedOffsets e.state events.length) : offsets.length = events.length := by
  rcases hlog : e.log with _ | log
  · rw [hunlogged hlog]
    simp [unloggedOffsets]
  · rw [hlog] at h
    cases h with
    | logged h =>
      obtain ⟨L, hL⟩ := he log hlog
      obtain ⟨-, -, hoffsets, -⟩ := h L hL
      rw [hoffsets]
      simp

/-- The ids count on from the stored events. -/
theorem idBase_stored {e e' : Engine V} (he : e.LogSound) {events : List RawEvent} {env : Env} {offsets : List Int}
    (h : Stored env events offsets e.log e'.log) (hcount : e'.state.eventCount = e.state.eventCount + events.length) :
    e'.idBase = e.idBase + events.length := by
  rcases hlog : e.log with _ | log
  · rw [hlog] at h
    have hlog' : e'.log = none := by
      generalize e'.log = log' at h
      cases h
      rfl
    simp only [idBase, hlog, hlog']
    exact hcount
  · rcases hlog' : e'.log with _ | log'
    · rw [hlog, hlog'] at h
      cases h
    · rw [hlog, hlog'] at h
      cases h with
      | logged h =>
        obtain ⟨L, hL⟩ := he log hlog
        obtain ⟨L', hL', -, hnext, -⟩ := h L hL
        simp only [idBase, hlog, hlog']
        rw [hL.next, hL'.next]
        exact hnext

/-- A call that returns has given its accepted events these offsets. -/
theorem submit_outcome {e e' : Engine V} (he : e.LogSound) {xs : List Incoming} {env : SubmitEnv} (henv : env.log.Recoverable)
    {r : Submitted V} (h : e.submit xs env = (.ok r, e')) :
    ∃ offsets, e.Outcome env.log xs offsets r.decisions e' ∧
      (e.log = none → offsets = unloggedOffsets e.state (accepted (e.screened xs)).length) ∧
      r.dispatchOffset = lastOffset (e.screened xs) offsets := by
  simp only [submit] at h
  split at h
  · rename_i hnil
    subst hnil
    cases h
    exact ⟨[], .nil env.log e, fun _ => rfl, rfl⟩
  · rw [show screen e.config xs e.observedRawCount e.idBase = e.screened xs from rfl] at h
    rcases halloc : allocate e.log e.state (accepted (e.screened xs)) env.log with ⟨err | offsets, log'⟩
    · rw [halloc] at h
      cases h
    · rw [halloc] at h
      obtain ⟨hstored, hunlogged⟩ := allocate_stored henv halloc
      obtain ⟨hobserved, hgaps⟩ := observed_observe xs.length ⟨e.state, [], e.gaps⟩
      obtain ⟨hsame, hstate, hgaps'⟩ := stepBatch_observed e.config.toStepConfig e.config.now
        ((accepted (e.screened xs)).zip offsets) hobserved hgaps.symm
      have hlength := length_stored he hstored hunlogged
      have hcount : (stepBatch e.config.toStepConfig e.config.now ((accepted (e.screened xs)).zip offsets)
          (observe xs.length ⟨e.state, [], e.gaps⟩).2).2.state.eventCount =
            e.state.eventCount + (accepted (e.screened xs)).length := by
        rw [stepBatch_eventCount, hobserved, List.length_zip, hlength, Nat.min_self]
      obtain ⟨hr, rfl⟩ := Prod.mk.inj h
      cases hr
      refine ⟨offsets, ⟨rfl, rfl, idBase_stored he hstored hcount, hlength, hstored, ?_, hstate, hgaps'.symm⟩, hunlogged, rfl⟩
      rw [steps, hsame, List.map_map]
      rfl

/-- A call that raises leaves the configuration and the next offset. -/
theorem submit_error {e e' : Engine V} (he : e.LogSound) {xs : List Incoming} {env : SubmitEnv} (henv : env.log.Recoverable)
    {err : IngestLogError} (h : e.submit xs env = (.error err, e')) :
    e'.config = e.config ∧ e'.LogSound ∧ e'.log.map IngestLog.nextOffset = e.log.map IngestLog.nextOffset := by
  simp only [submit] at h
  split at h
  · cases h
  · split at h
    · rename_i err log' halloc
      obtain ⟨-, rfl⟩ := Prod.mk.inj h
      rcases hlog : e.log with _ | log
      · rw [hlog] at halloc
        cases halloc
      · obtain ⟨L, hL⟩ := he log hlog
        rw [hlog] at halloc
        rcases log' with _ | log'
        · -- a batch that is not logged leaves a log
          simp only [allocate] at halloc
          split at halloc
          · cases halloc
          · split at halloc <;> cases halloc
        obtain ⟨L', hL', hnext⟩ := represents_allocate_error hL henv halloc rfl
        refine ⟨rfl, ?_, ?_⟩
        · intro log'' hlog''
          cases hlog''
          exact ⟨L', hL'⟩
        · simp only [Option.map_some, hL.next, hL'.next, hnext]
    · cases h

/-- A call keeps the log sound, whether it returns or raises. -/
theorem logSound_submit {e : Engine V} (he : e.LogSound) (xs : List Incoming) {env : SubmitEnv} (henv : env.log.Recoverable) :
    (e.submit xs env).2.LogSound := by
  rcases hsubmit : e.submit xs env with ⟨err | r, e'⟩
  · exact (submit_error he henv hsubmit).2.1
  · obtain ⟨offsets, houtcome, -⟩ := submit_outcome he henv hsubmit
    exact houtcome.logSound he

end Engine

end Mdrap
