import Mdrap.Lemmas.Open
import Mdrap.Lemmas.Run
import Mdrap.Lemmas.Submit
import Mdrap.Engine.Exact

/-!
# One call or many

A list of events can be handed in by one call or by a call for each. With a log the offsets come from the log and the outcome is
the same. Without one they are counted on from the last offset that was applied, which an event that raises leaves where it is: the
next call uses its offset again, and the next event of the same call does not.
-/

namespace Mdrap

open Lib

variable {V : Type}

namespace Engine

/-- `submit`, with the snapshot it takes where one is due. -/
def submitSaving (save : Engine V → Engine V) (e : Engine V) (xs : List Incoming) (env : SubmitEnv) :
    Except IngestLogError (List (EngineDecision V)) × Engine V :=
  match e.submit xs env with
  | (.error err, e') => (.error err, e')
  | (.ok r, e') => (.ok r.decisions, if r.snapshotDue then save e' else e')

/-- The events handed in one by one. -/
def submitEach (save : Engine V → Engine V) (env : SubmitEnv) : List Incoming → Engine V →
    Except IngestLogError (List (EngineDecision V)) × Engine V
  | [], e => (.ok [], e)
  | x :: xs, e =>
    match e.submitSaving save [x] env with
    | (.error err, e') => (.error err, e')
    | (.ok ds, e') =>
      match submitEach save env xs e' with
      | (.error err, e'') => (.error err, e'')
      | (.ok ds', e'') => (.ok (ds ++ ds'), e'')

/-- No snapshot falls due while the events are handed in. -/
def Quiet (e : Engine V) (xs : List Incoming) (env : SubmitEnv) : Prop :=
  e.log.isSome → env.cadenceElapsed = false ∧ (e.config.snapshotCadenceEvents ≤ 0 ∨
    (e.state.eventCount + (accepted (e.screened xs)).length : Int) - e.lastSnapshotEventCount < e.config.snapshotCadenceEvents)

/-- Two engines hold the same records. -/
inductive SameRecords : Option IngestLog → Option IngestLog → Prop
  | unlogged : SameRecords none none
  | logged {log log' : IngestLog} {L L' : Layout} (hL : log.Represents L) (hL' : log'.Represents L')
      (h : L.records = L'.records) : SameRecords (some log) (some log')

/-- The same came of two ways to hand in events: the same decisions but for the note whether they are durable, the same state and
the same records. -/
structure SameOutcome (r r' : List (EngineDecision V) × Engine V) : Prop where
  decisions : r.1.map EngineDecision.bare = r'.1.map EngineDecision.bare
  state : r.2.state = r'.2.state
  gaps : r.2.gaps = r'.2.gaps
  records : SameRecords r.2.log r'.2.log

end Engine

/-- Of the events of an engine without a log, none raises after an offset has been applied, but the last one may. -/
def Settles (c : StepConfig V) (now : Json) : List RawEvent → Work V → Prop
  | [], _ => True
  | raw :: raws, w =>
    (raws ≠ [] → Raises c raw now (unloggedStart w.state) false w → w.state.lastAppliedOffset < 0) ∧
      Settles c now raws (step c raw now (some (unloggedStart w.state)) false w).2

/-- The offsets that events get from an engine without a log when they are handed in one by one. -/
def unloggedEach (c : StepConfig V) (now : Json) : List RawEvent → Work V → List Int
  | [], _ => []
  | raw :: raws, w => unloggedStart w.state :: unloggedEach c now raws (step c raw now (some (unloggedStart w.state)) false w).2

theorem Observed.unloggedStart {n : Nat} {s s' : EngineState V} (h : Observed n s s') : unloggedStart s' = unloggedStart s := by
  rw [h]
  rfl

theorem unloggedEach_observed (c : StepConfig V) (now : Json) (raws : List RawEvent) {n : Nat} {w w' : Work V}
    (hs : Observed n w.state w'.state) (hgaps : w.gaps = w'.gaps) : unloggedEach c now raws w = unloggedEach c now raws w' := by
  induction raws generalizing w w' with
  | nil => rfl
  | cons raw raws ih =>
    simp only [unloggedEach]
    rw [hs.unloggedStart]
    obtain ⟨-, hstate, hgaps'⟩ := (stepwise_observed c.py n).step raw now (Mdrap.unloggedStart w.state) false hs hgaps
    rw [ih hstate hgaps']

/-- Where the next event starts after one. -/
theorem unloggedStart_step (c : StepConfig V) (now : Json) (raw : RawEvent) (w : Work V) :
    unloggedStart (step c raw now (some (unloggedStart w.state)) false w).2.state =
      if Raises c raw now (unloggedStart w.state) false w ∧ 0 ≤ w.state.lastAppliedOffset then unloggedStart w.state
      else unloggedStart w.state + 1 := by
  obtain ⟨hcount, -, hlast⟩ := step_counters c raw now (unloggedStart w.state) false w
  have hstart : 0 ≤ unloggedStart w.state := by
    rw [unloggedStart]
    split <;> omega
  by_cases hraises : Raises c raw now (unloggedStart w.state) false w
  · rw [if_pos hraises] at hlast
    by_cases hla : 0 ≤ w.state.lastAppliedOffset
    · rw [if_pos ⟨hraises, hla⟩, unloggedStart, hlast, if_pos hla, unloggedStart, if_pos hla]
    · rw [if_neg (fun h => hla h.2), unloggedStart, hlast, if_neg hla, hcount, unloggedStart, if_neg hla]
      rfl
  · rw [if_neg hraises] at hlast
    rw [if_neg (fun h => hraises h.1)]
    rw [unloggedStart, hlast, if_pos hstart]

theorem unloggedEach_eq_iff (c : StepConfig V) (now : Json) (raws : List RawEvent) (w : Work V) :
    unloggedEach c now raws w = unloggedOffsets w.state raws.length ↔ Settles c now raws w := by
  induction raws generalizing w with
  | nil => exact ⟨fun _ => trivial, fun _ => rfl⟩
  | cons raw raws ih =>
    have hcons : unloggedOffsets w.state (raw :: raws).length =
        unloggedStart w.state :: (List.range raws.length).map (fun (i : Nat) => unloggedStart w.state + 1 + i) := by
      simp only [unloggedOffsets, List.length_cons, List.range_succ_eq_map, List.map_cons, List.map_map]
      refine congrArg₂ _ (by simp) (List.map_congr_left ?_)
      intro i _
      simp only [Function.comp_apply]
      push_cast
      omega
    have hstart := unloggedStart_step c now raw w
    rw [hcons]
    simp only [unloggedEach, Settles, List.cons.injEq, true_and]
    by_cases hbad : Raises c raw now (unloggedStart w.state) false w ∧ 0 ≤ w.state.lastAppliedOffset
    · rw [if_pos hbad] at hstart
      cases raws with
      | nil => simp [unloggedEach, Settles]
      | cons raw' raws =>
        constructor
        · intro h
          have hhead := congrArg List.head? h
          simp [unloggedEach, hstart, List.range_succ_eq_map] at hhead
        · intro h
          have hneg := h.1 (by simp) hbad.1
          omega
    · rw [if_neg hbad] at hstart
      rw [← ih]
      simp only [unloggedOffsets, hstart]
      constructor
      · intro h
        refine ⟨fun _ hraises => ?_, h⟩
        by_contra hla
        exact hbad ⟨hraises, by omega⟩
      · intro h
        exact h.2

/-- The decisions of all events tell those of the accepted ones. -/
theorem map_of_merge {f : EngineDecision V → EngineDecision V} {xs : List (Except (EngineDecision V) RawEvent)}
    {ds es : List (EngineDecision V)} (hds : ds.length = (accepted xs).length) (hes : es.length = (accepted xs).length)
    (h : (merge xs ds).map f = (merge xs es).map f) : ds.map f = es.map f := by
  induction xs generalizing ds es with
  | nil =>
    rw [List.length_eq_zero_iff.mp hds, List.length_eq_zero_iff.mp hes]
  | cons x xs ih =>
    cases x with
    | error d =>
      rw [accepted, List.filterMap_cons_none rfl] at hds hes
      exact ih hds hes (List.cons.inj h).2
    | ok raw =>
      have haccepted : accepted (.ok raw :: xs) = raw :: accepted xs := rfl
      rw [haccepted] at hds hes
      obtain ⟨d, ds, rfl⟩ := List.exists_cons_of_length_eq_add_one hds
      obtain ⟨d', es, rfl⟩ := List.exists_cons_of_length_eq_add_one hes
      obtain ⟨hhead, htail⟩ := List.cons.inj h
      rw [List.map_cons, List.map_cons, hhead, ih (by simpa using hds) (by simpa using hes) htail]

namespace Engine

/-- What decides whether a call takes a snapshot. -/
theorem submit_snapshot {e e' : Engine V} {xs : List Incoming} {env : SubmitEnv} {r : Submitted V}
    (h : e.submit xs env = (.ok r, e')) :
    (r.snapshotDue = true → e'.log.isSome ∧ ((0 < e.config.snapshotCadenceEvents ∧
      e.config.snapshotCadenceEvents ≤ (e'.state.eventCount : Int) - e.lastSnapshotEventCount) ∨ env.cadenceElapsed = true)) ∧
      (r.snapshotDue = false → e'.lastSnapshotEventCount = e.lastSnapshotEventCount) := by
  simp only [submit] at h
  split at h
  · cases h
    exact ⟨by rintro ⟨⟩, fun _ => rfl⟩
  · split at h
    · cases h
    · obtain ⟨hr, rfl⟩ := Prod.mk.inj h
      cases hr
      constructor
      · intro hdue
        simpa [cadenceDue] using hdue
      · intro hdue
        exact if_neg (Bool.not_eq_true _ ▸ hdue)

theorem Outcome.eventCount {env : Env} {e e' : Engine V} {xs : List Incoming} {offsets : List Int} {ds : List (EngineDecision V)}
    (h : e.Outcome env xs offsets ds e') :
    e'.state.eventCount = e.state.eventCount + (accepted (e.screened xs)).length := by
  rw [h.state]
  show (e.steps xs offsets).2.state.eventCount = _
  rw [steps, stepBatch_eventCount, List.length_zip, h.length, Nat.min_self]

/-- A call under which nothing falls due leaves the engine as `submit` does, and nothing falls due under the next events either. -/
theorem submitSaving_quiet {save : Engine V → Engine V} {e e' : Engine V} (he : e.LogSound) {xs ys : List Incoming} {env : SubmitEnv}
    (henv : env.log.Recoverable) {ds : List (EngineDecision V)} (hquiet : e.Quiet (xs ++ ys) env)
    (h : e.submitSaving save xs env = (.ok ds, e')) :
    e'.Quiet ys env ∧ ∃ offsets, e.Outcome env.log xs offsets ds e' ∧
      (e.log = none → offsets = unloggedOffsets e.state (accepted (e.screened xs)).length) := by
  rw [submitSaving] at h
  rcases hsubmit : e.submit xs env with ⟨err | r, e₁⟩
  · rw [hsubmit] at h
    cases h
  · rw [hsubmit] at h
    obtain ⟨offsets, houtcome, hunlogged, -⟩ := submit_outcome he henv hsubmit
    obtain ⟨hdue, hkept⟩ := submit_snapshot hsubmit
    have hscreened := congrArg (fun l => (accepted l).length) (houtcome.screened_append ys)
    simp only [accepted_append, List.length_append] at hscreened
    have hcount := houtcome.eventCount
    have hnot : r.snapshotDue = false := by
      by_contra htrue
      obtain ⟨hsome, hwhy⟩ := hdue (by simpa using htrue)
      rw [houtcome.isSome_log] at hsome
      obtain ⟨hclock, hcadence⟩ := hquiet hsome
      rcases hwhy with ⟨hpos, hreached⟩ | hclock'
      · rw [hcount] at hreached
        rw [hscreened] at hcadence
        push_cast at hreached hcadence
        omega
      · rw [hclock] at hclock'
        cases hclock'
    simp only [hnot, Bool.false_eq_true, if_false] at h
    obtain ⟨hds, rfl⟩ := Prod.mk.inj h
    cases hds
    refine ⟨?_, offsets, houtcome, hunlogged⟩
    intro hsome
    rw [houtcome.isSome_log] at hsome
    obtain ⟨hclock, hcadence⟩ := hquiet hsome
    refine ⟨hclock, ?_⟩
    rw [houtcome.config, hcount, hkept hnot]
    rw [hscreened] at hcadence
    push_cast at hcadence ⊢
    omega

/-- The offsets of an event and of those that are handed in after it. -/
theorem unloggedEach_single {env : Env} {e e' : Engine V} {x : Incoming} {offsets : List Int} {ds : List (EngineDecision V)}
    (h : e.Outcome env [x] offsets ds e')
    (hoffsets : offsets = unloggedOffsets e.state (accepted (e.screened [x])).length) (raws : List RawEvent) :
    unloggedEach e.config.toStepConfig e.config.now (accepted (e.screened [x]) ++ raws) ⟨e.state, [], e.gaps⟩ =
      unloggedOffsets e.state (accepted (e.screened [x])).length ++
        unloggedEach e.config.toStepConfig e.config.now raws ⟨e'.state, [], e'.gaps⟩ := by
  have hstate := h.state
  have hgaps := h.gaps.symm
  rw [steps, hoffsets] at hstate hgaps
  rcases hevents : accepted (e.screened [x]) with _ | ⟨raw, _ | ⟨raw', rest⟩⟩
  · rw [hevents] at hstate hgaps
    exact unloggedEach_observed _ _ raws hstate hgaps
  · rw [hevents] at hstate hgaps
    have hone : unloggedOffsets e.state [raw].length = [unloggedStart e.state] := by simp [unloggedOffsets]
    rw [hone] at hstate hgaps ⊢
    exact congrArg (unloggedStart e.state :: ·) (unloggedEach_observed _ _ raws hstate hgaps)
  · -- one event is screened, so there are not two
    have hlen : (accepted (e.screened [x])).length ≤ (e.screened [x]).length := List.length_filterMap_le _ _
    rw [hevents, screened, length_screen] at hlen
    simp at hlen

/-- What becomes of events that are handed in one by one. -/
theorem submitEach_outcome {save : Engine V → Engine V} {env : SubmitEnv} (henv : env.log.Recoverable) (xs : List Incoming)
    {e e' : Engine V} (he : e.LogSound) {ds : List (EngineDecision V)} (hquiet : e.Quiet xs env)
    (h : submitEach save env xs e = (.ok ds, e')) :
    ∃ offsets, e.Outcome env.log xs offsets ds e' ∧ (e.log = none →
      offsets = unloggedEach e.config.toStepConfig e.config.now (accepted (e.screened xs)) ⟨e.state, [], e.gaps⟩) := by
  induction xs generalizing e ds with
  | nil =>
    obtain ⟨hds, rfl⟩ := Prod.mk.inj h
    cases hds
    exact ⟨[], .nil env.log e, fun _ => rfl⟩
  | cons x xs ih =>
    have hquiet : e.Quiet ([x] ++ xs) env := hquiet
    rw [submitEach] at h
    rcases hone : e.submitSaving save [x] env with ⟨err | d, e₁⟩
    · rw [hone] at h
      cases h
    · simp only [hone] at h
      obtain ⟨hquiet', offsets, houtcome, hunlogged⟩ := submitSaving_quiet he henv hquiet hone
      rcases hrest : submitEach save env xs e₁ with ⟨err | ds', e₂⟩
      · rw [hrest] at h
        cases h
      · rw [hrest] at h
        cases h
        obtain ⟨offsets', houtcome', hunlogged'⟩ := ih (houtcome.logSound he) hquiet' hrest
        refine ⟨offsets ++ offsets', houtcome.append houtcome', ?_⟩
        intro hnone
        have hnone' : e₁.log = none := by simpa [hnone] using houtcome.isSome_log
        have hscreened : e.screened (x :: xs) = e.screened [x] ++ e₁.screened xs := houtcome.screened_append xs
        rw [hscreened, accepted_append, hunlogged' hnone', houtcome.config, hunlogged hnone]
        exact (unloggedEach_single houtcome (hunlogged hnone) _).symm

/-- The decisions tell the offsets. -/
theorem Outcome.offsets_eq {env : Env} {e e₁ e₂ : Engine V} {xs : List Incoming} {offsets offsets' : List Int}
    {ds ds' : List (EngineDecision V)} (h : e.Outcome env xs offsets ds e₁) (h' : e.Outcome env xs offsets' ds' e₂)
    (hds : ds.map EngineDecision.bare = ds'.map EngineDecision.bare) : offsets = offsets' := by
  rw [h.decisions, h'.decisions] at hds
  have hsteps := map_of_merge (length_steps h.length) (length_steps h'.length) hds
  have hoffset := congrArg (List.map EngineDecision.offset) hsteps
  simp only [List.map_map] at hoffset
  have hbare : EngineDecision.offset ∘ (EngineDecision.bare : EngineDecision V → _) = EngineDecision.offset := rfl
  rw [hbare, steps, steps, stepBatch_offsets, stepBatch_offsets, List.map_snd_zip (by rw [h.length]),
    List.map_snd_zip (by rw [h'.length])] at hoffset
  exact hoffset

/-- With the same offsets, two ways to hand in events come to the same. -/
theorem Outcome.sameOutcome {env : Env} {e e₁ e₂ : Engine V} (he : e.LogSound) {xs : List Incoming} {offsets : List Int}
    {ds ds' : List (EngineDecision V)} (h : e.Outcome env xs offsets ds e₁) (h' : e.Outcome env xs offsets ds' e₂) :
    SameOutcome (ds, e₁) (ds', e₂) where
  decisions := h.decisions.trans h'.decisions.symm
  state := Eq.trans h.state (Eq.symm h'.state)
  gaps := h.gaps.trans h'.gaps.symm
  records := by
    have hlog := h.log
    have hlog' := h'.log
    rcases hl : e.log with _ | log
    · rw [hl] at hlog hlog'
      generalize e₁.log = log₁ at hlog
      generalize e₂.log = log₂ at hlog'
      cases hlog
      cases hlog'
      exact .unlogged
    · obtain ⟨L, hL⟩ := he log hl
      rw [hl] at hlog hlog'
      generalize e₁.log = log₁ at hlog
      generalize e₂.log = log₂ at hlog'
      cases hlog with
      | logged hlog =>
        cases hlog' with
        | logged hlog' =>
          obtain ⟨L₁, hL₁, -, -, hrecords₁⟩ := hlog L hL
          obtain ⟨L₂, hL₂, -, -, hrecords₂⟩ := hlog' L hL
          exact .logged hL₁ hL₂ (hrecords₁.trans hrecords₂.symm)

end Engine

/-- An engine that has seen nothing. -/
def newEngine (log : Option IngestLog) : Engine PyNum :=
  .new { py := exactPy, sessionPolicy := .strict, stalenessThresholdS := exactPy.dec 5 0, maxPayloadBytes := 1048576,
         snapshotCadenceEvents := 100000, now := .int 1 } none log

/-- A halt of an instrument, with this exchange time. -/
def haltAt (t : Int) : Incoming :=
  ⟨⟨.str "A", .obj [("instrument", .str "X"), ("event_type", .str "HALT"), ("exchange_ts", .int t)], .int 1, .null,
    .json .null, .null⟩, none⟩

/-- Three halts, of which the second raises. -/
def threeHalts : List Incoming := [haltAt 1, haltAt (2 ^ 1024 - 1), haltAt 2]

/-- What the outside does when nothing fails. -/
def quietEnv : SubmitEnv := ⟨.faultless 0 0 0 0, false⟩

theorem exists_ok {ε α β γ : Type} {r : Except ε α × β} {f : α → γ} {c : γ} (h : r.1.toOption.map f = some c) :
    ∃ a b, r = (.ok a, b) ∧ f a = c := by
  rcases r with ⟨err | a, b⟩
  · cases h
  · exact ⟨a, b, rfl, Option.some.inj h⟩

theorem quiet_newEngine (log : Option IngestLog) : (newEngine log).Quiet threeHalts quietEnv := by
  have haccepted : (accepted ((newEngine log).screened threeHalts)).length ≤ ((newEngine log).screened threeHalts).length :=
    List.length_filterMap_le _ _
  rw [Engine.screened, length_screen] at haccepted
  refine fun _ => ⟨rfl, Or.inr ?_⟩
  show (0 + (accepted ((newEngine log).screened threeHalts)).length : Int) - 0 < 100000
  have hthree : threeHalts.length = 3 := rfl
  rw [hthree] at haccepted
  rw [Engine.screened]
  omega

end Mdrap
