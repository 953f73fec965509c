import Mdrap.Lib.Runs
import Mdrap.Lemmas.Step
import Mdrap.Lemmas.Open
import Mdrap.Theorems.EventIds
import Mdrap.Theorems.Served

/-!
# Every event is accounted for

A call that returns answers each of its events with one decision, in their order: that of the boundary for an event that is turned
away, that of a step for any other. Whatever the steps do, whether they decide early, late or not at all, the number of events, the
numbers of the decisions, the log's next offset and the engine's own two numbers move together.
-/

namespace Mdrap

open Lib

variable {V : Type}

/-! ## Answers -/

/-- The decision answers the event: the boundary has turned the event away, or a step has taken it. -/
def Answers (c : EngineConfig V) (x : Incoming) (d : EngineDecision V) : Prop :=
  (∃ n d', turnAway c x n = some d' ∧ d.bare = d'.bare) ∨
    ∃ base offset w, d.bare = (step c.toStepConfig ((x.raw.stamped c.now).named c.py base) c.now (some offset) false w).1.bare

theorem turnAway_oneRow {c : EngineConfig V} {x : Incoming} {n : Nat} {d : EngineDecision V} (h : turnAway c x n = some d) :
    d.OneRow := by
  simp only [turnAway] at h
  repeat' split at h
  all_goals cases h
  all_goals rfl

theorem Answers.oneRow {c : EngineConfig V} {x : Incoming} {d : EngineDecision V} (h : Answers c x d) : d.OneRow := by
  show d.bare.OneRow
  obtain ⟨n, d', haway, hbare⟩ | ⟨base, offset, w, hbare⟩ := h
  · rw [hbare]
    show d'.OneRow
    exact turnAway_oneRow haway
  · rw [hbare]
    exact (step_decision _ _ _ _ _ w).2.2

theorem oneRow_of_answers {c : EngineConfig V} {xs : List Incoming} {ds : List (EngineDecision V)}
    (h : List.Forall₂ (Answers c) xs ds) : ∀ d ∈ ds, d.OneRow := by
  induction h with
  | nil => exact fun d hd => absurd hd List.not_mem_nil
  | cons hd _ ih => exact List.forall_mem_cons.mpr ⟨hd.oneRow, ih⟩

/-- The decision is that of a step on the event. -/
def Decides (c : StepConfig V) (now : Json) (raw : RawEvent) (d : EngineDecision V) : Prop :=
  ∃ offset w, d = (step c raw now (some offset) false w).1

theorem stepBatch_decides (c : StepConfig V) (now : Json) (events : List RawEvent) (offsets : List Int)
    (hlen : offsets.length = events.length) (w : Work V) :
    List.Forall₂ (Decides c now) events (stepBatch c now (events.zip offsets) w).1 := by
  induction events generalizing offsets w with
  | nil => exact .nil
  | cons raw events ih =>
    cases offsets with
    | nil => cases hlen
    | cons offset offsets => exact .cons ⟨offset, w, rfl⟩ (ih offsets (Nat.succ.inj hlen) _)

/-- The decisions of the accepted events, put among those of the others, answer all events in their order. -/
theorem merge_answers (c : EngineConfig V) (xs : List Incoming) (n base : Nat) {ds : List (EngineDecision V)}
    (h : List.Forall₂ (Decides c.toStepConfig c.now) (accepted (screen c xs n base)) ds) :
    List.Forall₂ (Answers c) xs (merge (screen c xs n base) ds) := by
  induction xs generalizing n base ds with
  | nil => exact .nil
  | cons x xs ih =>
    rw [screen] at h ⊢
    split
    · rename_i d haway
      rw [haway] at h
      exact .cons (.inl ⟨n + 1, d, haway, rfl⟩) (ih (n + 1) base h)
    · rename_i haway
      rw [haway] at h
      cases h with
      | cons hd hds =>
        obtain ⟨offset, w, rfl⟩ := hd
        exact .cons (.inr ⟨base, offset, w, rfl⟩) (ih (n + 1) (base + 1) hds)

theorem Answers.durable {c : EngineConfig V} {x : Incoming} {d : EngineDecision V} (h : Answers c x d) (b : Bool) :
    Answers c x { d with durable := b } := h

/-! ## A call -/

theorem stepBatch_total (c : StepConfig V) (now : Json) (events : List (RawEvent × Int)) (w : Work V) :
    (stepBatch c now events w).2.state.counts.total = w.state.counts.total + events.length := by
  induction events generalizing w with
  | nil => rfl
  | cons x events ih =>
    obtain ⟨raw, offset⟩ := x
    have hone := step_counts c raw now (some offset) false w
    simp only [stepBatch, ih, List.length_cons]
    rw [hone, Counts.total_bump]
    omega

theorem length_accepted_le (xs : List (Except (EngineDecision V) RawEvent)) : (accepted xs).length ≤ xs.length :=
  List.length_filterMap_le _ _

theorem allocate_length {log : Option IngestLog} {s : EngineState V} {events : List RawEvent} {env : Env} {offsets : List Int}
    {log' : Option IngestLog} (h : allocate log s events env = (.ok offsets, log')) : offsets.length = events.length ∧
      log'.map IngestLog.nextOffset = log.map (fun l => l.nextOffset + events.length) := by
  cases log with
  | none =>
    cases h
    exact ⟨by simp, rfl⟩
  | some log =>
    obtain ⟨err, log'', herr, -⟩ | ⟨log'', hok, hnext⟩ := allocate_logged log s events env
    · rw [herr] at h
      cases h
    · rw [hok] at h
      cases h
      exact ⟨by simp, congrArg some hnext⟩

/-- The numbers of two engines differ by the same number of events: those of the steps, of the decisions, and of the log; and the
engine has seen these and the ones it has turned away. -/
structure Engine.Accounts (e e' : Engine V) : Prop where
  counts : e'.state.eventCount + e.state.counts.total = e.state.eventCount + e'.state.counts.total
  log : e'.log.map (fun l => l.nextOffset + e.state.eventCount) = e.log.map (fun l => l.nextOffset + e'.state.eventCount)
  seen : e'.observedRawCount + e.state.eventCount + e.rejectedCount =
    e.observedRawCount + e'.state.eventCount + e'.rejectedCount

namespace Engine

theorem Accounts.refl (e : Engine V) : e.Accounts e := ⟨rfl, rfl, by omega⟩

theorem Accounts.trans {e e' e'' : Engine V} (h : e.Accounts e') (h' : e'.Accounts e'') : e.Accounts e'' := by
  have hcounts := h.counts
  have hcounts' := h'.counts
  have hseen := h.seen
  have hseen' := h'.seen
  refine ⟨by omega, ?_, by omega⟩
  have hlog := h.log
  have hlog' := h'.log
  rcases hl : e.log with _ | l <;> rcases hl' : e'.log with _ | l' <;> rcases hl'' : e''.log with _ | l''
  all_goals simp [hl, hl', hl''] at hlog hlog' ⊢
  omega

/-- What a call that returns has answered, and what it has counted. -/
theorem submit_accounts {e e' : Engine V} {xs : List Incoming} {env : SubmitEnv} {r : Submitted V}
    (h : e.submit xs env = (.ok r, e')) :
    List.Forall₂ (Answers e.config) xs r.decisions ∧ e'.config = e.config ∧ e.Accounts e' := by
  simp only [submit] at h
  split at h
  · rename_i hnil
    subst hnil
    cases h
    exact ⟨.nil, rfl, .refl e⟩
  · rw [show screen e.config xs e.observedRawCount e.idBase = e.screened xs from rfl] at h
    rcases halloc : allocate e.log e.state (accepted (e.screened xs)) env.log with ⟨err | offsets, log'⟩
    · rw [halloc] at h
      cases h
    · rw [halloc] at h
      obtain ⟨hlen, hlog⟩ := allocate_length halloc
      obtain ⟨hobserved, -⟩ := observed_observe xs.length ⟨e.state, [], e.gaps⟩
      generalize (observe xs.length ⟨e.state, [], e.gaps⟩).2 = w at hobserved h
      have hzip : ((accepted (e.screened xs)).zip offsets).length = (accepted (e.screened xs)).length := by
        rw [List.length_zip, hlen, Nat.min_self]
      have hevents := stepBatch_eventCount e.config.toStepConfig e.config.now ((accepted (e.screened xs)).zip offsets) w
      have htotal := stepBatch_total e.config.toStepConfig e.config.now ((accepted (e.screened xs)).zip offsets) w
      have hanswers := merge_answers e.config xs e.observedRawCount e.idBase
        (stepBatch_decides e.config.toStepConfig e.config.now (accepted (e.screened xs)) offsets hlen w)
      rw [hzip, hobserved] at hevents htotal
      have hle := length_accepted_le (e.screened xs)
      rw [screened, length_screen] at hle
      obtain ⟨hr, rfl⟩ := Prod.mk.inj h
      cases hr
      refine ⟨?_, rfl, ?_, ?_, ?_⟩
      · exact List.forall₂_map_right_iff.mpr (hanswers.imp fun _ _ hd => hd.durable _)
      · dsimp only at hevents htotal ⊢
        omega
      · dsimp only at hevents ⊢
        rcases hl : e.log with _ | l <;> rcases hl' : log' with _ | l'
        all_goals simp [hl, hl'] at hlog ⊢
        omega
      · dsimp only at hevents ⊢
        rw [screened] at hevents
        rw [screened]
        omega

/-- The engine after a call. -/
def afterCall (e : Engine V) (call : List Incoming × SubmitEnv) : Engine V := (e.submit call.1 call.2).2

/-- The call returns. -/
def ReturnsFrom (e : Engine V) (call : List Incoming × SubmitEnv) : Prop := ∃ r, (e.submit call.1 call.2).1 = .ok r

theorem accounts_run {e : Engine V} {calls : List (List Incoming × SubmitEnv)} (h : Along afterCall ReturnsFrom e calls) :
    e.Accounts (runFrom afterCall e calls) := by
  refine h.inv (I := fun e' => e.Accounts e') ?_ (.refl e)
  rintro e' call haccounts ⟨r, hr⟩
  exact haccounts.trans (submit_accounts (Prod.ext hr rfl)).2.2

/-! ## The records of the log -/

/-- The log of an engine represents a layout, and the layout has so many records less than the engine has events. -/
def Holds (e : Engine V) (n : Int) : Prop :=
  ∃ log L, e.log = some log ∧ log.Represents L ∧ (L.records.length : Int) = e.state.eventCount + n

theorem Holds.logSound {e : Engine V} {n : Int} (h : e.Holds n) : e.LogSound := by
  obtain ⟨log, L, hlog, hL, -⟩ := h
  intro log' hlog'
  rw [hlog, Option.some_inj] at hlog'
  exact ⟨L, hlog' ▸ hL⟩

theorem Holds.afterCall {e : Engine V} {n : Int} (h : e.Holds n) {call : List Incoming × SubmitEnv}
    (henv : call.2.log.Recoverable) (hreturns : e.ReturnsFrom call) : (e.afterCall call).Holds n := by
  obtain ⟨r, hr⟩ := hreturns
  obtain ⟨offsets, houtcome, -⟩ := @submit_outcome _ _ (e.afterCall call) h.logSound _ _ henv _ (Prod.ext hr rfl)
  obtain ⟨log, L, hlog, hL, hlen⟩ := h
  have hstored := houtcome.log
  have hcount : (e.afterCall call).state.eventCount = e.state.eventCount + (accepted (e.screened call.1)).length := by
    rw [houtcome.state]
    have hevents := stepBatch_eventCount e.config.toStepConfig e.config.now ((accepted (e.screened call.1)).zip offsets)
      ⟨e.state, [], e.gaps⟩
    rw [List.length_zip, houtcome.length, Nat.min_self] at hevents
    exact hevents
  rw [hlog] at hstored
  rcases hl : (e.afterCall call).log with _ | l
  · rw [hl] at hstored
    cases hstored
  · rw [hl] at hstored
    cases hstored with
    | logged happended =>
      obtain ⟨L', hL', -, -, hrecords⟩ := happended L hL
      refine ⟨l, L', hl, hL', ?_⟩
      have hlength := congrArg List.length hrecords
      simp only [List.length_append, numbered, List.length_zip, List.length_range', IngestLog.batchEntries, List.length_map,
        Nat.min_self] at hlength
      rw [hcount, hlength]
      push_cast
      omega

end Engine

/-! ## The theorem -/

/-- In every run of calls that return: each call answers its events one by one and in order, each decision with one row; the events
since the run began are as many as the decisions counted, as the offsets the log has given out and as the records it holds; and the
engine has seen them and those it has turned away. For an engine on a new log these are the numbers themselves. -/
theorem events_accounted (e : Engine V) (calls : List (List Incoming × SubmitEnv))
    (hrun : Along Engine.afterCall Engine.ReturnsFrom e calls) :
    let e' := runFrom Engine.afterCall e calls
    (∀ xs env r, (e'.submit xs env).1 = .ok r →
      List.Forall₂ (Answers e'.config) xs r.decisions ∧ ∀ d ∈ r.decisions, d.OneRow) ∧
    e.Accounts e' ∧
    (∀ n, (∀ call ∈ calls, call.2.log.Recoverable) → e.Holds n → e'.Holds n) ∧
    ∀ c gaps cfg now segmentTs log, IngestLog.openLog cfg LogDir.empty now segmentTs = .ok log → e = .new c gaps (some log) →
      e'.state.eventCount = e'.state.counts.total ∧ e'.observedRawCount = e'.state.eventCount + e'.rejectedCount ∧
        ∃ log', e'.log = some log' ∧ log'.nextOffset = e'.state.eventCount := by
  intro e'
  have haccounts : e.Accounts e' := Engine.accounts_run hrun
  refine ⟨?_, haccounts, ?_, ?_⟩
  · intro xs env r hr
    obtain ⟨hanswers, -, -⟩ := @Engine.submit_accounts _ e' _ _ env r (Prod.ext hr rfl)
    exact ⟨hanswers, oneRow_of_answers hanswers⟩
  · intro n henv hholds
    have hall : Along Engine.afterCall (fun _ call => call.2.log.Recoverable) e calls := .of_forall (fun x hx _ => henv x hx) _
    exact (hrun.and hall).inv (I := fun e' => e'.Holds n) (fun _ _ h hok => h.afterCall hok.2 hok.1) hholds
  · rintro c gaps cfg now segmentTs log hopen rfl
    have hnext : log.nextOffset = 0 := (IngestLog.openLog_new hopen).represents.next
    have hcounts := haccounts.counts
    have hseen := haccounts.seen
    have hlog := haccounts.log
    simp only [Engine.new, EngineState.initial, Counts.total, Option.map_some, hnext] at hcounts hseen hlog
    obtain ⟨log', hlog', hnext'⟩ := Option.map_eq_some_iff.mp hlog
    exact ⟨by simp only [Counts.total]; omega, by omega, log', hlog', by omega⟩

/-- Of three halts the second raises, and a fourth event is turned away. -/
theorem events_accounted_four : ∃ log, IngestLog.openLog ⟨.always, 1000, 128⟩ LogDir.empty 0 0 = .ok log ∧
    let e' := runFrom Engine.afterCall (newEngine (some log)) [(threeHalts ++ [circular], quietEnv)]
    e'.state.eventCount = e'.state.counts.total ∧ e'.observedRawCount = e'.state.eventCount + e'.rejectedCount ∧
      ∃ log', e'.log = some log' ∧ log'.nextOffset = e'.state.eventCount := by
  obtain ⟨log, hopen, -⟩ := IngestLog.exists_openLog_new ⟨.always, 1000, 128⟩ 0 0
  have hreturns : (IngestLog.openLog ⟨.always, 1000, 128⟩ LogDir.empty 0 0).map (fun log =>
      ((newEngine (some log)).submit (threeHalts ++ [circular]) quietEnv).1.isOk) = .ok true := by
    decide +kernel
  replace hreturns := eq_of_map_ok hopen hreturns
  have hok : (newEngine (some log)).ReturnsFrom (threeHalts ++ [circular], quietEnv) := by
    rcases hres : ((newEngine (some log)).submit (threeHalts ++ [circular]) quietEnv).1 with err | r
    · rw [hres] at hreturns
      cases hreturns
    · exact ⟨r, hres⟩
  refine ⟨log, hopen, ?_⟩
  exact (events_accounted (newEngine (some log)) [(threeHalts ++ [circular], quietEnv)] ⟨hok, trivial⟩).2.2.2
    (newEngine none).config none _ 0 0 log hopen rfl

end Mdrap
