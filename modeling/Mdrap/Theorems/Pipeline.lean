import Mdrap.Pipeline.Process

/-!
# A batch and its events one by one

A batch rejects all the events it has to reject before it dispatches one that the gateway accepted, and does not know a tombstone.
Where the engine hands every event back at once, that is all the difference there is.
-/

namespace Mdrap

open Lib

namespace Pipeline

variable {V Q M W : Type} (env : PipelineEnv V Q M W)

/-! ## What the gateway makes of a list -/

/-- What becomes of an event at the gateway. -/
inductive Taken where
  | rejected (raw : PipelineRaw)
  | accepted (raw : PipelineRaw) (event : PipelineEvent)

namespace Taken

def isAccepted : Taken → Bool
  | .rejected _ => false
  | .accepted _ _ => true

/-- A backpressure tombstone that the gateway has rejected. -/
def isTombstone : Taken → Bool
  | .rejected raw => isBpDrop raw
  | .accepted _ _ => false

/-- The events that are accepted. -/
def events : List Taken → List PipelineEvent
  | [] => []
  | .rejected _ :: ts => events ts
  | .accepted _ event :: ts => event :: events ts

/-- The raw events that are accepted, as they are ingested. -/
def acceptedRaws : List Taken → List PipelineRaw
  | [] => []
  | .rejected _ :: ts => acceptedRaws ts
  | .accepted raw _ :: ts => raw :: acceptedRaws ts

/-- The raw events that are rejected, as they are ingested. -/
def rejectedRaws : List Taken → List PipelineRaw
  | [] => []
  | .rejected raw :: ts => raw :: rejectedRaws ts
  | .accepted _ _ :: ts => rejectedRaws ts

end Taken

/-- What the gateway makes of events, one after the other; none where it raises what is not a violation of the schema. -/
def takes (gateway : GatewayEnv) (now : UInt64) : List PipelineRaw → Gateway → Option (List Taken × Gateway)
  | [], g => some ([], g)
  | raw :: raws, g =>
    match take gateway now raw g with
    | ((raw, .ok event), g) => (takes gateway now raws g).map (fun next => (.accepted raw event.toPipeline :: next.1, next.2))
    | ((raw, .error (.schema _)), g) => (takes gateway now raws g).map (fun next => (.rejected raw :: next.1, next.2))
    | ((_, .error .overflow), _) | ((_, .error (.unprintable _)), _) => none

/-- The engine has nothing to drain. -/
def Quiet (q : Q) : Prop := drainExpired env q = (.ok [], q)

/-- The engine hands each event back that the gateway accepts, and has nothing to drain before the last event of the list is through.
An event that is accepted has a payload. -/
def Steady : List Taken → Q → Prop
  | [], q => Quiet env q
  | .rejected _ :: ts, q => Steady ts q
  | .accepted raw event :: ts, q =>
    raw.payload ≠ .none ∧ ∃ out q', evaluate env event q = (.ok (some out), q') ∧
      (if ts = [] then ∃ evs q'', drainExpired env q' = (.ok evs, q'') else Quiet env q' ∧ Steady ts q')

/-- An event that comes after an accepted one is accepted. -/
def RejectedFirst (ts : List Taken) : Prop := ts.Pairwise (fun a b => a.isAccepted → b.isAccepted)

/-! ## The desk -/

/-- Two desks have the same rows and the same state of those that watch. -/
structure SameDesk (d e : Desk V M W) : Prop where
  canonical : d.canonical = e.canonical
  quarantine : d.quarantine = e.quarantine
  lineage : d.lineage = e.lineage
  reconciler : d.reconciler = e.reconciler
  reliability : d.reliability = e.reliability
  market : d.market = e.market
  watchdog : d.watchdog = e.watchdog

/-- An event that was taken, with what the engine made of it. -/
inductive Item where
  | rejected (raw : PipelineRaw)
  | accepted (raw : PipelineRaw) (out : PipelineEvent)

/-- The events that the engine has handed back. -/
def Item.accepts : List Item → List (PipelineRaw × PipelineEvent)
  | [] => []
  | .rejected _ :: items => accepts items
  | .accepted raw out :: items => (raw, out) :: accepts items

/-- What an event that is accepted does at the desk. -/
def acceptOne (d : Desk V M W) (p : PipelineRaw × PipelineEvent) : Desk V M W :=
  (Desk.dispatchEvaluated env p.2 p.1.payload d).2

/-- What an event does at the desk when it comes alone. -/
def itemOne (d : Desk V M W) : Item → Desk V M W
  | .rejected raw => (reject env raw d).2
  | .accepted raw out => acceptOne env d (raw, out)

/-- What an event that is rejected does at the desk as part of a batch. -/
def rejectInBatch (d : Desk V M W) (raw : PipelineRaw) : Desk V M W :=
  (Desk.createQuarantinedEvent env raw "Schema violation" "quarantined (schema error)" .schemaViolation d).2

/-- The engine hands back every event that was accepted. -/
inductive HandsBack : List Taken → Q → List Item → Q → Prop
  | nil (q : Q) : HandsBack [] q [] q
  | rejected {ts : List Taken} {q q' : Q} {items : List Item} (raw : PipelineRaw) (h : HandsBack ts q items q') :
    HandsBack (.rejected raw :: ts) q (.rejected raw :: items) q'
  | accepted {ts : List Taken} {q q' q'' : Q} {items : List Item} {event out : PipelineEvent} (raw : PipelineRaw)
    (heval : evaluate env event q = (.ok (some out), q')) (h : HandsBack ts q' items q'') :
    HandsBack (.accepted raw event :: ts) q (.accepted raw out :: items) q''

theorem annotate_rawId (decision : Option CanonicalDecision) (ev : PipelineEvent) : (Desk.annotate decision ev).rawId = ev.rawId := by
  unfold Desk.annotate
  split
  · rfl
  · split
    · rfl
    · rfl

/-- An event that comes with its payload does not need the one that is kept for it. -/
theorem dispatchEvaluated_keep (ev : PipelineEvent) {payload : RawPayload} (h : payload ≠ .none) (p : RawPayload) (d : Desk V M W) :
    Desk.dispatchEvaluated env ev payload { d with pendingRawPayloads := d.pendingRawPayloads.set ev.rawId p } =
      Desk.dispatchEvaluated env ev payload d := by
  have hpayload : Desk.payloadOf ev payload { d with pendingRawPayloads := d.pendingRawPayloads.set ev.rawId p } =
      Desk.payloadOf ev payload d := by
    unfold Desk.payloadOf
    split
    · exact absurd rfl h
    · rfl
  simp only [Desk.dispatchEvaluated, hpayload, annotate_rawId, Dict.erase_set]

/-! ## One event -/

section one

variable {env} {raw raw' : PipelineRaw} {st : Pipeline V Q M W} {g : Gateway}

theorem intake_rejected {e : SchemaError} (h : take env.gateway env.now raw st.gateway = ((raw', .error (.schema e)), g)) :
    intake env raw st = (.ok (raw', none), { st with gateway := g }) := by
  unfold intake
  rw [h]

theorem intake_accepted {event : GatewayEvent} (h : take env.gateway env.now raw st.gateway = ((raw', .ok event), g)) :
    intake env raw st = (.ok (raw', some event.toPipeline), { st with gateway := g }) := by
  unfold intake
  rw [h]

theorem processOne_rejected {e : SchemaError} (h : take env.gateway env.now raw st.gateway = ((raw', .error (.schema e)), g)) :
    ∃ ev, processOne env raw st = (.ok ev, ⟨g, st.quality, (reject env raw' st.desk).2⟩) := by
  unfold processOne
  rw [Proc.bind_of_ok (intake_rejected h)]
  exact ⟨_, rfl⟩

theorem drain_of_ok {evs : List PipelineEvent} {q' : Q} (h : drainExpired env st.quality = (.ok evs, q')) :
    drain env st = (.ok (Desk.dispatchAll env evs st.desk).1, ⟨st.gateway, q', (Desk.dispatchAll env evs st.desk).2⟩) := by
  have hquality : atQuality (drainExpired env) st = (.ok evs, { st with quality := q' }) := by
    unfold atQuality
    rw [h]
  unfold drain
  rw [Proc.bind_of_ok hquality]
  rfl

theorem evaluate_rawId {event out : PipelineEvent} {q q' : Q} (h : evaluate env event q = (.ok (some out), q')) :
    out.rawId = event.rawId := by
  unfold evaluate at h
  rcases heval : env.quality.evaluate event q with ⟨⟨e, ev⟩ | ev, q''⟩
  · rw [heval] at h
    cases h
  · rw [heval] at h
    cases h
    exact env.quality.evaluate_rawId event q out (by rw [heval])

theorem processOne_accepted {event : GatewayEvent} {out : PipelineEvent} {q' q'' : Q} {evs : List PipelineEvent}
    (h : take env.gateway env.now raw st.gateway = ((raw', .ok event), g)) (hpayload : raw'.payload ≠ .none)
    (heval : evaluate env event.toPipeline st.quality = (.ok (some out), q'))
    (hdrain : drainExpired env q' = (.ok evs, q'')) :
    ∃ ev, processOne env raw st =
      (.ok ev, ⟨g, q'', (Desk.dispatchAll env evs (Desk.dispatchEvaluated env out raw'.payload st.desk).2).2⟩) := by
  have hkeep := dispatchEvaluated_keep env out hpayload raw'.payload st.desk
  rw [evaluate_rawId heval] at hkeep
  unfold processOne
  rw [Proc.bind_of_ok (intake_accepted h)]
  simp only [Proc.bind_apply, atDesk, atQuality, heval, drain, hdrain, Desk.dispatchAny, hkeep, Proc.pure_apply]
  exact ⟨_, rfl⟩

end one

/-! ## Events one by one -/

section each

variable {env} {st : Pipeline V Q M W} {g : Gateway}

/-- The gateway takes the first event, and then the others. -/
theorem takes_cons {raw : PipelineRaw} {raws : List PipelineRaw} {g g' : Gateway} {ts : List Taken}
    (h : takes env.gateway env.now (raw :: raws) g = some (ts, g')) :
    ∃ raw' g₁ ts', takes env.gateway env.now raws g₁ = some (ts', g') ∧
      ((∃ e, take env.gateway env.now raw g = ((raw', .error (.schema e)), g₁) ∧ ts = .rejected raw' :: ts') ∨
        ∃ event, take env.gateway env.now raw g = ((raw', .ok event), g₁) ∧ ts = .accepted raw' event.toPipeline :: ts') := by
  unfold takes at h
  split at h
  · rename_i raw' event g₁ htake
    obtain ⟨⟨ts', g₂⟩, hnext, heq⟩ := Option.map_eq_some_iff.mp h
    cases heq
    exact ⟨raw', g₁, ts', hnext, .inr ⟨event, htake, rfl⟩⟩
  · rename_i raw' e g₁ htake
    obtain ⟨⟨ts', g₂⟩, hnext, heq⟩ := Option.map_eq_some_iff.mp h
    cases heq
    exact ⟨raw', g₁, ts', hnext, .inl ⟨e, htake, rfl⟩⟩
  · nomatch h
  · nomatch h

theorem takes_nil {raws : List PipelineRaw} {g g' : Gateway} (h : takes env.gateway env.now raws g = some ([], g')) :
    raws = [] ∧ g' = g := by
  cases raws with
  | nil =>
    cases h
    exact ⟨rfl, rfl⟩
  | cons raw raws =>
    obtain ⟨raw', g₁, ts', -, ⟨e, -, hts⟩ | ⟨event, -, hts⟩⟩ := takes_cons h
    · nomatch hts
    · nomatch hts

theorem processEach_cons {raw : PipelineRaw} {raws : List PipelineRaw} {ev : Option PipelineEvent}
    {st' st'' : Pipeline V Q M W} {evs : List (Option PipelineEvent)} (h : processOne env raw st = (.ok ev, st'))
    (hnext : processEach env raws st' = (.ok evs, st'')) : processEach env (raw :: raws) st = (.ok (ev :: evs), st'') := by
  unfold processEach
  rw [Proc.bind_of_ok h, Proc.bind_of_ok hnext]
  rfl

/-- Events that come one by one do at the desk what each of them does alone, and what is drained after the last. -/
theorem processEach_steady {raws : List PipelineRaw} {ts : List Taken} (htake : takes env.gateway env.now raws st.gateway = some (ts, g))
    (hsteady : Steady env ts st.quality) :
    ∃ items q' evs q'', HandsBack env ts st.quality items q' ∧ drainExpired env q' = (.ok evs, q'') ∧
      ∃ l, processEach env raws st = (.ok l, ⟨g, q'', (Desk.dispatchAll env evs (items.foldl (itemOne env) st.desk)).2⟩) := by
  induction raws generalizing st ts with
  | nil =>
    cases htake
    exact ⟨[], st.quality, [], st.quality, .nil _, hsteady, [], rfl⟩
  | cons raw raws ih =>
    obtain ⟨raw', g₁, ts', hnext, ⟨e, hone, rfl⟩ | ⟨event, hone, rfl⟩⟩ := takes_cons htake
    · obtain ⟨ev, hev⟩ := processOne_rejected hone
      obtain ⟨items, q', evs, q'', hback, hdrain, l, hl⟩ := @ih ⟨g₁, st.quality, (reject env raw' st.desk).2⟩ ts' hnext hsteady
      exact ⟨_, q', evs, q'', .rejected raw' hback, hdrain, _, processEach_cons hev hl⟩
    · obtain ⟨hpayload, out, q₁, heval, hrest⟩ := hsteady
      split at hrest
      · rename_i hts
        subst hts
        obtain ⟨rfl, rfl⟩ := takes_nil hnext
        obtain ⟨evs, q'', hdrain⟩ := hrest
        obtain ⟨ev, hev⟩ := processOne_accepted hone hpayload heval hdrain
        exact ⟨_, q₁, evs, q'', .accepted raw' heval (.nil _), hdrain, _, processEach_cons hev rfl⟩
      · obtain ⟨hquiet, hsteady⟩ := hrest
        obtain ⟨ev, hev⟩ := processOne_accepted hone hpayload heval hquiet
        obtain ⟨items, q', evs, q'', hback, hdrain, l, hl⟩ :=
          @ih ⟨g₁, q₁, acceptOne env st.desk (raw', out)⟩ ts' hnext hsteady
        exact ⟨_, q', evs, q'', .accepted raw' heval hback, hdrain, _, processEach_cons hev hl⟩

end each

/-! ## A batch -/

section batch

variable {env} {st : Pipeline V Q M W} {g : Gateway}

/-- A result that is there stays there. -/
def Keeps (results results' : Results) : Prop := ∀ j, results' j = none → results j = none

theorem keeps_setResult (results : Results) (idx : Nat) (ev : PipelineEvent) : Keeps results (setResult results idx ev) := by
  intro j hj
  by_cases h : j = idx
  · subst h
    simp [setResult] at hj
  · simpa [setResult, h] using hj

/-- The first loop: what is rejected goes to the desk, and what has no result then is admitted. -/
theorem admitAll_run {raws : List PipelineRaw} {ts : List Taken} (htake : takes env.gateway env.now raws st.gateway = some (ts, g))
    (n : Nat) (results : Results) :
    ∃ raws' admitted results',
      admitAll env (raws.zipIdx n) results st =
        (.ok (raws', admitted, results'), ⟨g, st.quality, (Taken.rejectedRaws ts).foldl (rejectInBatch env) st.desk⟩) ∧
      admitted.map (·.event) = Taken.events ts ∧ admitted.map (·.raw) = Taken.acceptedRaws ts ∧ Keeps results results' ∧
      ∀ raw ∈ raws', results' raw.2 = none → ∃ a ∈ admitted, a.idx = raw.2 := by
  induction raws generalizing st ts n results with
  | nil =>
    cases htake
    exact ⟨[], [], results, rfl, rfl, rfl, fun _ h => h, fun _ hr => absurd hr List.not_mem_nil⟩
  | cons raw raws ih =>
    rw [List.zipIdx_cons]
    unfold admitAll
    obtain ⟨raw', g₁, ts', hnext, ⟨e, hone, rfl⟩ | ⟨event, hone, rfl⟩⟩ := takes_cons htake
    · rw [Proc.bind_of_ok (intake_rejected hone)]
      obtain ⟨raws', admitted, results', hrun, hevents, hraws, hkeeps, hempty⟩ :=
        @ih ⟨g₁, st.quality, rejectInBatch env st.desk raw'⟩ ts' hnext (n + 1)
          (setResult results n (Desk.fakeEvent env raw' .schemaViolation))
      refine ⟨(raw', n) :: raws', admitted, results', ?_, hevents, hraws, ?_, ?_⟩
      · exact Proc.bind_of_ok hrun
      · intro j hj
        exact keeps_setResult results n _ j (hkeeps j hj)
      · intro r hr hnone
        rcases List.mem_cons.mp hr with rfl | hr
        · have := hkeeps n hnone
          simp [setResult] at this
        · exact hempty r hr hnone
    · rw [Proc.bind_of_ok (intake_accepted hone)]
      obtain ⟨raws', admitted, results', hrun, hevents, hraws, hkeeps, hempty⟩ :=
        @ih ⟨g₁, st.quality, st.desk⟩ ts' hnext (n + 1) results
      refine ⟨(raw', n) :: raws', ⟨n, raw', event.toPipeline⟩ :: admitted, results', ?_, ?_, ?_, hkeeps, ?_⟩
      · exact Proc.bind_of_ok hrun
      · simp [hevents, Taken.events]
      · simp [hraws, Taken.acceptedRaws]
      · intro r hr hnone
        rcases List.mem_cons.mp hr with rfl | hr
        · exact ⟨_, List.mem_cons_self .., rfl⟩
        · obtain ⟨a, ha, hidx⟩ := hempty r hr hnone
          exact ⟨a, List.mem_cons_of_mem _ ha, hidx⟩

/-- One by one, the engine hands the events back. -/
theorem HandsBack.evaluateEach {ts : List Taken} {q q' : Q} {items : List Item} (h : HandsBack env ts q items q') :
    evaluateEach env (Taken.events ts) q = (.ok ((Item.accepts items).map (fun p => some p.2)), q') := by
  induction h with
  | nil q => rfl
  | rejected raw h ih => exact ih
  | accepted raw heval h ih =>
    simp only [Taken.events, Pipeline.evaluateEach]
    rw [Proc.bind_of_ok heval, Proc.bind_of_ok ih]
    rfl

theorem HandsBack.raws {ts : List Taken} {q q' : Q} {items : List Item} (h : HandsBack env ts q items q') :
    (Item.accepts items).map (·.1) = Taken.acceptedRaws ts := by
  induction h with
  | nil q => rfl
  | rejected raw h ih => exact ih
  | accepted raw heval h ih =>
    simp only [Item.accepts, Taken.acceptedRaws, List.map_cons, ih]

/-- The last loop: each event that was handed back goes to the desk and gets its result. -/
theorem dispatchPairs_run (admitted : List Admitted) (ps : List (PipelineRaw × PipelineEvent))
    (hraws : ps.map (·.1) = admitted.map (·.raw)) (results : Results) :
    ∃ results', dispatchPairs env (admitted.zip (ps.map (fun p => some p.2))) results st =
        (.ok results', { st with desk := ps.foldl (acceptOne env) st.desk }) ∧
      Keeps results results' ∧ ∀ a ∈ admitted, results' a.idx ≠ none := by
  induction ps generalizing st admitted results with
  | nil =>
    cases admitted with
    | nil =>
      refine ⟨results, rfl, fun _ h => h, ?_⟩
      intro a ha
      cases ha
    | cons a admitted => simp at hraws
  | cons p ps ih =>
    cases admitted with
    | nil => simp at hraws
    | cons a admitted =>
      rw [List.map_cons, List.map_cons, List.cons.injEq] at hraws
      obtain ⟨hraw, hraws⟩ := hraws
      obtain ⟨results', hrun, hkeeps, hall⟩ := @ih { st with desk := acceptOne env st.desk p } admitted hraws
        (setResult results a.idx (Desk.dispatchEvaluated env p.2 p.1.payload st.desk).1)
      refine ⟨results', ?_, ?_, ?_⟩
      · simp only [List.map_cons, List.zip_cons_cons, dispatchPairs]
        rw [Proc.bind_apply, ← hraw]
        exact hrun
      · intro j hj
        exact keeps_setResult results a.idx _ j (hkeeps j hj)
      · intro b hb
        rcases List.mem_cons.mp hb with rfl | hb
        · intro hnone
          have := hkeeps _ hnone
          simp [setResult] at this
        · exact hall b hb

theorem fillSlots_full (raws : List (PipelineRaw × Nat)) {results : Results} (h : ∀ raw ∈ raws, results raw.2 ≠ none) :
    fillSlots env raws results st = (.ok results, st) := by
  induction raws with
  | nil => rfl
  | cons raw raws ih =>
    obtain ⟨ev, hev⟩ := Option.ne_none_iff_exists'.mp (h raw (List.mem_cons_self ..))
    unfold fillSlots
    rw [hev]
    exact ih (fun r hr => h r (List.mem_cons_of_mem _ hr))

/-- A batch rejects what it has to, then dispatches what was accepted, and then what is drained. -/
theorem processBatch_run {raws : List PipelineRaw} {ts : List Taken} {items : List Item} {q' q'' : Q} {evs : List PipelineEvent}
    (hne : raws ≠ []) (htake : takes env.gateway env.now raws st.gateway = some (ts, g))
    (hback : HandsBack env ts st.quality items q')
    (hbatch : evaluateAll env (Taken.events ts) st.quality = evaluateEach env (Taken.events ts) st.quality)
    (hdrain : drainExpired env q' = (.ok evs, q'')) (strict : Bool) :
    ∃ l, processBatch env strict raws st = (.ok l, ⟨g, q'', (Desk.dispatchAll env evs
      ((Item.accepts items).foldl (acceptOne env) ((Taken.rejectedRaws ts).foldl (rejectInBatch env) st.desk))).2⟩) := by
  obtain ⟨raws', admitted, results, hadmit, hevents, hraws, -, hempty⟩ := admitAll_run htake 0 (fun _ => none)
  have heval : evaluateAdmitted env admitted
      (⟨g, st.quality, (Taken.rejectedRaws ts).foldl (rejectInBatch env) st.desk⟩ : Pipeline V Q M W) =
        (.ok ((Item.accepts items).map (fun p => some p.2)),
          ⟨g, q', (Taken.rejectedRaws ts).foldl (rejectInBatch env) st.desk⟩) := by
    have heach := hback.evaluateEach
    unfold evaluateAdmitted
    by_cases hnil : admitted = []
    · rw [if_pos hnil]
      rw [← hevents, hnil] at heach
      obtain ⟨hout, hq⟩ := Prod.mk.inj heach
      rw [← Except.ok.inj hout, ← hq]
      rfl
    · rw [if_neg hnil, hevents]
      unfold atQuality
      simp only [hbatch, heach]
  obtain ⟨results', hpairs, hkeeps, hall⟩ := @dispatchPairs_run V Q M W env
    ⟨g, q', (Taken.rejectedRaws ts).foldl (rejectInBatch env) st.desk⟩ admitted (Item.accepts items) (by rw [hback.raws, hraws]) results
  have hfull : ∀ raw ∈ raws', results' raw.2 ≠ none := by
    intro raw hraw hnone
    obtain ⟨a, ha, hidx⟩ := hempty raw hraw (hkeeps _ hnone)
    exact hall a ha (hidx ▸ hnone)
  unfold processBatch
  rw [if_neg hne, Proc.bind_of_ok hadmit]
  dsimp only
  rw [Proc.bind_of_ok heval, Proc.bind_of_ok hpairs]
  have hdrained := @drain_of_ok V Q M W env ⟨g, q', (Item.accepts items).foldl (acceptOne env)
    ((Taken.rejectedRaws ts).foldl (rejectInBatch env) st.desk)⟩ evs q'' hdrain
  rw [Proc.bind_of_ok hdrained]
  cases strict with
  | false => exact ⟨_, rfl⟩
  | true =>
    rw [if_pos rfl, Proc.bind_of_ok (fillSlots_full raws' hfull)]
    exact ⟨_, rfl⟩

end batch

/-! ## Lineage -/

section lineage

/-- The reason of a decision is none of the texts of a rejection. -/
theorem reasonOf_head (r : ReconcileEnv V) (sel : Selection V) :
    (HighestReliabilityStrategy.reasonOf r sel).toList.head? ≠ some 'q' := by
  unfold HighestReliabilityStrategy.reasonOf
  split
  · simp
  · decide

theorem reconcile_reason {r : ReconcileEnv V} {scores : Dict String V} {event : PipelineEvent} {rec : Reconciler V}
    {decision : CanonicalDecision} (h : (rec.reconcile r scores event).1 = some decision) :
    decision.reason.toList.head? ≠ some 'q' := by
  unfold Reconciler.reconcile at h
  split at h
  · cases h
  · split at h
    · cases h
    · dsimp only at h
      split at h
      · cases h
      · unfold HighestReliabilityStrategy.select at h
        dsimp only at h
        split at h
        · cases h
        · split at h
          · cases h
          · cases h
            exact reasonOf_head r _

/-- The text of a rejection, if a row is about one. -/
def stamp (row : PipelineLineageRow) : Option String :=
  if row.reason = "quarantined (schema error)" ∨ row.reason = "quarantined (backpressure drop)" then some row.reason else none

/-- The text that an event has in the lineage when it comes alone. -/
def Taken.stamp : Taken → Option String
  | .rejected raw => some (if isBpDrop raw then "quarantined (backpressure drop)" else "quarantined (schema error)")
  | .accepted _ _ => none

def Item.stamp : Item → Option String
  | .rejected raw => some (if isBpDrop raw then "quarantined (backpressure drop)" else "quarantined (schema error)")
  | .accepted _ _ => none

theorem stamp_lineageRow (event : PipelineEvent) {decision : Option CanonicalDecision}
    (h : ∀ dec, decision = some dec → dec.reason.toList.head? ≠ some 'q') : stamp (Desk.lineageRow env event decision) = none := by
  have hhead : (Desk.lineageRow env event decision).reason.toList.head? ≠ some 'q' := by
    cases decision with
    | none =>
      simp only [Desk.lineageRow, Option.map_none, Option.getD_none]
      decide
    | some dec => exact h dec rfl
  unfold stamp
  rw [if_neg]
  rintro (heq | heq)
  · rw [heq] at hhead
    exact hhead (by decide)
  · rw [heq] at hhead
    exact hhead (by decide)

theorem stamps_dispatch (event : PipelineEvent) (payload : RawPayload) (d : Desk V M W) :
    (Desk.dispatchEvaluated env event payload d).2.lineage.map stamp = d.lineage.map stamp ++ [none] := by
  simp only [Desk.dispatchEvaluated, List.map_append, List.map_cons, List.map_nil]
  rw [stamp_lineageRow]
  intro dec hdec
  exact reconcile_reason hdec

theorem stamps_dispatchAll (evs : List PipelineEvent) (d : Desk V M W) :
    (Desk.dispatchAll env evs d).2.lineage.map stamp = d.lineage.map stamp ++ evs.map (fun _ => none) := by
  induction evs generalizing d with
  | nil => simp [Desk.dispatchAll]
  | cons ev evs ih =>
    simp only [Desk.dispatchAll]
    rw [ih, stamps_dispatch]
    simp

theorem stamps_rejectInBatch (raws : List PipelineRaw) (d : Desk V M W) :
    (raws.foldl (rejectInBatch env) d).lineage.map stamp =
      d.lineage.map stamp ++ raws.map (fun _ => some "quarantined (schema error)") := by
  induction raws generalizing d with
  | nil => simp
  | cons raw raws ih =>
    rw [List.foldl_cons, ih]
    simp [rejectInBatch, Desk.createQuarantinedEvent, stamp]

theorem stamps_acceptOne (ps : List (PipelineRaw × PipelineEvent)) (d : Desk V M W) :
    (ps.foldl (acceptOne env) d).lineage.map stamp = d.lineage.map stamp ++ ps.map (fun _ => none) := by
  induction ps generalizing d with
  | nil => simp
  | cons p ps ih =>
    rw [List.foldl_cons, ih]
    unfold acceptOne
    rw [stamps_dispatch]
    simp

theorem stamps_itemOne (items : List Item) (d : Desk V M W) :
    (items.foldl (itemOne env) d).lineage.map stamp = d.lineage.map stamp ++ items.map Item.stamp := by
  induction items generalizing d with
  | nil => simp
  | cons item items ih =>
    rw [List.foldl_cons, ih]
    cases item with
    | rejected raw => by_cases h : isBpDrop raw <;> simp [itemOne, reject, h, Desk.createQuarantinedEvent, Item.stamp, stamp]
    | accepted raw out =>
      simp only [itemOne, acceptOne]
      rw [stamps_dispatch]
      simp [Item.stamp]

theorem HandsBack.stamps {env : PipelineEnv V Q M W} {ts : List Taken} {q q' : Q} {items : List Item}
    (h : HandsBack env ts q items q') : items.map Item.stamp = ts.map Taken.stamp := by
  induction h with
  | nil q => rfl
  | rejected raw h ih => rw [List.map_cons, List.map_cons, ih]; rfl
  | accepted raw heval h ih => rw [List.map_cons, List.map_cons, ih]; rfl

/-- A list whose texts are those of a rejected part and then of an accepted part is in that order, and has no tombstone. -/
theorem rejectedFirst_of_stamps {ts : List Taken}
    (h : ts.map Taken.stamp = (Taken.rejectedRaws ts).map (fun _ => some "quarantined (schema error)") ++
      (Taken.acceptedRaws ts).map (fun _ => none)) : RejectedFirst ts ∧ ∀ t ∈ ts, ¬t.isTombstone := by
  induction ts with
  | nil => exact ⟨List.Pairwise.nil, fun _ ht => absurd ht List.not_mem_nil⟩
  | cons t ts ih =>
    cases t with
    | rejected raw =>
      simp only [List.map_cons, Taken.rejectedRaws, Taken.acceptedRaws, List.cons_append, List.cons.injEq] at h
      obtain ⟨hstamp, hrest⟩ := h
      obtain ⟨hfirst, hnone⟩ := ih hrest
      refine ⟨List.Pairwise.cons (fun _ _ hacc => by cases hacc) hfirst, ?_⟩
      intro t ht
      rcases List.mem_cons.mp ht with rfl | ht
      · intro hbp
        simp only [Taken.isTombstone] at hbp
        simp [Taken.stamp, hbp] at hstamp
      · exact hnone t ht
    | accepted raw event =>
      -- an accepted event at the head leaves no room for a rejected one
      have hnil : Taken.rejectedRaws ts = [] := by
        cases hraws : Taken.rejectedRaws ts with
        | nil => rfl
        | cons r rs =>
          simp [Taken.rejectedRaws, hraws, Taken.stamp] at h
      simp only [List.map_cons, Taken.rejectedRaws, Taken.acceptedRaws, hnil, List.map_nil, List.nil_append, List.cons.injEq] at h
      obtain ⟨hfirst, hnone⟩ := ih (by rw [hnil]; exact h.2)
      refine ⟨List.Pairwise.cons (fun b hb _ => ?_) hfirst, ?_⟩
      · cases b with
        | rejected raw' =>
          have hmem : Taken.stamp (.rejected raw') ∈ ts.map Taken.stamp := List.mem_map_of_mem hb
          rw [h.2] at hmem
          simp [Taken.stamp] at hmem
        | accepted raw' event' => rfl
      · intro t ht
        rcases List.mem_cons.mp ht with rfl | ht
        · exact fun hbp => by cases hbp
        · exact hnone t ht

end lineage

theorem rejectedRaws_of_accepted {ts : List Taken} (h : ∀ t ∈ ts, t.isAccepted = true) : Taken.rejectedRaws ts = [] := by
  induction ts with
  | nil => rfl
  | cons t ts ih =>
    cases t with
    | rejected raw => exact absurd (h _ (List.mem_cons_self ..)) (by simp [Taken.isAccepted])
    | accepted raw event => exact ih (fun t ht => h t (List.mem_cons_of_mem _ ht))

/-- Where what is rejected comes first and is no tombstone, a batch does the same at the desk as its events. -/
theorem HandsBack.desk {env : PipelineEnv V Q M W} {ts : List Taken} {q q' : Q} {items : List Item}
    (h : HandsBack env ts q items q') (hfirst : RejectedFirst ts) (hnone : ∀ t ∈ ts, ¬t.isTombstone) (d : Desk V M W) :
    items.foldl (itemOne env) d =
      (Item.accepts items).foldl (acceptOne env) ((Taken.rejectedRaws ts).foldl (rejectInBatch env) d) := by
  induction h generalizing d with
  | nil q => rfl
  | rejected raw h ih =>
    have hraw : isBpDrop raw = false := by simpa [Taken.isTombstone] using hnone _ (List.mem_cons_self ..)
    have hone : itemOne env d (.rejected raw) = rejectInBatch env d raw := by
      simp [itemOne, reject, hraw, rejectInBatch]
    rw [List.foldl_cons, hone, ih hfirst.of_cons (fun t ht => hnone t (List.mem_cons_of_mem _ ht))]
    rfl
  | accepted raw heval h ih =>
    have hall := (List.pairwise_cons.mp hfirst).1
    have hnil := rejectedRaws_of_accepted (fun t ht => hall t ht rfl)
    rw [List.foldl_cons, ih hfirst.of_cons (fun t ht => hnone t (List.mem_cons_of_mem _ ht)), hnil]
    simp only [Taken.rejectedRaws, hnil]
    rfl

/-! ## The comparison -/

/-- Both return, and leave the same rows and the same state of the quality engine, of the reconciler and of those that watch. -/
structure Agree {α β : Type} (m : Except PyError α × Pipeline V Q M W) (n : Except PyError β × Pipeline V Q M W) : Prop where
  left : ∃ a, m.1 = .ok a
  right : ∃ b, n.1 = .ok b
  quality : m.2.quality = n.2.quality
  desk : SameDesk m.2.desk n.2.desk

/-- The gateway raises for no event but a violation of the schema, the engine hands each event back that is accepted, as part of the
batch as well as alone, and has nothing to drain before the last event is through. -/
structure Smooth (raws : List PipelineRaw) (st : Pipeline V Q M W) (ts : List Taken) : Prop where
  taken : ∃ g, takes env.gateway env.now raws st.gateway = some (ts, g)
  steady : Steady env ts st.quality
  batch : evaluateAll env (Taken.events ts) st.quality = evaluateEach env (Taken.events ts) st.quality

variable {env}

/-- The number of some bits, exactly. -/
def exactOf (bits : UInt64) : Option ℚ :=
  let (sign, e, f) := doubleParts bits
  if e = 2047 then none
  else some ((if sign = 1 then -1 else 1) * (if e = 0 then f else 2 ^ 52 + f : Nat) * 2 ^ (e - 1) / 2 ^ 1074)

/-- A pipeline with exact numbers and the default configuration, and nothing that watches. -/
def plainPipeline : PipelineEnv (Option ℚ) (PythonQuality (Option ℚ)) Unit Unit where
  gateway := {
    ofInt := fun _ => none
    div := fun _ _ => 0
    text := fun
      | .str s => s
      | _ => ""
    resolveSymbol := fun _ => none }
  reconcile := ⟨exactNumbers, exactOf, id, fun _ => "", fun _ => ""⟩
  quality := PythonQuality.evaluator exactNumbers (.of (.default exactNumbers)) exactOf (some 0)
  observeMarket := fun _ m => m
  watch := fun _ w => w
  now := 0x3FF0000000000000
  codeVersion := "unversioned"
  dumps := fun p => if p.items = [] then "\x7b\x7d" else "\x7b...\x7d"
  truncated := id

/-- The pipeline when it starts. -/
def plainStart : Pipeline (Option ℚ) (PythonQuality (Option ℚ)) Unit Unit where
  gateway := ⟨"run", 1, .empty, .empty, .empty⟩
  quality := .new
  desk := ⟨⟨100000, .empty, []⟩, ⟨some (1 / 50), .empty, .empty⟩, (), (), .empty, [], [], []⟩

def rawOf (members : List (String × PyValue)) : PipelineRaw := ⟨"CME", .dict ⟨members⟩, 0, "", [], none⟩

/-- A raw event without a type. -/
def untypedRaw : PipelineRaw := rawOf [("instrument", .str "ES")]

/-- A trade of one lot at one hundred. -/
def tradeRaw : PipelineRaw :=
  rawOf [("instrument", .str "ES"), ("event_type", .str "TRADE"), ("price", .float 0x4059000000000000),
    ("quantity", .float 0x3FF0000000000000), ("exchange_ts", .float 0x3FF0000000000000), ("sequence", .int 1)]

/-- A tombstone of an event that was dropped. -/
def tombstoneRaw : PipelineRaw := rawOf [("event_type", .str "TOMBSTONE_DROPPED"), ("drop_reason", .str "BACKPRESSURE_DROP")]

/-- The gateway rejects the event without a type and accepts the trade, which the engine hands back. -/
def tradePasses : Bool :=
  match takes plainPipeline.gateway plainPipeline.now [untypedRaw, tradeRaw] plainStart.gateway with
  | some ([.rejected raw, .accepted raw' event], _) =>
    !isBpDrop raw && raw'.payload.toDict.isSome &&
      match evaluate plainPipeline event plainStart.quality with
      | (.ok (some _), q) =>
        match drainExpired plainPipeline q with
        | (.ok _, _) => true
        | _ => false
      | _ => false
  | _ => false

end Pipeline

end Mdrap
