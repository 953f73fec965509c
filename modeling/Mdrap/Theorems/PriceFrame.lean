import Mdrap.Lemmas.Step
import Mdrap.Lemmas.Findings
import Mdrap.Theorems.Rollback

/-!
# Invalid events and the prices

The price corridor and the prices of the feeds ask whether an event is invalid before they note anything; the quotes of the feeds do
not. An event that is invalid as a duplicate or by its crossed quote therefore leaves the prices alone exactly where its source has
that quote already.
-/

namespace Mdrap

open Lib

variable {V : Type} {P : Py V}

/-! ## The quote of a source -/

/-- The quote a source has. -/
def EngineState.quoteAt (s : EngineState V) (instrument source : String) : Option (Quote V) :=
  (s.bboState.get? instrument).bind (·.get? source)

/-- One side of a quote: what an event says of it, or what it was. -/
def newSide (P : Py V) (j : Json) (old : Option V) : Except PyError (Option V) :=
  if Json.isNull j then .ok old else (P.float j).map some

/-- The quote after an event. -/
def newQuote (P : Py V) (payload : Json) (old : Quote V) : Except PyError (Quote V) := do
  let bid ← newSide P (payload.get "bid") old.bid
  let ask ← newSide P (payload.get "ask") old.ask
  return ⟨bid, ask⟩

theorem quoteOf_eq (s : EngineState V) (instrument source : String) :
    quoteOf s instrument source = (s.quoteAt instrument source).getD ⟨none, none⟩ := by
  unfold quoteOf EngineState.quoteAt
  cases s.bboState.get? instrument <;> rfl

theorem quoteAt_setNested (d : Dict String (Dict String (Quote V))) (instrument source : String) (q : Quote V) :
    ((setNested d instrument source q).get? instrument).bind (·.get? source) = some q := by
  rw [setNested, Dict.get?_set_self, Option.bind_some, Dict.get?_set_self]

/-- Where one place of a nested dictionary has moved, its entries are the same exactly where they are in this place. -/
theorem MovedAt.entries_iff {α : Type} {outer inner : String} {d d' : Dict String (Dict String α)} (h : MovedAt outer inner d d')
    {v : α} (hv : (d'.get? outer).bind (·.get? inner) = some v) :
    (∀ i, entries d' i = entries d i) ↔ (d.get? outer).bind (·.get? inner) = some v := by
  obtain ⟨hother, e, he, hinner⟩ := h
  rw [he, Option.bind_some] at hv
  constructor
  · intro hsame
    have houter := hsame outer
    rw [entries, entries, he] at houter
    rcases hd : d.get? outer with _ | b
    · rw [hd] at houter
      cases houter
    · rw [hd, Option.map_some, Option.map_some, Option.some_inj] at houter
      rw [Option.bind_some, ← houter]
      exact hv
  · intro hd i
    rcases eq_or_ne i outer with rfl | hi
    · rcases hb : d.get? i with _ | b
      · rw [hb] at hd
        cases hd
      · rw [hb, Option.bind_some] at hd
        rw [entries, entries, he, hb, Option.map_some, Option.map_some, Option.some_inj]
        funext j
        rcases eq_or_ne j inner with rfl | hj
        · rw [hv, hd]
        · rw [hinner j hj, hb, Option.getD_some]
    · rw [entries, entries, hother i hi]

/-- The work with another quote of a source, and a longer journal. -/
def QuoteHeld (instrument source : String) (w : Work V) (q : Quote V) (v : Work V) : Prop :=
  ∃ journal d, v = ⟨{ w.state with bboState := d }, journal, w.gaps⟩ ∧ MovedAt instrument source w.state.bboState d ∧
    (d.get? instrument).bind (·.get? source) = some q

section Quotes

variable {payload : Json} {instrument source : String} {w v : Work V} {q : Quote V}

theorem QuoteHeld.quoteOf (h : QuoteHeld instrument source w q v) : Mdrap.quoteOf v.state instrument source = q := by
  obtain ⟨journal, d, rfl, -, hq⟩ := h
  rw [quoteOf_eq, EngineState.quoteAt, hq]
  rfl

/-- One side of the quote. -/
theorem QuoteHeld.side (h : QuoteHeld instrument source w q v) {f : String} {put : Quote V → V → Quote V} {old new : Option V}
    {q' : Quote V} (hnew : newSide P (payload.get f) old = .ok new) (hkeep : new = old → q' = q)
    (hput : ∀ x, new = some x → q' = put q x) :
    ∃ v', keepQuotes.side P payload instrument source f put v = (.ok (), v') ∧ QuoteHeld instrument source w q' v' := by
  unfold newSide at hnew
  unfold keepQuotes.side
  split at hnew
  · rename_i hnull
    cases hnew
    rw [if_pos hnull, hkeep rfl]
    exact ⟨v, rfl, h⟩
  · rename_i hsome
    rw [if_neg hsome]
    rcases hx : P.float (payload.get f) with err | x
    · rw [hx] at hnew
      cases hnew
    · rw [hx] at hnew
      cases hnew
      rw [hput x rfl, ← h.quoteOf]
      obtain ⟨journal, d, rfl, hmoved, -⟩ := h
      exact ⟨_, rfl, journal, _, rfl, hmoved.setNested _, quoteAt_setNested _ _ _ _⟩

theorem side_error {f : String} {put : Quote V → V → Quote V} {old : Option V} {err : PyError}
    (hnew : newSide P (payload.get f) old = .error err) (v : Work V) :
    (keepQuotes.side P payload instrument source f put v).1 = .error err := by
  unfold newSide at hnew
  unfold keepQuotes.side
  split at hnew
  · cases hnew
  · rename_i hsome
    rw [if_neg hsome]
    rcases hx : P.float (payload.get f) with err' | x
    · rw [hx] at hnew
      cases hnew
      rfl
    · rw [hx] at hnew
      cases hnew

/-- Both sides, one after the other. -/
theorem QuoteHeld.sides (h : QuoteHeld instrument source w q v) :
    let sides := keepQuotes.side P payload instrument source "bid" (fun q x => { q with bid := some x }) >>= fun _ =>
      keepQuotes.side P payload instrument source "ask" fun q x => { q with ask := some x }
    match newQuote P payload q with
    | .ok q' => ∃ v', sides v = (.ok (), v') ∧ QuoteHeld instrument source w q' v'
    | .error err => (sides v).1 = .error err := by
  intro sides
  unfold newQuote
  rcases hbid : newSide P (payload.get "bid") q.bid with err | bid
  · exact Proc.bind_error (side_error hbid v)
  obtain ⟨v₁, hside, hheld⟩ := @QuoteHeld.side _ _ _ _ _ _ _ _ h _ (fun q x => { q with bid := some x }) _ _ ⟨bid, q.ask⟩ hbid
    (by rintro rfl; rfl) (by rintro x rfl; rfl)
  have hsides : sides v = keepQuotes.side P payload instrument source "ask" (fun q x => { q with ask := some x }) v₁ :=
    Proc.bind_of_ok hside
  rw [hsides]
  simp only [bind, Except.bind]
  rcases hask : newSide P (payload.get "ask") q.ask with err | ask
  · exact side_error hask v₁
  · exact @QuoteHeld.side _ _ _ _ _ _ _ _ hheld _ (fun q x => { q with ask := some x }) _ _ ⟨bid, ask⟩ hask (by rintro rfl; rfl) (by rintro x rfl; rfl)

/-- An event with a quote makes it the quote of its source, or raises. -/
theorem keepQuotes_spec (hquote : ¬(Json.isNull (payload.get "bid") ∧ Json.isNull (payload.get "ask"))) (w : Work V) :
    match newQuote P payload (Mdrap.quoteOf w.state instrument source) with
    | .ok q => ∃ v, keepQuotes P payload instrument source w = (.ok (), v) ∧ QuoteHeld instrument source w q v
    | .error err => (keepQuotes P payload instrument source w).1 = .error err := by
  unfold keepQuotes
  rw [if_neg hquote]
  exact QuoteHeld.sides ⟨_, _, rfl, movedAt_setNested _ _ _ _, quoteAt_setNested _ _ _ _⟩

end Quotes

/-! ## The stages -/

namespace EngineState

/-- The stages find an event invalid: it has been seen, or its age can be told and its quote is crossed. -/
def Condemns (s : EngineState V) (P : Py V) (raw : RawEvent) (f : Fields V) (recvTs : Json) (e : Epoch) : Prop :=
  s.KnowsEvent P raw f e ∨ (AgeTold P f recvTs ∧ CrossedQuote P raw.payload)

/-- An event that the stages find invalid brings a quote that its source does not have. -/
def MovesQuote (s : EngineState V) (c : StepConfig V) (raw : RawEvent) (now : Json) (offset : Int) : Prop :=
  raw.payload.isObj ∧ ¬(Json.isNull (raw.payload.get "bid") ∧ Json.isNull (raw.payload.get "ask")) ∧
    ∃ f reset q, stageChecks c raw offset (raw.recvTs now) = .ok (.ok f) ∧ s.resets c.py c.sessionPolicy raw f = .ok reset ∧
      s.Condemns c.py raw f (raw.recvTs now) (s.epochAt c.py raw f reset) ∧
      newQuote c.py raw.payload (quoteOf s f.instrument (raw.sourceText c.py)) = .ok q ∧
      s.quoteAt f.instrument (raw.sourceText c.py) ≠ some q

theorem not_movesQuote {s : EngineState V} {c : StepConfig V} {raw : RawEvent} {now : Json} {offset : Int}
    (h : Json.isNull (raw.payload.get "bid") ∧ Json.isNull (raw.payload.get "ask")) : ¬s.MovesQuote c raw now offset :=
  fun hmoves => hmoves.2.1 h

end EngineState

/-- The prices are the same to every look at them. -/
structure SamePrices (s t : EngineState V) : Prop where
  windows : ∀ k, s.priceWindows.get? k = t.priceWindows.get? k
  stats : ∀ k, s.priceStats.get? k = t.priceStats.get? k
  anom : ∀ k, s.priceAnom.get? k = t.priceAnom.get? k
  quotes : ∀ i, entries s.bboState i = entries t.bboState i
  feeds : ∀ i, entries s.reconciliationState i = entries t.reconciliationState i

theorem SamePrices.of_priced {s t : EngineState V} (h : s.priced = t.priced) : SamePrices s t where
  windows k := congrArg (fun p => (Priced.windows p).get? k) h
  stats k := congrArg (fun p => (Priced.stats p).get? k) h
  anom k := congrArg (fun p => (Priced.anom p).get? k) h
  quotes i := congrArg (fun p => entries (Priced.quotes p) i) h
  feeds i := congrArg (fun p => entries (Priced.feeds p) i) h

theorem Restored.samePrices {s t : EngineState V} (h : Restored P s t) : SamePrices s t where
  windows k := congrArg Cell.prices (h.cell k)
  stats k := congrArg Cell.stats (h.cell k)
  anom k := congrArg Cell.anom (h.cell k)
  quotes := h.bboState
  feeds := h.reconciliationState

section Stages

variable {c : StepConfig V} {raw : RawEvent} {f : Fields V} {recvTs : Json} {isReplay : Bool} {w : Work V}

/-- What the stages find invalid goes on to its quotes with the prices as they were, and all else that returns is not invalid. -/
theorem runStages_condemned {reset : Bool} (hreset : w.state.resets c.py c.sessionPolicy raw f = .ok reset) :
    (w.state.Condemns c.py raw f recvTs (w.state.epochAt c.py raw f reset) → ∃ reasons flagged v, v.state.priced = w.state.priced ∧
        runStages c raw f recvTs isReplay w = (keepQuotes c.py raw.payload f.instrument (raw.sourceText c.py) >>= fun _ =>
          pure (w.state.epochAt c.py raw f reset, .invalid, reasons, flagged, false)) v) ∧
      (¬w.state.Condemns c.py raw f recvTs (w.state.epochAt c.py raw f reset) →
        ∀ found, (runStages c raw f recvTs isReplay w).1 = .ok found → found.2.1 ≠ .invalid) := by
  obtain ⟨js, sessions, times, hstage, -⟩ := stageSessionAndEpoch_ok hreset
  rw [runStages_split, Proc.bind_of_ok hstage]
  generalize hw₁ : w.placed _ sessions times js = w₁
  obtain ⟨order, horder, hknown⟩ := stageSequenceAndDedup_found c.py raw f recvTs (w.state.epochAt c.py raw f reset) isReplay
    (if (w.state.epochAt c.py raw f reset).reset then [.epochReset] else []) w₁
  have hpriced := Keeps.priced_stageSequenceAndDedup (P := c.py) raw f recvTs (w.state.epochAt c.py raw f reset) isReplay .valid
    (if (w.state.epochAt c.py raw f reset).reset then [.epochReset] else []) w₁
  have hknown : order.status = .invalid ↔ w.state.KnowsEvent c.py raw f (w.state.epochAt c.py raw f reset) := by
    rw [hknown, ← hw₁]
    rfl
  have hpriced₁ : w₁.state.priced = w.state.priced := by
    rw [← hw₁]
    rfl
  rcases hres : stageSequenceAndDedup c.py raw f recvTs (w.state.epochAt c.py raw f reset) isReplay .valid
    (if (w.state.epochAt c.py raw f reset).reset then [.epochReset] else []) w₁ with ⟨r, v⟩
  rw [hres] at horder hpriced
  cases horder
  rw [Proc.bind_of_ok hres]
  have hpriced : v.state.priced = w.state.priced := Eq.trans hpriced hpriced₁
  by_cases hinvalid : order.status = .invalid
  · obtain ⟨reasons, hquote⟩ := stageQuoteAndStaleness_invalid c.py raw.payload f recvTs v.state.stalenessThresholdS order.reasons
    refine ⟨fun _ => ⟨reasons, _, v, hpriced, laterStages_of_invalid (hinvalid ▸ hquote)⟩, ?_⟩
    exact fun h => (h (.inl (hknown.mp hinvalid))).elim
  obtain ⟨htold, status, reasons, hquote, hcrossed⟩ | ⟨htold, err, hquote⟩ :=
    @stageQuoteAndStaleness_found _ c.py raw.payload f recvTs v.state.stalenessThresholdS _ hinvalid order.reasons
  · by_cases hstatus : status = .invalid
    · rw [hstatus] at hquote
      refine ⟨fun _ => ⟨reasons, _, v, hpriced, laterStages_of_invalid hquote⟩, ?_⟩
      exact fun h => (h (.inr ⟨htold, hcrossed.mp hstatus⟩)).elim
    · have hcalm : ¬w.state.Condemns c.py raw f recvTs (w.state.epochAt c.py raw f reset) := by
        rintro (h | ⟨-, h⟩)
        · exact hinvalid (hknown.mpr h)
        · exact hstatus (hcrossed.mpr h)
      exact ⟨fun h => (hcalm h).elim, fun _ found hfound => laterStages_valid hquote hstatus hfound⟩
  · have hcalm : ¬w.state.Condemns c.py raw f recvTs (w.state.epochAt c.py raw f reset) := by
      rintro (h | ⟨h, -⟩)
      · exact hinvalid (hknown.mpr h)
      · exact htold h
    refine ⟨fun h => (hcalm h).elim, fun _ found hfound => ?_⟩
    rw [laterStages_error hquote] at hfound
    cases hfound

end Stages

theorem QuoteHeld.samePrices_iff {instrument source : String} {w v : Work V} {q : Quote V} (h : QuoteHeld instrument source w q v) :
    SamePrices v.state w.state ↔ w.state.quoteAt instrument source = some q := by
  obtain ⟨journal, d, rfl, hmoved, hq⟩ := h
  rw [EngineState.quoteAt, ← hmoved.entries_iff hq]
  exact ⟨fun h => h.quotes, fun h => ⟨fun _ => rfl, fun _ => rfl, fun _ => rfl, h, fun _ => rfl⟩⟩

theorem SamePrices.trans {s t u : EngineState V} (h : SamePrices s t) (h' : SamePrices t u) : SamePrices s u where
  windows k := (h.windows k).trans (h'.windows k)
  stats k := (h.stats k).trans (h'.stats k)
  anom k := (h.anom k).trans (h'.anom k)
  quotes i := (h.quotes i).trans (h'.quotes i)
  feeds i := (h.feeds i).trans (h'.feeds i)

/-! ## The step -/

section Judge

variable {c : StepConfig V} {raw : RawEvent} {f : Fields V} {now : Json} {offset : Int} {isReplay : Bool} {w : Work V}

/-- What comes after the checks of the fields: the stages, the count and the package. -/
def afterChecks (c : StepConfig V) (raw : RawEvent) (f : Fields V) (now : Json) (offset : Int) (isReplay : Bool) :
    StepM V (EngineDecision V) := do
  let found ← runStages c raw f (raw.recvTs now) isReplay
  bumpCount found.2.1
  Proc.lift (package c.py raw f offset (raw.recvTs now) now found)

/-- After the stages the prices do not change, and an invalid event is packed without fail. -/
theorem afterChecks_invalid {v : Work V} {e : Epoch} {reasons : List Reason} {isDuplicate disagreement : Bool}
    (hrun : runStages c raw f (raw.recvTs now) isReplay w = (.ok (e, .invalid, reasons, isDuplicate, disagreement), v)) :
    ∃ d, (afterChecks c raw f now offset isReplay w).1 = .ok d ∧ d.qualityStatus = .invalid ∧
      (afterChecks c raw f now offset isReplay w).2.state.priced = v.state.priced := by
  unfold afterChecks
  rw [Proc.bind_of_ok hrun]
  exact ⟨_, rfl, rfl, rfl⟩

/-- Whatever status the stages find is that of the decision. -/
theorem afterChecks_status {d : EngineDecision V} (h : (afterChecks c raw f now offset isReplay w).1 = .ok d) :
    ∃ found, (runStages c raw f (raw.recvTs now) isReplay w).1 = .ok found ∧ d.qualityStatus = found.2.1 := by
  obtain ⟨found, hfound, hrest⟩ := Proc.bind_ok h
  unfold afterChecks at h
  rw [hrest] at h
  obtain ⟨_, -, hpackage⟩ := Proc.bind_ok h
  rw [hpackage] at h
  exact ⟨found, hfound, package_status h⟩

/-- An event that has passed the checks and is invalid leaves the prices as they were exactly where it brings no new quote. -/
theorem afterChecks_prices {reset : Bool} (hreset : w.state.resets c.py c.sessionPolicy raw f = .ok reset) :
    let moves := w.state.Condemns c.py raw f (raw.recvTs now) (w.state.epochAt c.py raw f reset) ∧
      ¬(Json.isNull (raw.payload.get "bid") ∧ Json.isNull (raw.payload.get "ask")) ∧
      ∃ q, newQuote c.py raw.payload (quoteOf w.state f.instrument (raw.sourceText c.py)) = .ok q ∧
        w.state.quoteAt f.instrument (raw.sourceText c.py) ≠ some q
    (¬moves → ∀ d, (afterChecks c raw f now offset isReplay w).1 = .ok d → d.qualityStatus = .invalid →
        SamePrices (afterChecks c raw f now offset isReplay w).2.state w.state) ∧
      (moves → ∃ d, (afterChecks c raw f now offset isReplay w).1 = .ok d ∧ d.qualityStatus = .invalid ∧
        ¬SamePrices (afterChecks c raw f now offset isReplay w).2.state w.state) := by
  intro moves
  obtain ⟨hcondemned, hcalm⟩ := @runStages_condemned _ _ _ _ (raw.recvTs now) isReplay _ _ hreset
  by_cases hinvalid : w.state.Condemns c.py raw f (raw.recvTs now) (w.state.epochAt c.py raw f reset)
  · obtain ⟨reasons, flagged, v, hpriced, hrun⟩ := hcondemned hinvalid
    have hquotes : v.state.bboState = w.state.bboState := congrArg Priced.quotes hpriced
    have hsame : SamePrices v.state w.state := .of_priced hpriced
    by_cases hquote : Json.isNull (raw.payload.get "bid") ∧ Json.isNull (raw.payload.get "ask")
    · have hkept : keepQuotes c.py raw.payload f.instrument (raw.sourceText c.py) v = (.ok (), v) := by
        unfold keepQuotes
        rw [if_pos hquote]
        rfl
      rw [Proc.bind_of_ok hkept] at hrun
      obtain ⟨d, hd, -, hafter⟩ := @afterChecks_invalid _ _ _ _ _ offset _ _ _ _ _ _ _ hrun
      exact ⟨fun _ _ _ _ => (SamePrices.of_priced hafter).trans hsame, fun h => (h.2.1 hquote).elim⟩
    have hspec := @keepQuotes_spec _ c.py _ f.instrument (raw.sourceText c.py) hquote v
    have hold : quoteOf v.state f.instrument (raw.sourceText c.py) = quoteOf w.state f.instrument (raw.sourceText c.py) := by
      rw [quoteOf, hquotes]
      rfl
    rw [hold] at hspec
    rcases hnew : newQuote c.py raw.payload (quoteOf w.state f.instrument (raw.sourceText c.py)) with err | q
    · rw [hnew] at hspec
      refine ⟨fun _ d hd => ?_, ?_⟩
      · obtain ⟨found, hfound, -⟩ := afterChecks_status hd
        rw [hrun, Proc.bind_error hspec] at hfound
        cases hfound
      · rintro ⟨-, -, q, hq, -⟩
        rw [hnew] at hq
        cases hq
    rw [hnew] at hspec
    obtain ⟨v', hkept, hheld⟩ := hspec
    rw [Proc.bind_of_ok hkept] at hrun
    obtain ⟨d, hd, hstatus, hafter⟩ := @afterChecks_invalid _ _ _ _ _ offset _ _ _ _ _ _ _ hrun
    have hmoved : w.state.quoteAt f.instrument (raw.sourceText c.py) = some q ↔ SamePrices v'.state v.state := by
      rw [hheld.samePrices_iff, EngineState.quoteAt, EngineState.quoteAt, hquotes]
    have hboth : SamePrices (afterChecks c raw f now offset isReplay w).2.state w.state ↔ SamePrices v'.state v.state :=
      ⟨fun h => ((SamePrices.of_priced hafter.symm).trans h).trans (.of_priced hpriced.symm),
        fun h => ((SamePrices.of_priced hafter).trans h).trans hsame⟩
    rw [hboth, ← hmoved]
    refine ⟨fun h _ _ _ => ?_, fun ⟨_, _, q', hq', hne⟩ => ⟨d, hd, hstatus, ?_⟩⟩
    · by_contra hne
      exact h ⟨hinvalid, hquote, q, hnew, hne⟩
    · cases hnew.symm.trans hq'
      exact hne
  · refine ⟨fun _ d hd hstatus => ?_, fun h => (hinvalid h.1).elim⟩
    obtain ⟨found, hfound, hsame⟩ := afterChecks_status hd
    exact (hcalm hinvalid found hfound (hsame.symm.trans hstatus)).elim

end Judge

/-- A judged event that is invalid leaves the prices as they were exactly where it brings no new quote. -/
theorem judge_prices (c : StepConfig V) (raw : RawEvent) (now : Json) (offset : Int) (isReplay : Bool) (w : Work V) :
    (¬w.state.MovesQuote c raw now offset → ∀ d, (judge c raw now offset isReplay w).1 = .ok d → d.qualityStatus = .invalid →
        SamePrices (judge c raw now offset isReplay w).2.state w.state) ∧
      (w.state.MovesQuote c raw now offset → ∃ d, (judge c raw now offset isReplay w).1 = .ok d ∧ d.qualityStatus = .invalid ∧
        ¬SamePrices (judge c raw now offset isReplay w).2.state w.state) := by
  have hcount (status : QualityStatus) (v : Work V) : (bumpCount status v).2.state.priced = v.state.priced :=
    Keeps.priced_bumpCount status v
  by_cases hobj : raw.payload.isObj = true
  · rcases hchecks : stageChecks c raw offset (raw.recvTs now) with exc | d | f
    · have hjudge : judge c raw now offset isReplay w = (.error exc, w) := by
        unfold judge
        rw [if_pos hobj, hchecks]
        rfl
      rw [hjudge]
      refine ⟨fun _ d hd => ?_, ?_⟩
      · cases hd
      · rintro ⟨-, -, f, reset, q, hpass, -⟩
        rw [hchecks] at hpass
        cases hpass
    · have hjudge : judge c raw now offset isReplay w = (.ok d, (bumpCount .invalid w).2) := by
        unfold judge
        rw [if_pos hobj, hchecks]
        rfl
      rw [hjudge]
      refine ⟨fun _ d hd _ => .of_priced (hcount .invalid w), ?_⟩
      rintro ⟨-, -, f, reset, q, hpass, -⟩
      rw [hchecks] at hpass
      cases hpass
    have hjudge : judge c raw now offset isReplay w = afterChecks c raw f now offset isReplay w := by
      unfold judge
      rw [if_pos hobj, hchecks]
      rfl
    rw [hjudge]
    rcases hreset : w.state.resets c.py c.sessionPolicy raw f with err | reset
    · refine ⟨fun _ d hd => ?_, ?_⟩
      · obtain ⟨found, hfound, -⟩ := afterChecks_status hd
        rw [runStages_split, Proc.bind_error (by rw [stageSessionAndEpoch_error hreset])] at hfound
        cases hfound
      · rintro ⟨-, -, f', reset, q, hpass, hreset', -⟩
        cases hchecks.symm.trans hpass
        rw [hreset] at hreset'
        cases hreset'
    have hmoves : w.state.MovesQuote c raw now offset ↔
        w.state.Condemns c.py raw f (raw.recvTs now) (w.state.epochAt c.py raw f reset) ∧
        ¬(Json.isNull (raw.payload.get "bid") ∧ Json.isNull (raw.payload.get "ask")) ∧
        ∃ q, newQuote c.py raw.payload (quoteOf w.state f.instrument (raw.sourceText c.py)) = .ok q ∧
          w.state.quoteAt f.instrument (raw.sourceText c.py) ≠ some q := by
      constructor
      · rintro ⟨-, hquote, f', reset', q, hpass, hreset', hcondemned, hq⟩
        cases hchecks.symm.trans hpass
        cases hreset.symm.trans hreset'
        exact ⟨hcondemned, hquote, q, hq⟩
      · rintro ⟨hcondemned, hquote, q, hq⟩
        exact ⟨hobj, hquote, f, reset, q, hchecks, hreset, hcondemned, hq⟩
    rw [hmoves]
    exact afterChecks_prices hreset
  · have hjudge : judge c raw now offset isReplay w =
        (.ok (.quarantined offset .schemaViolation (notADict c.py raw offset (raw.recvTs now))), (bumpCount .invalid w).2) := by
      unfold judge
      rw [if_neg hobj]
      rfl
    rw [hjudge]
    exact ⟨fun _ d hd _ => .of_priced (hcount .invalid w), fun h => (hobj h.1).elim⟩

/-- An invalid decision leaves the prices as they were exactly where its event, found invalid by the stages after the checks, brings
no quote that its source does not have. -/
theorem invalid_moves_no_price (hP : P.EqLaws) (s : EngineState V) (hs : s.Reached P) (c : StepConfig V) (hc : c.py = P)
    (raw : RawEvent) (now : Json) (offset : Option Int) (isReplay : Bool) (gaps : Option GapManager) :
    let stepped := stepAlone c raw now offset isReplay s gaps
    (stepped.1.qualityStatus = .invalid → SamePrices stepped.2.1 s) ↔ ¬s.MovesQuote c raw now (offset.getD s.eventCount) := by
  intro stepped
  obtain ⟨hsame, hmoved⟩ := judge_prices c raw now (offset.getD s.eventCount) isReplay
    ((⟨s, [], gaps⟩ : Work V).begun (offset.getD s.eventCount))
  rw [← stepInternal_eq] at hsame hmoved
  have hbegun : EngineState.MovesQuote ((⟨s, [], gaps⟩ : Work V).begun (offset.getD s.eventCount)).state c raw now
      (offset.getD s.eventCount) ↔ s.MovesQuote c raw now (offset.getD s.eventCount) := Iff.rfl
  rw [hbegun] at hsame hmoved
  rcases hres : stepInternal c raw now (offset.getD s.eventCount) isReplay ⟨s, [], gaps⟩ with ⟨exc | d, w'⟩
  · have hraises : Raises c raw now (offset.getD s.eventCount) isReplay ⟨s, [], gaps⟩ := by simp [Raises, hres, Except.toOption]
    rw [hres] at hmoved
    refine iff_of_true (fun _ => ?_) fun h => ?_
    · have hback := (step_raised hP hc (w := ⟨s, [], gaps⟩) (hs.deduped hP) hraises).samePrices
      exact ⟨hback.windows, hback.stats, hback.anom, hback.quotes, hback.feeds⟩
    · obtain ⟨d, hd, -⟩ := hmoved h
      cases hd
  · have hstepped : stepped = (d, w'.state, w'.gaps) := by
      simp only [stepped, stepAlone, step, hres]
    have hbegin : SamePrices ((⟨s, [], gaps⟩ : Work V).begun (offset.getD s.eventCount)).state s := .of_priced rfl
    rw [hres] at hsame hmoved
    rw [hstepped]
    constructor
    · intro h hmoves
      obtain ⟨d', hd', hstatus, hne⟩ := hmoved hmoves
      cases hd'
      exact hne ((h hstatus).trans (.of_priced rfl))
    · intro hnot hstatus
      exact (hsame hnot d rfl hstatus).trans hbegin

/-- A trade that comes twice moves no price. -/
theorem invalid_moves_no_price_twice :
    let s := afterTrades [(1, .int 1)]
    let stepped := stepAlone plainConfig (tradeAt 1 (.int 1)) (.int 1) none false s none
    stepped.1.qualityStatus = .invalid ∧ SamePrices stepped.2.1 s := by
  have hframe (t : EngineState PyNum) (ht : t.Reached exactPy) :
      let stepped := stepAlone plainConfig (tradeAt 1 (.int 1)) (.int 1) none false t none
      stepped.1.qualityStatus = .invalid → SamePrices stepped.2.1 t :=
    (invalid_moves_no_price exactPy_eqLaws t ht plainConfig rfl (tradeAt 1 (.int 1)) (.int 1) none false none).mpr
      (EngineState.not_movesQuote ⟨by decide, by decide⟩)
  have hinvalid : (stepAlone plainConfig (tradeAt 1 (.int 1)) (.int 1) none false (afterTrades [(1, .int 1)]) none).1.qualityStatus =
      .invalid := by decide +kernel
  exact ⟨hinvalid, hframe _ (reached_afterTrades _) hinvalid⟩

/-- A quote with its bid above its ask. -/
def crossedQuote : RawEvent :=
  ⟨.str "A", .obj [("instrument", .str "X"), ("event_type", .str "QUOTE"), ("bid", .int 2), ("ask", .int 1)], .int 1, .null,
    .json .null, .null⟩

/-- The crossed quote is invalid, and is the quote of its source from then on. -/
theorem invalid_moves_no_price_false :
    ¬∀ s : EngineState PyNum, s.Reached exactPy → ∀ c : StepConfig PyNum, c.py = exactPy → ∀ raw now offset isReplay gaps,
      (stepAlone c raw now offset isReplay s gaps).1.qualityStatus = .invalid →
        SamePrices (stepAlone c raw now offset isReplay s gaps).2.1 s := by
  intro h
  have hsame := h (.initial (exactPy.dec 5 (-2))) (.initial _) plainConfig rfl crossedQuote (.int 1) none false none
    (by decide +kernel)
  have hquote := congrArg Option.isSome (hsame.quotes "X")
  revert hquote
  decide +kernel

end Mdrap
