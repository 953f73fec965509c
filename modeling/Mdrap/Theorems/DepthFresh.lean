import Mdrap.Lemmas.Depth

/-!
# The ladder that is served

A call that finds no levels on a side returns before it stores a ladder, and leaves the one that is there, with its levels of books that
are gone. So the ladder that is served is as fresh as the books only where a call replaces it or there is none.
-/

namespace Mdrap

open Lib

variable {V : Type} {F : Floats V}

/-- The levels of a ladder are levels of some books. -/
def ConsolidatedLadder.IsOf (books : Dict String (VenueBook V)) (l : ConsolidatedLadder V) : Prop :=
  (∀ b ∈ l.bids, b.IsIn VenueBook.bids books) ∧ ∀ a ∈ l.asks, a.IsIn VenueBook.asks books

namespace DepthEngine

variable [DecidableEq V]

/-! ## What an engine holds -/

/-- Ladders have levels on both sides that were read, and are what is rendered. -/
structure Serves (F : Floats V) (e : DepthEngine V) : Prop where
  rendered : ∀ inst, e.ladderWireBytes inst = e.currentLadder inst
  levels : ∀ inst, ∀ l ∈ e.currentLadder inst, e.maxLevelsPerSide ≠ 0 ∧ l.bids ≠ [] ∧ l.asks ≠ [] ∧
    (∀ b ∈ l.bids, b.IsRead F) ∧ ∀ a ∈ l.asks, a.IsRead F

variable {e : DepthEngine V} {u : BookUpdate V}

omit [DecidableEq V] in
theorem serves_new (depthTtlS : V) (maxLevelsPerSide maxInstruments : Nat) :
    (new depthTtlS maxLevelsPerSide maxInstruments).Serves F where
  rendered _ := rfl
  levels _ _ h := nomatch h

omit [DecidableEq V] in
theorem Serves.dropInstrument (h : e.Serves F) (inst : String) : (e.dropInstrument inst).Serves F := by
  have hladder : ∀ j, (e.dropInstrument inst).currentLadder j = if j = inst then none else e.currentLadder j :=
    fun j => e.currentLadders.get?_erase inst j
  have hbytes : ∀ j, (e.dropInstrument inst).ladderWireBytes j = if j = inst then none else e.ladderWireBytes j :=
    fun j => e.cachedDepthJson.get?_erase inst j
  refine ⟨fun j => ?_, fun j l hl => ?_⟩
  · rw [hladder, hbytes, h.rendered]
  · rw [hladder] at hl
    split at hl
    · cases hl
    · exact h.levels j l hl

omit [DecidableEq V] in
theorem serves_dropAll (h : e.Serves F) (insts : List String) : (insts.foldl DepthEngine.dropInstrument e).Serves F ∧
    (insts.foldl DepthEngine.dropInstrument e).depthTtlS = e.depthTtlS ∧
    (insts.foldl DepthEngine.dropInstrument e).maxLevelsPerSide = e.maxLevelsPerSide := by
  induction insts generalizing e with
  | nil => exact ⟨h, rfl, rfl⟩
  | cons inst insts ih => exact ih (h.dropInstrument inst)

omit [DecidableEq V] in
theorem serves_evictStale (h : e.Serves F) : (e.evictStale F).Serves F ∧ (e.evictStale F).depthTtlS = e.depthTtlS ∧
    (e.evictStale F).maxLevelsPerSide = e.maxLevelsPerSide := by
  unfold evictStale
  split
  · exact ⟨h, rfl, rfl⟩
  · exact serves_dropAll h _

/-- What is left of an engine when a book is taken in and room is made for a ladder. -/
def roomMade (F : Floats V) (e : DepthEngine V) (u : BookUpdate V) : DepthEngine V :=
  evictStale F { e with
    venueBooks := e.venueBooks.set u.instrument (takeBook F u ((e.venueBooks.get? u.instrument).getD .empty))
    lastSeen := e.lastSeen.set u.instrument u.time }

omit [DecidableEq V] in
theorem serves_roomMade (h : e.Serves F) (u : BookUpdate V) : (e.roomMade F u).Serves F ∧
    (e.roomMade F u).depthTtlS = e.depthTtlS ∧ (e.roomMade F u).maxLevelsPerSide = e.maxLevelsPerSide :=
  serves_evictStale (e := { e with
    venueBooks := e.venueBooks.set u.instrument (takeBook F u ((e.venueBooks.get? u.instrument).getD .empty))
    lastSeen := e.lastSeen.set u.instrument u.time }) ⟨h.rendered, h.levels⟩

omit [DecidableEq V] in
theorem currentLadders_dropAll (e : DepthEngine V) (insts : List String) :
    (insts.foldl DepthEngine.dropInstrument e).currentLadders = insts.foldl Dict.erase e.currentLadders := by
  induction insts generalizing e with
  | nil => rfl
  | cons inst insts ih => exact ih (e.dropInstrument inst)

omit [DecidableEq V] in
theorem currentLadders_evictStale (e : DepthEngine V) : (e.evictStale F).currentLadders =
    if e.currentLadders.size ≤ e.maxInstruments then e.currentLadders
    else (((e.byAge F).take (e.currentLadders.size - e.maxInstruments)).map (·.1)).foldl Dict.erase e.currentLadders := by
  unfold evictStale
  split
  · rfl
  · exact currentLadders_dropAll ..

omit [DecidableEq V] in
/-- Which ladders are left does not depend on the trades. -/
theorem currentLadder_roomMade_trade (e : DepthEngine V) (u : BookUpdate V) (cvd : Dict String V) (j : String) :
    (({ e with cumCvd := cvd } : DepthEngine V).roomMade F u).currentLadder j = (e.roomMade F u).currentLadder j := by
  have hladders : (({ e with cumCvd := cvd } : DepthEngine V).roomMade F u).currentLadders = (e.roomMade F u).currentLadders := by
    unfold roomMade
    rw [currentLadders_evictStale, currentLadders_evictStale]
    rfl
  exact congrArg (Dict.get? · j) hladders

/-! ## What merging does -/

/-- A ladder of some books is stored and rendered, or the books are not two-sided and the ladders stay. -/
theorem mergeBooks_cases (inst : String) (time : V) (books : Dict String (VenueBook V)) (e : DepthEngine V) :
    (TwoSided F e.maxLevelsPerSide books ∧ ∃ ladder : ConsolidatedLadder V, ladder.IsOf books ∧ e.maxLevelsPerSide ≠ 0 ∧
        ladder.bids ≠ [] ∧ ladder.asks ≠ [] ∧ (∀ b ∈ ladder.bids, b.IsRead F) ∧ (∀ a ∈ ladder.asks, a.IsRead F) ∧
        ∀ j, (e.mergeBooks F inst time books).2.currentLadder j = (if j = inst then some ladder else e.currentLadder j) ∧
          (e.mergeBooks F inst time books).2.ladderWireBytes j = if j = inst then some ladder else e.ladderWireBytes j) ∨
      (¬TwoSided F e.maxLevelsPerSide books ∧ (e.mergeBooks F inst time books).2 = e) := by
  unfold mergeBooks
  rcases hlevels : allLevels F books.items with _ | ⟨allBids, allAsks⟩
  · refine .inr ⟨?_, rfl⟩
    rintro ⟨bids, asks, hsome, -⟩
    exact nomatch hlevels.symm.trans hsome
  · have hiff : TwoSided F e.maxLevelsPerSide books ↔
        (topLevels F e.maxLevelsPerSide true allBids).1 ≠ [] ∧ (topLevels F e.maxLevelsPerSide false allAsks).1 ≠ [] := by
      constructor
      · rintro ⟨bids, asks, hsome, h⟩
        cases hlevels.symm.trans hsome
        exact h
      · intro h
        exact ⟨allBids, allAsks, hlevels, h⟩
    rw [hiff]
    dsimp only
    split
    · rename_i hnone
      refine .inr ⟨?_, rfl⟩
      rintro ⟨hbids, hasks⟩
      exact hnone.elim (topLevels_ne_nil_iff.mp hbids).2 (topLevels_ne_nil_iff.mp hasks).2
    · obtain ⟨hsoundBids, hsoundAsks⟩ := allLevels_sound hlevels
      have hbids : ∀ b ∈ (topLevels F e.maxLevelsPerSide true allBids).2, b.IsRead F ∧ b.IsIn VenueBook.bids books :=
        fun b hb => hsoundBids b (mem_topLevels hb)
      have hasks : ∀ a ∈ (topLevels F e.maxLevelsPerSide false allAsks).2, a.IsRead F ∧ a.IsIn VenueBook.asks books :=
        fun a ha => hsoundAsks a (mem_topLevels ha)
      have hmax : (topLevels F e.maxLevelsPerSide true allBids).1 ≠ [] → e.maxLevelsPerSide ≠ 0 ∧
          (topLevels F e.maxLevelsPerSide true allBids).2 ≠ [] :=
        fun h => ⟨(topLevels_ne_nil_iff.mp h).1, topLevels_levels_ne_nil h⟩
      have hmaxAsks : (topLevels F e.maxLevelsPerSide false allAsks).1 ≠ [] →
          (topLevels F e.maxLevelsPerSide false allAsks).2 ≠ [] := topLevels_levels_ne_nil
      unfold storeLadder
      generalize topLevels F e.maxLevelsPerSide true allBids = topBids at hbids hmax ⊢
      generalize topLevels F e.maxLevelsPerSide false allAsks = topAsks at hasks hmaxAsks ⊢
      rcases topBids with ⟨_ | ⟨bestBid, aggBids⟩, bids⟩
      · exact .inr ⟨fun h => h.1 rfl, rfl⟩
      · rcases topAsks with ⟨_ | ⟨bestAsk, aggAsks⟩, asks⟩
        · exact .inr ⟨fun h => h.2 rfl, rfl⟩
        · obtain ⟨hpos, hbidsNe⟩ := hmax (List.cons_ne_nil _ _)
          refine .inl ⟨⟨List.cons_ne_nil _ _, List.cons_ne_nil _ _⟩, _, ⟨?_, ?_⟩, hpos, ?_, ?_, ?_, ?_,
            fun j => ⟨Dict.get?_set .., Dict.get?_set ..⟩⟩
          · exact fun b hb => (hbids b hb).2
          · exact fun a ha => (hasks a ha).2
          · exact hbidsNe
          · exact hmaxAsks (List.cons_ne_nil _ _)
          · exact fun b hb => (hbids b hb).1
          · exact fun a ha => (hasks a ha).1

theorem maxLevels_mergeBooks (inst : String) (time : V) (books : Dict String (VenueBook V)) (e : DepthEngine V) :
    (e.mergeBooks F inst time books).2.maxLevelsPerSide = e.maxLevelsPerSide ∧
      (e.mergeBooks F inst time books).2.depthTtlS = e.depthTtlS := by
  unfold mergeBooks
  split
  · exact ⟨rfl, rfl⟩
  · split
    · exact ⟨rfl, rfl⟩
    · unfold storeLadder
      rcases topLevels F e.maxLevelsPerSide true _ with ⟨_ | ⟨bestBid, aggBids⟩, bids⟩
      · exact ⟨rfl, rfl⟩
      · rcases topLevels F e.maxLevelsPerSide false _ with ⟨_ | ⟨bestAsk, aggAsks⟩, asks⟩
        · exact ⟨rfl, rfl⟩
        · exact ⟨rfl, rfl⟩

theorem Serves.mergeBooks (h : e.Serves F) (inst : String) (time : V) (books : Dict String (VenueBook V)) :
    (e.mergeBooks F inst time books).2.Serves F := by
  have hmax := (maxLevels_mergeBooks (F := F) inst time books e).1
  rcases mergeBooks_cases (F := F) inst time books e with ⟨-, ladder, -, hpos, hbids, hasks, hreadB, hreadA, hget⟩ | ⟨-, hsame⟩
  · refine ⟨fun j => ?_, fun j l hl => ?_⟩
    · rw [(hget j).1, (hget j).2, h.rendered]
    · rw [hmax]
      rw [(hget j).1] at hl
      split at hl
      · cases hl
        exact ⟨hpos, hbids, hasks, hreadB, hreadA⟩
      · exact h.levels j l hl
  · rw [hsame]
    exact h

/-! ## A call -/

/-- A book that is taken in is merged with the others that are live, after room was made. -/
theorem update_eq (e : DepthEngine V) (u : BookUpdate V) (stillActive : String → Bool) (h : e.Serves F) :
    ∃ e' : DepthEngine V, e'.Serves F ∧ e'.maxLevelsPerSide = e.maxLevelsPerSide ∧ (∀ j, e'.currentLadder j = (e.roomMade F u).currentLadder j) ∧
      e.update F u stillActive = e'.mergeBooks F u.instrument u.time (e.booksAfter F u stillActive) := by
  obtain ⟨hroom, httl, hmax⟩ := serves_roomMade h u
  have hbooks : liveBooks F (e.roomMade F u).depthTtlS u.time stillActive
      (takeBook F u ((e.venueBooks.get? u.instrument).getD .empty)) = e.booksAfter F u stillActive := by
    rw [booksAfter, httl]
  refine ⟨if (e.roomMade F u).venueBooks.contains u.instrument then
    { e.roomMade F u with venueBooks := (e.roomMade F u).venueBooks.set u.instrument (e.booksAfter F u stillActive) }
    else e.roomMade F u, ?_, ?_, ?_, ?_⟩
  · split
    · exact ⟨hroom.rendered, hroom.levels⟩
    · exact hroom
  · split
    · exact hmax
    · exact hmax
  · intro j
    split
    · rfl
    · rfl
  · rw [← hbooks]
    rfl

/-- After a call that takes an event in, the ladder of its instrument, and what is rendered, are of the books that are live. -/
def StaysFresh (F : Floats V) (upper : String → String) (e : DepthEngine V) (c : DepthCall V) : Prop :=
  ∀ u ∈ updateOf F upper c,
    (∀ l ∈ (e.step F upper c).currentLadder u.instrument, l.IsOf (e.booksAfter F u c.stillActive)) ∧
      ∀ l ∈ (e.step F upper c).ladderWireBytes u.instrument, l.IsOf (e.booksAfter F u c.stillActive)

/-- A call that takes an event in finds levels on both sides of the live books, or its instrument has no ladder, or it raises and the
ladder is of the live books anyway. -/
def LeavesNoneStale (F : Floats V) (upper : String → String) (e : DepthEngine V) (c : DepthCall V) : Prop :=
  ∀ u ∈ updateOf F upper c,
    TwoSided F e.maxLevelsPerSide (e.booksAfter F u c.stillActive) ∨ (e.roomMade F u).currentLadder u.instrument = none ∨
      (allLevels F (e.booksAfter F u c.stillActive).items = none ∧
        ∀ l ∈ (e.roomMade F u).currentLadder u.instrument, l.IsOf (e.booksAfter F u c.stillActive))

/-- Whether a ladder is of books that are not two-sided. -/
theorem Serves.isOf_iff (h : e.Serves F) {books : Dict String (VenueBook V)} (hbooks : ¬TwoSided F e.maxLevelsPerSide books)
    {inst : String} : (∀ l ∈ e.currentLadder inst, l.IsOf books) ↔
      e.currentLadder inst = none ∨ (allLevels F books.items = none ∧ ∀ l ∈ e.currentLadder inst, l.IsOf books) := by
  constructor
  · intro hall
    rcases hladder : e.currentLadder inst with _ | l
    · exact .inl rfl
    · obtain ⟨hpos, hbids, hasks, hreadB, hreadA⟩ := h.levels inst l hladder
      obtain ⟨hofB, hofA⟩ := hall l hladder
      refine .inr ⟨?_, hladder ▸ hall⟩
      rcases hlevels : allLevels F books.items with _ | ⟨allBids, allAsks⟩
      · rfl
      · obtain ⟨b, hb⟩ := List.exists_mem_of_ne_nil _ hbids
        obtain ⟨a, ha⟩ := List.exists_mem_of_ne_nil _ hasks
        refine absurd ⟨allBids, allAsks, hlevels, topLevels_ne_nil_iff.mpr ⟨hpos, ?_⟩, topLevels_ne_nil_iff.mpr ⟨hpos, ?_⟩⟩ hbooks
        · exact (allLevels_ne_nil hlevels (hreadB b hb)).1 (hofB b hb)
        · exact (allLevels_ne_nil hlevels (hreadA a ha)).2 (hofA a ha)
  · rintro (hnone | ⟨-, hall⟩)
    · rw [hnone]
      exact nofun
    · exact hall

/-- One call keeps what an engine holds, and stays fresh exactly when it leaves no stale ladder. -/
theorem step_fresh_iff (upper : String → String) (h : e.Serves F) (c : DepthCall V) :
    (e.step F upper c).Serves F ∧ (e.StaysFresh F upper c ↔ e.LeavesNoneStale F upper c) := by
  obtain ⟨cvd, hstep⟩ := step_eq F upper e c
  unfold StaysFresh LeavesNoneStale
  rw [hstep]
  rcases updateOf F upper c with _ | u
  · exact ⟨⟨h.rendered, h.levels⟩, iff_of_true nofun nofun⟩
  · simp only [Option.elim_some, Option.mem_some_iff, forall_eq']
    obtain ⟨e', hserves, hmax, hladder, hupdate⟩ := update_eq ({ e with cumCvd := cvd } : DepthEngine V) u c.stillActive
      ⟨h.rendered, h.levels⟩
    have hbooks : ({ e with cumCvd := cvd } : DepthEngine V).booksAfter F u c.stillActive = e.booksAfter F u c.stillActive := rfl
    have hmax : e'.maxLevelsPerSide = e.maxLevelsPerSide := hmax
    rw [hupdate, hbooks]
    simp only [currentLadder_roomMade_trade] at hladder
    generalize e.booksAfter F u c.stillActive = books
    have hafter := hserves.mergeBooks u.instrument u.time books
    refine ⟨hafter, ?_⟩
    have hboth : ((∀ l ∈ (e'.mergeBooks F u.instrument u.time books).2.currentLadder u.instrument, l.IsOf books) ∧
          ∀ l ∈ (e'.mergeBooks F u.instrument u.time books).2.ladderWireBytes u.instrument, l.IsOf books) ↔
        ∀ l ∈ (e'.mergeBooks F u.instrument u.time books).2.currentLadder u.instrument, l.IsOf books := by
      rw [hafter.rendered, and_self]
    rw [hboth, ← hladder, ← hmax]
    rcases mergeBooks_cases (F := F) u.instrument u.time books e' with ⟨htwo, ladder, hof, -, -, -, -, -, hget⟩ | ⟨htwo, hsame⟩
    · refine iff_of_true ?_ (.inl htwo)
      intro l hl
      rw [(hget u.instrument).1, if_pos rfl] at hl
      cases hl
      exact hof
    · rw [hsame]
      exact (hserves.isOf_iff htwo).trans (or_iff_right htwo).symm

end DepthEngine

/-- A feed quotes both sides of X, or only a bid. -/
def bothSides : DepthCall (Option ℚ) := depthQuoteAt 1 "X" (some 101)
def bidOnly : DepthCall (Option ℚ) := depthQuoteAt 9 "X" none

end Mdrap
