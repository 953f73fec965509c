import Mdrap.Theorems.DepthCap

/-!
# The levels of a ladder

A ladder has levels that were read from the rows of the books, on both sides. It is kept until another one of its instrument takes its
place or the instrument is dropped, together with what is rendered from it.
-/

namespace Mdrap

open Lib

variable {V : Type} {F : Floats V}

/-! ## Levels that are read -/

/-- A level of a row that counts. -/
def DepthLevel.IsRead (F : Floats V) (l : DepthLevel V) : Prop :=
  F.isFinite l.price ∧ F.isFinite l.size ∧ F.lt (F.int 0) l.price ∧ F.lt (F.int 0) l.size

/-- A level is a row of a side of a venue's book. -/
def DepthLevel.IsRowOf (l : DepthLevel V) (venue : String) (rows : DepthRows V) : Prop :=
  l.venue = venue ∧ .level l.price l.size ∈ rows.getD []

theorem readLevels_sound {venue : String} {rows : List (DepthRow V)} {levels : List (DepthLevel V)}
    (h : readLevels F venue rows = some levels) {l : DepthLevel V} (hl : l ∈ levels) :
    l.IsRead F ∧ l.IsRowOf venue (some rows) := by
  induction rows generalizing levels with
  | nil =>
    cases h
    cases hl
  | cons row rows ih =>
    rcases row with ⟨price, size⟩ | _ | _
    · unfold readLevels at h
      split at h
      · rename_i hread
        obtain ⟨rest, hrest, rfl⟩ := Option.map_eq_some_iff.mp h
        rcases List.mem_cons.mp hl with rfl | hmem
        · exact ⟨hread, rfl, List.mem_cons_self⟩
        · obtain ⟨hlread, hvenue, hrow⟩ := ih hrest hmem
          exact ⟨hlread, hvenue, List.mem_cons_of_mem _ hrow⟩
      · obtain ⟨hlread, hvenue, hrow⟩ := ih h hl
        exact ⟨hlread, hvenue, List.mem_cons_of_mem _ hrow⟩
    · unfold readLevels at h
      obtain ⟨hlread, hvenue, hrow⟩ := ih h hl
      exact ⟨hlread, hvenue, List.mem_cons_of_mem _ hrow⟩
    · cases h

/-- A row that counts gives a level. -/
theorem readLevels_ne_nil {venue : String} {rows : List (DepthRow V)} {levels : List (DepthLevel V)}
    (h : readLevels F venue rows = some levels) {l : DepthLevel V} (hread : l.IsRead F) (hl : .level l.price l.size ∈ rows) :
    levels ≠ [] := by
  induction rows generalizing levels with
  | nil => cases hl
  | cons row rows ih =>
    rcases row with ⟨price, size⟩ | _ | _
    · unfold readLevels at h
      split at h
      · obtain ⟨rest, -, rfl⟩ := Option.map_eq_some_iff.mp h
        exact List.cons_ne_nil _ _
      · rename_i hskip
        rcases List.mem_cons.mp hl with heq | hmem
        · obtain ⟨hprice, hsize⟩ := DepthRow.level.inj heq
          exact absurd (hprice ▸ hsize ▸ hread) hskip
        · exact ih h hmem
    · unfold readLevels at h
      exact ih h ((List.mem_cons.mp hl).resolve_left nofun)
    · cases h

/-! ## Levels of all venues -/

/-- A level is one of a side of some books. -/
def DepthLevel.IsIn (l : DepthLevel V) (side : VenueBook V → DepthRows V) (books : Dict String (VenueBook V)) : Prop :=
  ∃ x ∈ books.items, l.IsRowOf x.1 (side x.2)

theorem allLevels_cons {x : String × VenueBook V} {books : List (String × VenueBook V)}
    {levels : List (DepthLevel V) × List (DepthLevel V)} (h : allLevels F (x :: books) = some levels) :
    ∃ bidRows askRows bids asks more, x.2.bids = some bidRows ∧ x.2.asks = some askRows ∧ readLevels F x.1 bidRows = some bids ∧
      readLevels F x.1 askRows = some asks ∧ allLevels F books = some more ∧ levels = (bids ++ more.1, asks ++ more.2) := by
  unfold allLevels at h
  simp only [Option.bind_eq_bind, Option.bind_eq_some_iff, Option.pure_def, Option.some.injEq] at h
  obtain ⟨bids, ⟨bidRows, hbidRows, hbids⟩, asks, ⟨askRows, haskRows, hasks⟩, more, hmore, rfl⟩ := h
  exact ⟨bidRows, askRows, bids, asks, more, hbidRows, haskRows, hbids, hasks, hmore, rfl⟩

theorem allLevels_sound {books : List (String × VenueBook V)} {levels : List (DepthLevel V) × List (DepthLevel V)}
    (h : allLevels F books = some levels) :
    (∀ l ∈ levels.1, l.IsRead F ∧ ∃ x ∈ books, l.IsRowOf x.1 x.2.bids) ∧
      (∀ l ∈ levels.2, l.IsRead F ∧ ∃ x ∈ books, l.IsRowOf x.1 x.2.asks) := by
  induction books generalizing levels with
  | nil =>
    cases h
    exact ⟨nofun, nofun⟩
  | cons x books ih =>
    obtain ⟨bidRows, askRows, bids, asks, more, hbidRows, haskRows, hbids, hasks, hmore, rfl⟩ := allLevels_cons h
    obtain ⟨ihBids, ihAsks⟩ := ih hmore
    constructor
    · intro l hl
      rcases List.mem_append.mp hl with hin | hin
      · obtain ⟨hread, hrow⟩ := readLevels_sound hbids hin
        exact ⟨hread, x, List.mem_cons_self, hbidRows ▸ hrow⟩
      · obtain ⟨hread, y, hy, hrow⟩ := ihBids l hin
        exact ⟨hread, y, List.mem_cons_of_mem _ hy, hrow⟩
    · intro l hl
      rcases List.mem_append.mp hl with hin | hin
      · obtain ⟨hread, hrow⟩ := readLevels_sound hasks hin
        exact ⟨hread, x, List.mem_cons_self, haskRows ▸ hrow⟩
      · obtain ⟨hread, y, hy, hrow⟩ := ihAsks l hin
        exact ⟨hread, y, List.mem_cons_of_mem _ hy, hrow⟩

/-- Where a row of a book counts, there is a level on its side. -/
theorem allLevels_ne_nil {books : List (String × VenueBook V)} {levels : List (DepthLevel V) × List (DepthLevel V)}
    (h : allLevels F books = some levels) {l : DepthLevel V} (hread : l.IsRead F) :
    ((∃ x ∈ books, l.IsRowOf x.1 x.2.bids) → levels.1 ≠ []) ∧ ((∃ x ∈ books, l.IsRowOf x.1 x.2.asks) → levels.2 ≠ []) := by
  induction books generalizing levels with
  | nil => exact ⟨nofun, nofun⟩
  | cons x books ih =>
    obtain ⟨bidRows, askRows, bids, asks, more, hbidRows, haskRows, hbids, hasks, hmore, rfl⟩ := allLevels_cons h
    obtain ⟨ihBids, ihAsks⟩ := ih hmore
    constructor
    · rintro ⟨y, hy, hrow⟩
      rcases List.mem_cons.mp hy with rfl | hin
      · rw [DepthLevel.IsRowOf, hbidRows] at hrow
        exact List.append_ne_nil_of_left_ne_nil (readLevels_ne_nil hbids hread hrow.2) _
      · exact List.append_ne_nil_of_right_ne_nil _ (ihBids ⟨y, hin, hrow⟩)
    · rintro ⟨y, hy, hrow⟩
      rcases List.mem_cons.mp hy with rfl | hin
      · rw [DepthLevel.IsRowOf, haskRows] at hrow
        exact List.append_ne_nil_of_left_ne_nil (readLevels_ne_nil hasks hread hrow.2) _
      · exact List.append_ne_nil_of_right_ne_nil _ (ihAsks ⟨y, hin, hrow⟩)

/-! ## Levels at the best prices -/

section Top

open DepthEngine

variable [DecidableEq V]

/-- The prices that are aggregated are those of the levels. -/
theorem contains_priceMap_iff (levels : List (DepthLevel V)) (p : V) :
    (priceMap F levels).contains p = true ↔ ∃ l ∈ levels, l.price = p := by
  induction levels using List.reverseRecOn with
  | nil => simp [priceMap]
  | append_singleton levels l ih =>
    have hstep : ∃ v, priceMap F (levels ++ [l]) = (priceMap F levels).set l.price v := by
      unfold priceMap
      rw [List.foldl_concat]
      exact ⟨_, rfl⟩
    obtain ⟨v, hv⟩ := hstep
    rw [hv, Dict.contains_set, Bool.or_eq_true, decide_eq_true_eq, ih]
    simp only [List.mem_append, List.mem_singleton, or_and_right, exists_or, exists_eq_left]
    exact or_comm.trans (or_congr_right eq_comm)

omit [DecidableEq V] in
theorem prices_cumulate (size notional : V) (rungs : List (V × V × Dict String V × Nat)) :
    (cumulate F size notional rungs).map (·.price) = rungs.map (·.1) := by
  induction rungs generalizing size notional with
  | nil => rfl
  | cons rung rungs ih =>
    obtain ⟨price, total, venues, count⟩ := rung
    rw [cumulate, List.map_cons, ih]
    rfl

theorem mem_prices_aggregate_iff (isDescending : Bool) (levels : List (DepthLevel V)) (p : V) :
    p ∈ (aggregateLevels F isDescending levels).map (·.price) ↔ ∃ l ∈ levels, l.price = p := by
  rw [aggregateLevels, prices_cumulate, ((List.perm_insertionSort _ _).map _).mem_iff, ← contains_priceMap_iff (F := F)]
  constructor
  · intro h
    obtain ⟨kv, hkv, rfl⟩ := List.mem_map.mp h
    exact Dict.contains_of_mem hkv
  · intro h
    obtain ⟨v, hv⟩ := Dict.contains_eq_true_iff.mp h
    exact List.mem_map_of_mem (Dict.mem_of_get? hv)

theorem mem_topLevels {maxLevels : Nat} {isDescending : Bool} {levels : List (DepthLevel V)} {l : DepthLevel V}
    (h : l ∈ (topLevels F maxLevels isDescending levels).2) : l ∈ levels := by
  unfold topLevels sortLevels at h
  exact List.mem_of_mem_filter ((List.perm_insertionSort _ _).mem_iff.mp h)

/-- There are levels at the best prices unless none is asked for or there is none. -/
theorem topLevels_ne_nil_iff {maxLevels : Nat} {isDescending : Bool} {levels : List (DepthLevel V)} :
    (topLevels F maxLevels isDescending levels).1 ≠ [] ↔ maxLevels ≠ 0 ∧ levels ≠ [] := by
  have hempty : aggregateLevels F isDescending levels = [] ↔ levels = [] := by
    constructor
    · intro h
      rcases levels with _ | ⟨l, levels⟩
      · rfl
      · have hmem := (mem_prices_aggregate_iff (F := F) isDescending (l :: levels) l.price).mpr ⟨l, List.mem_cons_self, rfl⟩
        rw [h] at hmem
        cases hmem
    · rintro rfl
      rfl
  unfold topLevels
  rw [Ne, List.take_eq_nil_iff, hempty, not_or]

theorem topLevels_levels_ne_nil {maxLevels : Nat} {isDescending : Bool} {levels : List (DepthLevel V)}
    (h : (topLevels F maxLevels isDescending levels).1 ≠ []) : (topLevels F maxLevels isDescending levels).2 ≠ [] := by
  unfold topLevels at h ⊢
  dsimp only at h ⊢
  obtain ⟨rung, hrung⟩ := List.exists_mem_of_ne_nil _ h
  obtain ⟨l, hl, hprice⟩ := (mem_prices_aggregate_iff isDescending levels rung.price).mp
    (List.mem_map_of_mem (List.mem_of_mem_take hrung))
  have hmem : l ∈ sortLevels F isDescending (levels.filter (fun l =>
      l.price ∈ ((aggregateLevels F isDescending levels).take maxLevels).map (·.price))) := by
    unfold sortLevels
    rw [(List.perm_insertionSort _ _).mem_iff, List.mem_filter, decide_eq_true_eq, hprice]
    exact ⟨hl, List.mem_map_of_mem hrung⟩
  exact List.ne_nil_of_mem hmem

/-- A ladder that is returned has the best levels of both sides, which were read. -/
theorem mergeBooks_ladder {inst : String} {time : V} {books : Dict String (VenueBook V)} {e : DepthEngine V}
    {l : ConsolidatedLadder V} (h : (e.mergeBooks F inst time books).1 = .ladder l) :
    ∃ n allBids allAsks, (∀ b ∈ allBids, b.IsRead F) ∧ (∀ a ∈ allAsks, a.IsRead F) ∧ l.bids = (topLevels F n true allBids).2 ∧
      l.asks = (topLevels F n false allAsks).2 ∧ l.bids ≠ [] ∧ l.asks ≠ [] := by
  unfold mergeBooks at h
  rcases hlevels : allLevels F books.items with _ | ⟨allBids, allAsks⟩
  · rw [hlevels] at h
    cases h
  · rw [hlevels] at h
    dsimp only at h
    obtain ⟨hbids, hasks⟩ := allLevels_sound hlevels
    split at h
    · cases h
    · have hneBids : (topLevels F e.maxLevelsPerSide true allBids).1 ≠ [] → (topLevels F e.maxLevelsPerSide true allBids).2 ≠ [] :=
        topLevels_levels_ne_nil
      have hneAsks : (topLevels F e.maxLevelsPerSide false allAsks).1 ≠ [] →
          (topLevels F e.maxLevelsPerSide false allAsks).2 ≠ [] := topLevels_levels_ne_nil
      refine ⟨e.maxLevelsPerSide, allBids, allAsks, fun b hb => (hbids b hb).1, fun a ha => (hasks a ha).1, ?_⟩
      unfold storeLadder at h
      generalize topLevels F e.maxLevelsPerSide true allBids = topBids at h hneBids ⊢
      generalize topLevels F e.maxLevelsPerSide false allAsks = topAsks at h hneAsks ⊢
      rcases topBids with ⟨_ | ⟨bestBid, aggBids⟩, bids⟩
      · cases h
      · rcases topAsks with ⟨_ | ⟨bestAsk, aggAsks⟩, asks⟩
        · cases h
        · cases h
          exact ⟨rfl, rfl, hneBids (List.cons_ne_nil _ _), hneAsks (List.cons_ne_nil _ _)⟩

theorem observe_ladder {upper : String → String} {event : DepthInput V} {active : Bool} {stillActive : String → Bool}
    {e : DepthEngine V} {l : ConsolidatedLadder V} (h : (e.observe F upper event active stillActive).1 = .ladder l) :
    ∃ n allBids allAsks, (∀ b ∈ allBids, b.IsRead F) ∧ (∀ a ∈ allAsks, a.IsRead F) ∧ l.bids = (topLevels F n true allBids).2 ∧
      l.asks = (topLevels F n false allAsks).2 ∧ l.bids ≠ [] ∧ l.asks ≠ [] := by
  unfold DepthEngine.observe at h
  split at h
  · cases h
  · dsimp only at h
    split at h
    · cases h
    · split at h
      · exact mergeBooks_ladder h
      · cases h

end Top

end Mdrap
