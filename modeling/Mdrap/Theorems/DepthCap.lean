import Mathlib.Algebra.Order.Field.Rat
import Mdrap.Book.Depth
import Mdrap.Lib.Runs

/-!
# How many ladders there are

Room is made before a ladder is stored, for one ladder at most. The instrument that goes is the one that was seen longest ago, whether
it has a ladder or not: where it has none, nothing is gained, and the next new ladder is one too many.
-/

namespace Mdrap

open Lib

variable {V : Type} [DecidableEq V] (F : Floats V)

namespace DepthEngine

variable {e : DepthEngine V} {u : BookUpdate V}

/-- The books that an event leaves of its instrument. -/
def booksAfter (e : DepthEngine V) (u : BookUpdate V) (stillActive : String → Bool) : Dict String (VenueBook V) :=
  liveBooks F e.depthTtlS u.time stillActive (takeBook F u ((e.venueBooks.get? u.instrument).getD .empty))

/-- There are levels on both sides of some books. -/
def TwoSided (maxLevels : Nat) (books : Dict String (VenueBook V)) : Prop :=
  ∃ allBids allAsks, allLevels F books.items = some (allBids, allAsks) ∧
    (topLevels F maxLevels true allBids).1 ≠ [] ∧ (topLevels F maxLevels false allAsks).1 ≠ []

/-- If there is a ladder too many already, then the instrument that was seen longest ago has one, the one of the event being seen now,
or the instrument of the event has one, or its books are not two-sided. -/
def HasRoom (e : DepthEngine V) (u : BookUpdate V) (stillActive : String → Bool) : Prop :=
  e.maxInstruments < e.currentLadders.size →
    (∃ x ∈ (byAge F { e with lastSeen := e.lastSeen.set u.instrument u.time }).head?, e.currentLadders.contains x.1) ∨
      e.currentLadders.contains u.instrument ∨ ¬TwoSided F e.maxLevelsPerSide (e.booksAfter F u stillActive)

omit [DecidableEq V] in
theorem size_erase_of_none {d : Dict String (ConsolidatedLadder V)} {k : String} (h : d.contains k = false) :
    (d.erase k).size = d.size := by
  have hnone : d.get? k = none := by
    rwa [Dict.contains, Option.isSome_eq_false_iff, Option.isNone_iff_eq_none] at h
  have hall : d.items.filter (fun kv => kv.1 ≠ k) = d.items := by
    refine List.filter_eq_self.mpr (fun kv hkv => decide_eq_true ?_)
    rintro rfl
    exact Dict.get?_eq_none_iff.mp hnone (List.mem_map_of_mem hkv)
  rw [Dict.size, Dict.erase, hall, Dict.size]

/-- A ladder is stored for two-sided books only, and nothing else changes the ladders then. -/
theorem mergeBooks_ladders (inst : String) (time : V) (books : Dict String (VenueBook V)) (e : DepthEngine V) :
    (TwoSided F e.maxLevelsPerSide books ∧ ∃ ladder, (e.mergeBooks F inst time books).2.currentLadders = e.currentLadders.set inst ladder) ∨
      (¬TwoSided F e.maxLevelsPerSide books ∧ (e.mergeBooks F inst time books).2.currentLadders = e.currentLadders) := by
  unfold mergeBooks
  rcases hlevels : allLevels F books.items with _ | ⟨allBids, allAsks⟩
  · refine .inr ⟨?_, rfl⟩
    rintro ⟨bids, asks, hsome, -⟩
    rw [hlevels] at hsome
    cases hsome
  · have hiff : TwoSided F e.maxLevelsPerSide books ↔
        (topLevels F e.maxLevelsPerSide true allBids).1 ≠ [] ∧ (topLevels F e.maxLevelsPerSide false allAsks).1 ≠ [] := by
      constructor
      · rintro ⟨bids, asks, hsome, h⟩
        rw [hlevels] at hsome
        cases hsome
        exact h
      · intro h
        exact ⟨allBids, allAsks, hlevels, h⟩
    rw [hiff]
    dsimp only
    split
    · rename_i hnone
      refine .inr ⟨?_, rfl⟩
      rintro ⟨hbids, hasks⟩
      rcases hnone with rfl | rfl
      · exact hbids (List.take_nil ..)
      · exact hasks (List.take_nil ..)
    · unfold storeLadder
      rcases topLevels F e.maxLevelsPerSide true allBids with ⟨_ | ⟨bestBid, aggBids⟩, bids⟩
      · exact .inr ⟨fun h => h.1 rfl, rfl⟩
      · rcases topLevels F e.maxLevelsPerSide false allAsks with ⟨_ | ⟨bestAsk, aggAsks⟩, asks⟩
        · exact .inr ⟨fun h => h.2 rfl, rfl⟩
        · exact .inl ⟨⟨List.cons_ne_nil bestBid aggBids, List.cons_ne_nil bestAsk aggAsks⟩, _, rfl⟩

theorem mergeBooks_max (inst : String) (time : V) (books : Dict String (VenueBook V)) (e : DepthEngine V) :
    (e.mergeBooks F inst time books).2.maxInstruments = e.maxInstruments := by
  unfold mergeBooks
  split
  · rfl
  · split
    · rfl
    · unfold storeLadder
      rcases topLevels F e.maxLevelsPerSide true _ with ⟨_ | ⟨bestBid, aggBids⟩, bids⟩
      · rfl
      · rcases topLevels F e.maxLevelsPerSide false _ with ⟨_ | ⟨bestAsk, aggAsks⟩, asks⟩ <;> rfl

omit [DecidableEq V] in
theorem byAge_ne_nil (e : DepthEngine V) (k : String) (t : V) : byAge F { e with lastSeen := e.lastSeen.set k t } ≠ [] := by
  intro hnil
  have hmem := Dict.mem_of_get? (Dict.get?_set_self e.lastSeen k t)
  have hsorted := (List.perm_insertionSort (fun a b : String × V => F.lt b.2 a.2 = false) (e.lastSeen.set k t).items).mem_iff.mpr hmem
  rw [byAge] at hnil
  rw [hnil] at hsorted
  cases hsorted

omit [DecidableEq V] in
/-- With one ladder too many, the instrument that was seen longest ago is dropped. -/
theorem evictStale_ladders (h : e.currentLadders.size ≤ e.maxInstruments + 1) {oldest : String × V}
    (holdest : (e.byAge F).head? = some oldest) :
    ((e.evictStale F).maxInstruments, (e.evictStale F).maxLevelsPerSide, (e.evictStale F).depthTtlS) =
        (e.maxInstruments, e.maxLevelsPerSide, e.depthTtlS) ∧
      (e.evictStale F).currentLadders =
        if e.currentLadders.size ≤ e.maxInstruments then e.currentLadders else e.currentLadders.erase oldest.1 := by
  unfold evictStale
  split
  · exact ⟨rfl, rfl⟩
  · have hone : e.currentLadders.size - e.maxInstruments = 1 := by omega
    obtain ⟨rest, hrest⟩ : ∃ rest, e.byAge F = oldest :: rest := by
      rcases hage : e.byAge F with _ | ⟨x, rest⟩
      · rw [hage] at holdest
        cases holdest
      · rw [hage] at holdest
        cases holdest
        exact ⟨rest, rfl⟩
    rw [hone, hrest]
    exact ⟨rfl, rfl⟩

omit [DecidableEq V] in
/-- Ladders of which one is dropped when there is one too many, and to which one may be added. -/
theorem size_iff {d d' : Dict String (ConsolidatedLadder V)} (hd : d.Distinct) {n : Nat} (h : d.size ≤ n + 1) {oldest inst : String}
    {stored : Prop} (hd' : (stored ∧ ∃ ladder, d' = (if d.size ≤ n then d else d.erase oldest).set inst ladder) ∨
      (¬stored ∧ d' = if d.size ≤ n then d else d.erase oldest)) :
    d'.size ≤ n + 1 ↔ (n < d.size → d.contains oldest = true ∨ d.contains inst = true ∨ ¬stored) := by
  by_cases hroom : d.size ≤ n
  · rw [if_pos hroom] at hd'
    refine iff_of_true ?_ (fun hfull => absurd hroom (by omega))
    rcases hd' with ⟨-, ladder, rfl⟩ | ⟨-, rfl⟩
    · have := d.size_set_le inst ladder
      omega
    · exact h
  · rw [if_neg hroom] at hd'
    rw [forall_prop_of_true (by omega : n < d.size)]
    rcases hold : d.contains oldest with _ | _
    · -- nothing was dropped
      have hsame := size_erase_of_none hold
      have hinst : (d.erase oldest).contains inst = d.contains inst := by
        rw [Dict.contains_erase]
        by_cases heq : inst = oldest
        · rw [heq, hold]
          simp
        · simp [heq]
      rcases hd' with ⟨hstored, ladder, rfl⟩ | ⟨hstored, rfl⟩
      · rcases hthere : d.contains inst with _ | _
        · rw [hthere] at hinst
          have hnone : (d.erase oldest).get? inst = none := by
            rwa [Dict.contains, Option.isSome_eq_false_iff, Option.isNone_iff_eq_none] at hinst
          rw [Dict.size_set_of_none hnone, hsame]
          exact iff_of_false (by omega) (by simpa using hstored)
        · rw [hthere] at hinst
          obtain ⟨w, hw⟩ := Dict.contains_eq_true_iff.mp hinst
          rw [(hd.erase oldest).size_set_of_some hw, hsame]
          exact iff_of_true h (.inr (.inl rfl))
      · rw [hsame]
        exact iff_of_true h (.inr (.inr hstored))
    · have hless := Dict.size_erase_lt hold
      refine iff_of_true ?_ (.inl rfl)
      rcases hd' with ⟨-, ladder, rfl⟩ | ⟨-, rfl⟩
      · have := (d.erase oldest).size_set_le inst ladder
        omega
      · omega

/-- After an event, there is one ladder too many at most exactly when there was room for it. -/
theorem update_cap_iff (hd : e.currentLadders.Distinct) (h : e.currentLadders.size ≤ e.maxInstruments + 1)
    (stillActive : String → Bool) :
    (e.update F u stillActive).2.currentLadders.Distinct ∧ (e.update F u stillActive).2.maxInstruments = e.maxInstruments ∧
      ((e.update F u stillActive).2.currentLadders.size ≤ e.maxInstruments + 1 ↔ e.HasRoom F u stillActive) := by
  obtain ⟨oldest, rest, hage⟩ := List.exists_cons_of_ne_nil (byAge_ne_nil F e u.instrument u.time)
  have hhead : (byAge F { e with lastSeen := e.lastSeen.set u.instrument u.time }).head? = some oldest := by
    rw [hage]
    rfl
  unfold update HasRoom
  dsimp only
  rw [hhead]
  simp only [Option.mem_some_iff, exists_eq_left']
  have hnoted := evictStale_ladders F (e := { e with
    venueBooks := e.venueBooks.set u.instrument (takeBook F u ((e.venueBooks.get? u.instrument).getD .empty))
    lastSeen := e.lastSeen.set u.instrument u.time }) h hhead
  generalize evictStale F _ = e₂ at hnoted ⊢
  obtain ⟨hsame, hladders⟩ := hnoted
  simp only [Prod.mk.injEq] at hsame
  obtain ⟨hmax, hlevels, httl⟩ := hsame
  have hbooks : liveBooks F e₂.depthTtlS u.time stillActive (takeBook F u ((e.venueBooks.get? u.instrument).getD .empty)) =
      e.booksAfter F u stillActive := by
    rw [booksAfter, httl]
  rw [hbooks]
  have hkept : ∀ e₃ : DepthEngine V, e₃ = (if e₂.venueBooks.contains u.instrument = true then
      { e₂ with venueBooks := e₂.venueBooks.set u.instrument (e.booksAfter F u stillActive) } else e₂) →
      e₃.currentLadders = e₂.currentLadders ∧ e₃.maxInstruments = e.maxInstruments ∧ e₃.maxLevelsPerSide = e.maxLevelsPerSide := by
    intro e₃ he₃
    subst he₃
    split
    · exact ⟨rfl, hmax, hlevels⟩
    · exact ⟨rfl, hmax, hlevels⟩
  generalize hthird : (if e₂.venueBooks.contains u.instrument = true then
      { e₂ with venueBooks := e₂.venueBooks.set u.instrument (e.booksAfter F u stillActive) } else e₂) = e₃
  obtain ⟨hladders₃, hmax₃, hlevels₃⟩ := hkept e₃ hthird.symm
  have hmerge := mergeBooks_ladders F u.instrument u.time (e.booksAfter F u stillActive) e₃
  rw [hlevels₃, hladders₃, hladders] at hmerge
  refine ⟨?_, (mergeBooks_max F ..).trans hmax₃, ?_⟩
  · have hdistinct : (if e.currentLadders.size ≤ e.maxInstruments then e.currentLadders
        else e.currentLadders.erase oldest.1).Distinct := by
      split
      · exact hd
      · exact hd.erase _
    rcases hmerge with ⟨-, ladder, hset⟩ | ⟨-, hset⟩
    · rw [hset]
      exact hdistinct.set _ _
    · rw [hset]
      exact hdistinct
  · exact size_iff hd h hmerge

omit [DecidableEq V] in
theorem observeTrade_same (upper : String → String) (inst : String) (t : DepthTrade V) (e : DepthEngine V) :
    ∃ cvd, e.observeTrade F upper inst t = { e with cumCvd := cvd } := ⟨_, rfl⟩

/-- What an event says of a book, if the engine gets that far. -/
def updateOf (upper : String → String) (c : DepthCall V) : Option (BookUpdate V) :=
  match readEvent F upper c.event with
  | some (_, _, some u) => if c.active then some u else none
  | _ => none

/-- There is room for the ladder of an event, if it comes to one. -/
def Fits (upper : String → String) (e : DepthEngine V) (c : DepthCall V) : Prop :=
  ∀ u ∈ updateOf F upper c, e.HasRoom F u c.stillActive

/-- One call. -/
def step (upper : String → String) (e : DepthEngine V) (c : DepthCall V) : DepthEngine V :=
  (e.observe F upper c.event c.active c.stillActive).2

/-- A call takes a trade in, and what it says of a book, if it does. -/
theorem step_eq (upper : String → String) (e : DepthEngine V) (c : DepthCall V) :
    ∃ cvd, e.step F upper c = (updateOf F upper c).elim { e with cumCvd := cvd }
      (fun u => (({ e with cumCvd := cvd } : DepthEngine V).update F u c.stillActive).2) := by
  unfold step observe updateOf
  rcases readEvent F upper c.event with _ | ⟨inst, trade, _ | u⟩
  · exact ⟨e.cumCvd, rfl⟩
  · rcases trade with _ | t
    · exact ⟨e.cumCvd, rfl⟩
    · exact ⟨_, rfl⟩
  · have htrade : ∃ cvd, trade.elim e (fun t => e.observeTrade F upper inst t) = { e with cumCvd := cvd } := by
      rcases trade with _ | t
      · exact ⟨e.cumCvd, rfl⟩
      · exact observeTrade_same F upper inst t e
    obtain ⟨cvd, hcvd⟩ := htrade
    refine ⟨cvd, ?_⟩
    dsimp only
    rw [hcvd]
    split <;> rfl

theorem step_cap_iff (upper : String → String) (hd : e.currentLadders.Distinct) (h : e.currentLadders.size ≤ e.maxInstruments + 1)
    (c : DepthCall V) : (e.step F upper c).currentLadders.Distinct ∧ (e.step F upper c).maxInstruments = e.maxInstruments ∧
      ((e.step F upper c).currentLadders.size ≤ e.maxInstruments + 1 ↔ e.Fits F upper c) := by
  obtain ⟨cvd, hstep⟩ := step_eq F upper e c
  rw [hstep, Fits]
  rcases updateOf F upper c with _ | u
  · exact ⟨hd, rfl, iff_of_true h nofun⟩
  · obtain ⟨hdistinct, hmax, hiff⟩ := update_cap_iff F (e := { e with cumCvd := cvd }) (u := u) hd h c.stillActive
    refine ⟨hdistinct, hmax, hiff.trans ⟨?_, fun hall => hall u rfl⟩⟩
    rintro hroom u' hu'
    cases hu'
    exact hroom

end DepthEngine

/-- After every call there is one ladder more than instruments allowed at most, exactly when every event finds room for its ladder. -/
theorem depth_cap (upper : String → String) (depthTtlS : V) (maxLevelsPerSide maxInstruments : Nat) (cs : List (DepthCall V)) :
    let e := DepthEngine.new depthTtlS maxLevelsPerSide maxInstruments
    (∀ ds, ds <+: cs → (runFrom (DepthEngine.step F upper) e ds).currentLadders.size ≤ maxInstruments + 1) ↔
      Along (DepthEngine.step F upper) (DepthEngine.Fits F upper) e cs := by
  intro e
  refine Along.iff_prefixes (J := fun (e : DepthEngine V) => e.currentLadders.Distinct ∧ e.maxInstruments = maxInstruments)
    (I := fun (e : DepthEngine V) => e.currentLadders.size ≤ maxInstruments + 1) ?_ ?_ ⟨Dict.distinct_empty, rfl⟩ (Nat.zero_le _) cs
  · rintro e c ⟨hd, hmax⟩ h
    obtain ⟨hd', hmax', -⟩ := DepthEngine.step_cap_iff F upper hd (hmax ▸ h) c
    exact ⟨hd', hmax'.trans hmax⟩
  · rintro e c ⟨hd, hmax⟩ h
    subst hmax
    exact (DepthEngine.step_cap_iff F upper hd h c).2.2

/-- Exact numbers for the tests. -/
def depthFloats : Floats (Option ℚ) := .exact id (fun _ => 0)

/-- A quote of feed A at a time. -/
def depthQuoteAt (time : ℚ) (instrument : String) (askPrice : Option ℚ) : DepthCall (Option ℚ) :=
  ⟨.canonical ⟨instrument, some .quote, some time, "A", none, none, some (some 100), some (some 1), askPrice.map some,
    askPrice.map (fun _ => some 1), .valid⟩, true, fun _ => true⟩

/-- The instrument that is seen first has no offer, so that it never has a ladder. -/
def firstOneSided : List (DepthCall (Option ℚ)) :=
  [depthQuoteAt 1 "C" none, depthQuoteAt 2 "A" (some 101), depthQuoteAt 3 "B" (some 101), depthQuoteAt 4 "D" (some 101)]

/-- With one instrument allowed there are three ladders in the end. -/
theorem depth_cap_false :
    (runFrom (DepthEngine.step depthFloats id) (.new (some 10) 20 1) firstOneSided).currentLadders.size = 3 := by
  decide +kernel

end Mdrap
