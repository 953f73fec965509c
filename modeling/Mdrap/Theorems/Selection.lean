import Mathlib.Algebra.BigOperators.Group.List.Basic
import Mathlib.Algebra.Order.Field.Rat
import Mathlib.Data.List.GetD
import Mathlib.Data.List.Sort
import Mathlib.Tactic.Linarith
import Mathlib.Tactic.Ring
import Mdrap.Pipeline.Strategy

/-!
# What a strategy selects

Of the candidates that are recent, not blocked and priced, one strategy selects a most reliable one and the other one whose price is
nearest to the median. Neither finds a disagreement around a reference price that is not positive.
-/

namespace Mdrap.CrossFeed

open Lib

variable {K : Type} [Field K] [LinearOrder K]

/-! ## What is asked of a strategy -/

namespace SelectArgs

variable (a : SelectArgs K)

/-- The candidates that are compared, in the order of the map. -/
def usable : List (Item K) := a.candidates.items.filterMap a.item?

/-- A most reliable one, and the first one of these by name where every source has a name. -/
def MostReliable (it : Item K) : Prop :=
  (∀ it' ∈ a.usable, a.scoreOf it'.source ≤ a.scoreOf it.source) ∧
    ((∀ it' ∈ a.usable, it'.source ≠ "") →
      ∀ it' ∈ a.usable, a.scoreOf it'.source = a.scoreOf it.source → it.source ≤ it'.source)

/-- One whose price is nearest to a reference price. -/
def Nearest (reference : K) (it : Item K) : Prop := ∀ it' ∈ a.usable, |it.price - reference| ≤ |it'.price - reference|

/-- A price deviates from a reference price by more than the threshold allows. -/
def Deviates (reference : K) : Prop := ∃ it ∈ a.usable, a.disagreementThreshold * |reference| < |it.price - reference|

instance (reference : K) : Decidable (a.Deviates reference) :=
  inferInstanceAs (Decidable (∃ it ∈ a.usable, a.disagreementThreshold * |reference| < |it.price - reference|))

/-- A decision is for one of the best, and finds a disagreement around a positive reference price only. -/
structure Selects (reference : K) (Best : Item K → Prop) (d : Decision K) : Prop where
  chosen : ∃ it ∈ a.usable, Best it ∧ d.chosenSource = it.source ∧ d.chosenEventId = it.event.eventId
  disagreement : d.disagreement = true ↔ 0 < reference ∧ a.Deviates reference

end SelectArgs

/-- The mean of some prices. -/
def mean (prices : List K) : K := prices.sum / prices.length

/-- The one in the middle of a list, or the mean of the two in the middle. -/
def inMiddle (prices : List K) : K :=
  let mid := prices.length / 2
  if prices.length % 2 = 1 then prices.getD mid 0 else (prices.getD (mid - 1) 0 + prices.getD mid 0) / (2 : Nat)

/-- The median of some prices. -/
def median (prices : List K) : K := inMiddle (sortBy id prices)

/-! ## What is compared -/

section Items

variable {a : SelectArgs K}

theorem mem_usable_iff (hd : a.candidates.Distinct) {it : Item K} :
    it ∈ a.usable ↔ a.candidates.get? it.source = some (it.event, it.timestamp) ∧ it.event.price = some it.price ∧
      it.source ∉ a.blocked ∧ ¬a.isOld it.timestamp := by
  unfold SelectArgs.usable SelectArgs.item?
  rw [List.mem_filterMap]
  constructor
  · rintro ⟨⟨src, event, ts⟩, hmem, hitem⟩
    split at hitem
    · cases hitem
    · rename_i hkept
      obtain ⟨p, hp, rfl⟩ := Option.map_eq_some_iff.mp hitem
      exact ⟨hd.get?_of_mem hmem, hp, fun h => hkept (.inr h), fun h => hkept (.inl h)⟩
  · rintro ⟨hget, hprice, hblocked, hold⟩
    refine ⟨(it.source, it.event, it.timestamp), Dict.mem_of_get? hget, ?_⟩
    rw [if_neg (not_or.mpr ⟨hold, hblocked⟩), hprice]
    rfl

theorem items_perm (a : SelectArgs K) : a.items.Perm a.usable := (sortBy_perm _).filterMap a.item?

theorem mem_items {it : Item K} : it ∈ a.items ↔ it ∈ a.usable := (items_perm a).mem_iff

theorem length_items (a : SelectArgs K) : a.items.length = a.usable.length := (items_perm a).length_eq

/-- The order of the map does not matter. -/
theorem items_of_perm (hd : a.candidates.Distinct) {items : List (String × Event K × K)} (h : items.Perm a.candidates.items) :
    ({ a with candidates := ⟨items⟩ } : SelectArgs K).items = a.items := by
  have hnodup : (items.map (·.1)).Nodup := (h.map _).nodup_iff.mpr hd
  have hsort : sortBy (fun kv => kv.1) items = sortBy (fun kv => kv.1) a.candidates.items :=
    sortBy_eq_of_perm h (fun x hx y hy => List.inj_on_of_nodup_map hnodup hx hy)
  unfold SelectArgs.items
  rw [hsort]
  rfl

theorem disagrees_iff [IsStrictOrderedRing K] {items : List (Item K)} (h : items.Perm a.usable) (reference : K) :
    a.disagrees (items.map (·.price)) reference = true ↔ 0 < reference ∧ a.Deviates reference := by
  unfold SelectArgs.disagrees SelectArgs.Deviates
  rw [decide_eq_true_eq]
  refine and_congr_right (fun hpos => ?_)
  simp only [List.mem_map, exists_exists_and_eq_and, abs_of_pos hpos, lt_div_iff₀ hpos, h.mem_iff]

end Items

/-! ## The most reliable one -/

namespace HighestReliabilityStrategy

/-- What the loop has found among the items so far. -/
structure Finds (a : SelectArgs K) (items : List (Item K)) (best : Best K) : Prop where
  total : best.totalPrice = (items.map (·.price)).sum
  pick : (best.chosenEvent = none ∧ best.chosenSource = "" ∧ best.bestScore = -1 ∧ ∀ it ∈ items, a.scoreOf it.source < -1) ∨
    ∃ it ∈ items, best.chosenEvent = some it.event ∧ best.chosenSource = it.source ∧ best.bestScore = a.scoreOf it.source ∧
      -1 ≤ a.scoreOf it.source ∧ (∀ it' ∈ items, a.scoreOf it'.source ≤ a.scoreOf it.source) ∧
      ((∀ it' ∈ items, it'.source ≠ "") →
        ∀ it' ∈ items, a.scoreOf it'.source = a.scoreOf it.source → it.source ≤ it'.source)

/-- An item is better than what was found so far. -/
def Beats (a : SelectArgs K) (best : Best K) (it : Item K) : Prop :=
  best.bestScore < a.scoreOf it.source ∨
    (a.scoreOf it.source = best.bestScore ∧ (best.chosenSource = "" ∨ it.source < best.chosenSource))

section Consider

variable {a : SelectArgs K} {items : List (Item K)} {best : Best K} {it : Item K}

theorem consider_of_beats (h : Beats a best it) :
    consider a best it = ⟨it.source, some it.event, a.scoreOf it.source, best.totalPrice + it.price⟩ := by
  unfold Beats at h
  simp only [consider, if_pos h]

theorem consider_of_not_beats (h : ¬Beats a best it) :
    consider a best it = ⟨best.chosenSource, best.chosenEvent, best.bestScore, best.totalPrice + it.price⟩ := by
  unfold Beats at h
  simp only [consider, if_neg h]

omit [LinearOrder K] in
theorem sum_prices_append (items : List (Item K)) (it : Item K) :
    ((items ++ [it]).map (·.price)).sum = (items.map (·.price)).sum + it.price := by
  rw [List.map_append, List.sum_append, List.map_singleton, List.sum_singleton]

omit [Field K] [LinearOrder K] in
theorem forall_mem_append_singleton {P : Item K → Prop} : (∀ x ∈ items ++ [it], P x) ↔ (∀ x ∈ items, P x) ∧ P it := by
  simp only [List.mem_append, List.mem_singleton, or_imp, forall_and, forall_eq]

/-- The new item is found. -/
theorem Finds.of_beats (h : Finds a items best) (hbeats : Beats a best it) (hlow : -1 ≤ a.scoreOf it.source)
    (hmax : ∀ it' ∈ items, a.scoreOf it'.source ≤ a.scoreOf it.source)
    (hleast : (∀ it' ∈ items, it'.source ≠ "") →
      ∀ it' ∈ items, a.scoreOf it'.source = a.scoreOf it.source → it.source ≤ it'.source) :
    Finds a (items ++ [it]) (consider a best it) := by
  rw [consider_of_beats hbeats]
  refine ⟨?_, .inr ⟨it, List.mem_append_right _ List.mem_cons_self, rfl, rfl, rfl, hlow, ?_, ?_⟩⟩
  · rw [sum_prices_append, ← h.total]
  · exact forall_mem_append_singleton.mpr ⟨hmax, le_refl _⟩
  · intro hnamed
    exact forall_mem_append_singleton.mpr
      ⟨hleast (forall_mem_append_singleton.mp hnamed).1, fun _ => le_refl _⟩

theorem Finds.consider (h : Finds a items best) (new : Item K) : Finds a (items ++ [new]) (consider a best new) := by
  rcases h.pick with ⟨hevent, hsource, hscore, hall⟩ | ⟨it, hit, hevent, hsource, hscore, hlow, hmax, hleast⟩
  · by_cases hlow : -1 ≤ a.scoreOf new.source
    · have hbeats : Beats a best new := by
        unfold Beats
        rw [hscore, hsource]
        exact hlow.lt_or_eq.imp_right (fun heq => ⟨heq.symm, .inl rfl⟩)
      refine h.of_beats hbeats hlow (fun it' hit' => (hall it' hit').le.trans hlow) ?_
      intro _ it' hit' heq
      exact absurd (heq ▸ hall it' hit') (not_lt.mpr hlow)
    · have hworse : ¬Beats a best new := by
        unfold Beats
        rw [hscore]
        rintro (hlt | ⟨heq, -⟩)
        · exact hlow hlt.le
        · exact hlow heq.ge
      rw [consider_of_not_beats hworse]
      refine ⟨?_, .inl ⟨hevent, hsource, hscore, forall_mem_append_singleton.mpr ⟨hall, not_le.mp hlow⟩⟩⟩
      rw [sum_prices_append, ← h.total]
  · by_cases hbeats : Beats a best new
    · have hcases := hbeats
      unfold Beats at hcases
      rw [hscore, hsource] at hcases
      have hge : a.scoreOf it.source ≤ a.scoreOf new.source := hcases.elim le_of_lt (fun hsame => hsame.1.ge)
      refine h.of_beats hbeats (hlow.trans hge) (fun it' hit' => (hmax it' hit').trans hge) ?_
      intro hnamed it' hit' heq
      rcases hcases with hlt | ⟨hsame, hempty | hless⟩
      · exact absurd (heq ▸ hmax it' hit') (not_le.mpr hlt)
      · exact absurd hempty (hnamed it hit)
      · exact hless.le.trans (hleast hnamed it' hit' (heq.trans hsame))
    · rw [consider_of_not_beats hbeats]
      refine ⟨?_, .inr ⟨it, List.mem_append_left _ hit, hevent, hsource, hscore, hlow, ?_, ?_⟩⟩
      · rw [sum_prices_append, ← h.total]
      · refine forall_mem_append_singleton.mpr ⟨hmax, ?_⟩
        exact hscore ▸ not_lt.mp (fun hlt => hbeats (.inl hlt))
      · intro hnamed
        refine forall_mem_append_singleton.mpr ⟨hleast (forall_mem_append_singleton.mp hnamed).1, ?_⟩
        intro heq
        refine not_lt.mp (fun hless => hbeats (.inr ⟨heq.trans hscore.symm, .inr ?_⟩))
        exact hsource ▸ hless

end Consider

theorem finds_considered (a : SelectArgs K) (items : List (Item K)) : Finds a items (considered a items) := by
  induction items using List.reverseRecOn with
  | nil => exact ⟨rfl, .inl ⟨rfl, rfl, rfl, fun it hit => nomatch hit⟩⟩
  | append_singleton items it ih =>
    have hstep : considered a (items ++ [it]) = consider a (considered a items) it := List.foldl_concat ..
    rw [hstep]
    exact ih.consider it

/-- What is selected: nothing where no score is at least -1. -/
theorem select_cases [IsStrictOrderedRing K] (texts : Texts K) (a : SelectArgs K) :
    (select texts a = none ∧ (a.usable.length < 2 ∨ ∀ it ∈ a.usable, a.scoreOf it.source < -1)) ∨
      ∃ d, select texts a = some d ∧ ¬(a.usable.length < 2 ∨ ∀ it ∈ a.usable, a.scoreOf it.source < -1) ∧
        a.Selects (mean (a.usable.map (·.price))) a.MostReliable d := by
  have hfinds := finds_considered a a.items
  have hmean : (considered a a.items).totalPrice / (a.items.length : K) = mean (a.usable.map (·.price)) := by
    rw [mean, hfinds.total, ((items_perm a).map _).sum_eq, List.length_map, length_items]
  unfold select
  dsimp only
  rcases hfinds.pick with ⟨hevent, -, -, hall⟩ | ⟨it, hit, hevent, hsource, -, hlow, hmax, hleast⟩
  · refine .inl ⟨by rw [hevent], .inr ?_⟩
    exact fun it hit => hall it (mem_items.mpr hit)
  · rw [hevent]
    dsimp only
    by_cases hfew : a.items.length < 2
    · exact .inl ⟨if_pos hfew, .inl (length_items a ▸ hfew)⟩
    · refine .inr ⟨_, if_neg hfew, ?_, ⟨⟨it, mem_items.mp hit, ⟨?_, ?_⟩, hsource, rfl⟩, ?_⟩⟩
      · rintro (hless | hall)
        · exact hfew ((length_items a).trans_lt hless)
        · exact absurd (hall it (mem_items.mp hit)) (not_lt.mpr hlow)
      · exact fun it' hit' => hmax it' (mem_items.mpr hit')
      · exact fun hnamed it' hit' =>
          hleast (fun x hx => hnamed x (mem_items.mp hx)) it' (mem_items.mpr hit')
      · rw [← hmean]
        exact disagrees_iff (items_perm a) _

end HighestReliabilityStrategy

/-! ## The one in the middle -/

namespace MedianPriceStrategy

variable {a : SelectArgs K} {items : List (Item K)}

omit [Field K] in
theorem sorted_perm (items : List (Item K)) : (sorted items).Perm items := sortBy_perm _

omit [Field K] in
theorem prices_sorted (items : List (Item K)) : ((sorted items).map (·.price)).Pairwise (· ≤ ·) := by
  have h : SortedBy (fun it : Item K => toLex (it.price, it.source)) (sorted items) := sortBy_sorted items
  exact List.pairwise_map.mpr (List.Pairwise.imp (fun hle => Prod.Lex.monotone_fst _ _ hle) h)

/-- Sorted items have sorted prices. -/
theorem prices_eq (h : items.Perm a.usable) : (sorted items).map (·.price) = sortBy id (a.usable.map (·.price)) := by
  refine List.Perm.eq_of_pairwise (fun _ _ _ _ => le_antisymm) (prices_sorted items) (sortBy_sorted _) ?_
  exact (((sorted_perm items).trans h).map _).trans (sortBy_perm _).symm

/-- Where there are two prices around the middle, no other one is nearer to the point halfway. -/
theorem dist_le [IsStrictOrderedRing K] {l r p : K} (hlr : l ≤ r) (hp : p ≤ l ∨ r ≤ p) :
    |l - (l + r) / 2| = (r - l) / 2 ∧ |r - (l + r) / 2| = (r - l) / 2 ∧ (r - l) / 2 ≤ |p - (l + r) / 2| := by
  have hl : l - (l + r) / 2 = -((r - l) / 2) := by ring
  have hr : r - (l + r) / 2 = (r - l) / 2 := by ring
  have hhalf : 0 ≤ (r - l) / 2 := by linarith
  refine ⟨by rw [hl, abs_neg, abs_of_nonneg hhalf], by rw [hr, abs_of_nonneg hhalf], ?_⟩
  rcases hp with hp | hp
  · exact le_trans (by linarith) (neg_le_abs _)
  · exact le_trans (by linarith) (le_abs_self _)

/-- The item in the middle, and the price that is the median. -/
theorem middle_spec [IsStrictOrderedRing K] (h : 2 ≤ items.length) (hsorted : (items.map (·.price)).Pairwise (· ≤ ·)) :
    ∃ it ∈ items, middle a items = some (inMiddle (items.map (·.price)), it) ∧
      ∀ it' ∈ items, |it.price - inMiddle (items.map (·.price))| ≤ |it'.price - inMiddle (items.map (·.price))| := by
  have hmid : items.length / 2 < items.length := by omega
  have hbefore : items.length / 2 - 1 < items.length := by omega
  have hprice : ∀ {i : Nat} (hi : i < items.length), (items.map (·.price)).getD i 0 = items[i].price := by
    intro i hi
    rw [List.getD_eq_getElem _ _ (by rwa [List.length_map]), List.getElem_map]
  have hle : ∀ {i j : Nat} (hi : i < items.length) (hj : j < items.length), i ≤ j → items[i].price ≤ items[j].price := by
    intro i j hi hj hij
    rcases hij.lt_or_eq with hlt | rfl
    · exact List.pairwise_iff_getElem.mp (List.pairwise_map.mp hsorted) i j hi hj hlt
    · exact le_refl _
  unfold middle inMiddle
  rw [Nat.cast_ofNat]
  dsimp only
  rw [List.getElem?_eq_getElem hbefore, List.getElem?_eq_getElem hmid, List.length_map, hprice hmid, hprice hbefore]
  dsimp only
  by_cases hodd : items.length % 2 = 1
  · rw [if_pos hodd, if_pos hodd]
    refine ⟨items[items.length / 2], List.getElem_mem hmid, rfl, ?_⟩
    intro it' _
    rw [sub_self, abs_zero]
    exact abs_nonneg _
  · rw [if_neg hodd, if_neg hodd]
    have hlr := hle hbefore hmid (Nat.sub_le _ _)
    have hl := List.getElem_mem hbefore
    have hr := List.getElem_mem hmid
    have hall : ∀ it' ∈ items, it'.price ≤ items[items.length / 2 - 1].price ∨ items[items.length / 2].price ≤ it'.price := by
      intro it' hit'
      obtain ⟨i, hi, rfl⟩ := List.getElem_of_mem hit'
      by_cases hside : i ≤ items.length / 2 - 1
      · exact .inl (hle hi hbefore hside)
      · exact .inr (hle hmid hi (by omega))
    generalize items[items.length / 2 - 1] = l at hlr hl hall ⊢
    generalize items[items.length / 2] = r at hlr hr hall ⊢
    have hdistL := (dist_le hlr (.inl le_rfl)).1
    have hdistR := (dist_le hlr (.inl le_rfl)).2.1
    have hnearest := fun it' hit' => (dist_le hlr (hall it' hit')).2.2
    rw [hdistL, hdistR, if_neg (lt_irrefl _), if_neg (lt_irrefl _)]
    by_cases hscore : a.scoreOf r.source ≤ a.scoreOf l.source
    · rw [if_pos hscore]
      exact ⟨l, hl, rfl, fun it' hit' => hdistL.le.trans (hnearest it' hit')⟩
    · rw [if_neg hscore]
      exact ⟨r, hr, rfl, fun it' hit' => hdistR.le.trans (hnearest it' hit')⟩

/-- What is selected: nothing only where there are fewer than two. -/
theorem select_cases [IsStrictOrderedRing K] (texts : Texts K) (a : SelectArgs K) :
    (select texts a = none ∧ a.usable.length < 2) ∨
      ∃ d, select texts a = some d ∧ ¬a.usable.length < 2 ∧
        a.Selects (median (a.usable.map (·.price))) (a.Nearest (median (a.usable.map (·.price)))) d := by
  have hperm : (sorted a.items).Perm a.usable := (sorted_perm a.items).trans (items_perm a)
  unfold select
  dsimp only
  by_cases hfew : (sorted a.items).length < 2
  · exact .inl ⟨if_pos hfew, hperm.length_eq ▸ hfew⟩
  · obtain ⟨it, hit, hmiddle, hnearest⟩ := middle_spec (a := a) (not_lt.mp hfew) (prices_sorted a.items)
    have hmedian : inMiddle ((sorted a.items).map (·.price)) = median (a.usable.map (·.price)) :=
      congrArg inMiddle (prices_eq (items_perm a))
    rw [hmedian] at hmiddle hnearest
    rw [if_neg hfew, hmiddle]
    refine .inr ⟨_, rfl, hperm.length_eq ▸ hfew, ⟨⟨it, hperm.mem_iff.mp hit, ?_, rfl, rfl⟩, disagrees_iff hperm _⟩⟩
    exact fun it' hit' => hnearest it' (hperm.mem_iff.mpr hit')

end MedianPriceStrategy

/-! ## Both strategies -/

theorem select_perm (texts : Texts K) {a : SelectArgs K} (hd : a.candidates.Distinct) {items : List (String × Event K × K)}
    (h : items.Perm a.candidates.items) :
    HighestReliabilityStrategy.select texts { a with candidates := ⟨items⟩ } = HighestReliabilityStrategy.select texts a ∧
      MedianPriceStrategy.select texts { a with candidates := ⟨items⟩ } = MedianPriceStrategy.select texts a := by
  constructor
  · unfold HighestReliabilityStrategy.select
    dsimp only
    rw [items_of_perm hd h]
    rfl
  · unfold MedianPriceStrategy.select
    dsimp only
    rw [items_of_perm hd h]
    rfl

/-- Candidates of two feeds at one time, with their prices. -/
def twoFeeds (priceA priceB : ℚ) : SelectArgs ℚ where
  instrumentId := "X"
  candidates := ⟨[("A", ⟨"a", "X", "A", 1, some priceA, .valid⟩, 1), ("B", ⟨"b", "X", "B", 1, some priceB, .valid⟩, 1)]⟩
  scores := ⟨[("A", 1), ("B", 1 / 2)]⟩
  agreementWindow := 1 / 4
  disagreementThreshold := 1 / 200
  blocked := []
  marketNow := some 1

/-- Texts that say nothing. -/
def noTexts : Texts ℚ := ⟨fun _ => "", fun _ => "", id⟩

end Mdrap.CrossFeed
