import Mathlib.Algebra.Order.Field.Rat
import Mathlib.Data.List.Dedup
import Mathlib.Order.Basic
import Mdrap.Lib.Runs
import Mdrap.Pipeline.Strategy

/-!
# The event that is kept of a feed

A reconciler keeps the event of a feed that came last. It is the newest one where the events of the feed come in the order of their
times.
-/

namespace Mdrap.CrossFeed

open Lib

variable {K : Type}

/-! ## What was accepted -/

/-- An event that is kept when it comes: it is not invalid and has a price. -/
def Event.IsUsable (e : Event K) : Prop := e.qualityStatus ≠ .invalid ∧ e.price ≠ none

instance (e : Event K) : Decidable e.IsUsable := by
  unfold Event.IsUsable
  cases e.price <;> infer_instance

/-- The events of a feed that were kept when they came. -/
def accepted (instrumentId source : String) (es : List (ReconcilerEvent K)) : List (Event K) :=
  es.filterMap (fun
    | .reconcile _ e => if e.instrumentId = instrumentId ∧ e.source = source ∧ e.IsUsable then some e else none
    | _ => none)

/-- The instruments of a run. -/
def instruments (es : List (ReconcilerEvent K)) : List String :=
  es.filterMap (fun
    | .reconcile _ e => some e.instrumentId
    | _ => none)

theorem accepted_append (instrumentId source : String) (es fs : List (ReconcilerEvent K)) :
    accepted instrumentId source (es ++ fs) = accepted instrumentId source es ++ accepted instrumentId source fs :=
  List.filterMap_append

theorem instruments_append (es fs : List (ReconcilerEvent K)) : instruments (es ++ fs) = instruments es ++ instruments fs :=
  List.filterMap_append

/-- A run has all the instruments of what it began with. -/
theorem length_instruments_le (es fs : List (ReconcilerEvent K)) :
    (instruments es).dedup.length ≤ (instruments (es ++ fs)).dedup.length := by
  rw [instruments_append]
  have hsub : (instruments es).dedup ⊆ (instruments es ++ instruments fs).dedup :=
    fun x hx => List.mem_dedup.mpr (List.mem_append_left _ (List.mem_dedup.mp hx))
  exact (List.subperm_of_subset (List.nodup_dedup _) hsub).length_le

namespace Reconciler

/-- What is kept of a feed. -/
def kept (instrumentId source : String) (r : Reconciler K) : Option (Event K × K) :=
  (r.latest.get? instrumentId).bind (·.get? source)

/-- What is kept of a feed, of the events that were accepted: one of them with its time, which is not before any of them. -/
def KeepsNewest [LE K] (instrumentId source : String) (events : List (Event K)) (r : Reconciler K) : Prop :=
  match r.kept instrumentId source with
  | none => events = []
  | some (e, ts) => e ∈ events ∧ ts = e.exchangeTimestamp ∧ ∀ e' ∈ events, e'.exchangeTimestamp ≤ ts

/-! ## The last one is kept -/

/-- What is kept after a run: the last event of each feed. -/
structure KeepsLast (es : List (ReconcilerEvent K)) (r : Reconciler K) : Prop where
  kept : ∀ instrumentId source,
    r.kept instrumentId source = (accepted instrumentId source es).getLast?.map (fun e => (e, e.exchangeTimestamp))
  distinct : r.latest.Distinct
  instruments : ∀ instrumentId, r.latest.contains instrumentId = true → instrumentId ∈ instruments es

variable {r : Reconciler K} {es : List (ReconcilerEvent K)}

/-- There are not more tables than instruments. -/
theorem KeepsLast.size_le (h : r.KeepsLast es) : r.latest.size ≤ (CrossFeed.instruments es).dedup.length := by
  have hsub : r.latest.items.map (·.1) ⊆ (CrossFeed.instruments es).dedup := by
    intro k hk
    obtain ⟨kv, hkv, rfl⟩ := List.mem_map.mp hk
    exact List.mem_dedup.mpr (h.instruments kv.1 (Dict.contains_of_mem hkv))
  have hlength := (List.subperm_of_subset h.distinct hsub).length_le
  rwa [List.length_map] at hlength

/-- Where there is room, the tables of the other instruments stay as they are. -/
theorem get?_feedsOf (hroom : r.latest.size < r.maxInstruments) (instrumentId j : String) :
    (r.feedsOf instrumentId).2.get? j = if j = instrumentId then none else r.latest.get? j := by
  unfold feedsOf
  split
  · exact Dict.get?_erase ..
  · rename_i hnone
    rw [if_neg (not_le.mpr hroom)]
    split
    · rename_i hj
      rw [hj, hnone]
    · rfl

theorem feedsOf_fst (instrumentId : String) : (r.feedsOf instrumentId).1 = (r.latest.get? instrumentId).getD .empty := by
  unfold feedsOf
  split
  · rename_i hfeeds
    rw [hfeeds]
    rfl
  · rename_i hnone
    rw [hnone]
    rfl

theorem distinct_feedsOf (hroom : r.latest.size < r.maxInstruments) (h : r.latest.Distinct) (instrumentId : String) :
    (r.feedsOf instrumentId).2.Distinct := by
  unfold feedsOf
  split
  · exact h.erase instrumentId
  · rw [if_neg (not_le.mpr hroom)]
    exact h

/-- An event that is not usable changes nothing. -/
theorem reconcile_unusable {e : Event K} (h : ¬e.IsUsable) (scores : Dict String K) : (r.reconcile scores e).2 = r := by
  have hskip : e.qualityStatus = .invalid ∨ e.price = none := by
    by_contra hnot
    exact h (not_or.mp hnot)
  rw [reconcile, if_pos hskip]

/-- The tables after an event that is usable. -/
theorem latest_reconcile {e : Event K} (h : e.IsUsable) (scores : Dict String K) :
    (r.reconcile scores e).2.latest = (r.feedsOf e.instrumentId).2.set e.instrumentId
      ((r.feedsOf e.instrumentId).1.set e.source (e, e.exchangeTimestamp)) := by
  rw [reconcile, if_neg (not_or.mpr h)]
  dsimp only
  split <;> rfl

theorem kept_reconcile (hroom : r.latest.size < r.maxInstruments) {e : Event K} (h : e.IsUsable) (scores : Dict String K)
    (instrumentId source : String) :
    (r.reconcile scores e).2.kept instrumentId source =
      if e.instrumentId = instrumentId ∧ e.source = source then some (e, e.exchangeTimestamp) else r.kept instrumentId source := by
  unfold kept
  rw [latest_reconcile h, Dict.get?_set]
  by_cases hi : instrumentId = e.instrumentId
  · subst hi
    rw [if_pos rfl, Option.bind_some, Dict.get?_set, feedsOf_fst]
    by_cases hs : source = e.source
    · rw [if_pos hs, if_pos ⟨rfl, hs.symm⟩]
    · rw [if_neg hs, if_neg (fun hall => hs hall.2.symm)]
      rcases r.latest.get? e.instrumentId with _ | feeds
      · rfl
      · rfl
  · rw [if_neg hi, get?_feedsOf hroom, if_neg hi, if_neg (fun hall => hi hall.1.symm)]

theorem maxInstruments_step (r : Reconciler K) (ev : ReconcilerEvent K) : (r.step ev).maxInstruments = r.maxInstruments := by
  cases ev with
  | reconcile scores e =>
    rw [step, reconcile]
    split
    · rfl
    · dsimp only
      split <;> rfl
  | blockSource source => rfl
  | unblockSource source => rfl

/-- A step keeps the last event of each feed, where there is room for its instrument. -/
theorem KeepsLast.step (h : r.KeepsLast es) (hroom : r.latest.size < r.maxInstruments) (ev : ReconcilerEvent K) :
    (r.step ev).KeepsLast (es ++ [ev]) := by
  cases ev with
  | reconcile scores e =>
    by_cases hu : e.IsUsable
    · refine ⟨?_, ?_, ?_⟩
      · intro instrumentId source
        rw [Reconciler.step, kept_reconcile hroom hu, accepted_append]
        by_cases hmine : e.instrumentId = instrumentId ∧ e.source = source
        · have hone : accepted instrumentId source [.reconcile scores e] = [e] := by simp [accepted, hmine, hu]
          rw [if_pos hmine, hone, List.getLast?_concat]
          rfl
        · have hnone : accepted instrumentId source [.reconcile scores e] = [] := by
            simp only [accepted, List.filterMap_cons, List.filterMap_nil]
            rw [if_neg (fun hall => hmine ⟨hall.1, hall.2.1⟩)]
          rw [if_neg hmine, hnone, List.append_nil]
          exact h.kept instrumentId source
      · rw [Reconciler.step, latest_reconcile hu]
        exact (distinct_feedsOf hroom h.distinct e.instrumentId).set _ _
      · intro instrumentId hcontains
        rw [instruments_append]
        rw [Reconciler.step, latest_reconcile hu, Dict.contains_set, Bool.or_eq_true, decide_eq_true_eq, Dict.contains,
          get?_feedsOf hroom] at hcontains
        by_cases hi : instrumentId = e.instrumentId
        · exact List.mem_append_right _ (hi ▸ List.mem_cons_self)
        · rw [if_neg hi] at hcontains
          exact List.mem_append_left _ (h.instruments instrumentId (hcontains.resolve_left hi))
    · have hnone : ∀ instrumentId source, accepted instrumentId source [.reconcile scores e] = [] := by
        intro instrumentId source
        simp [accepted, hu]
      rw [Reconciler.step, reconcile_unusable hu]
      refine ⟨?_, h.distinct, ?_⟩
      · intro instrumentId source
        rw [accepted_append, hnone, List.append_nil]
        exact h.kept instrumentId source
      · intro instrumentId hcontains
        rw [instruments_append]
        exact List.mem_append_left _ (h.instruments instrumentId hcontains)
  | blockSource source =>
    refine ⟨?_, h.distinct, ?_⟩
    · intro instrumentId source'
      rw [accepted_append]
      exact (h.kept instrumentId source').trans (by simp [accepted])
    · intro instrumentId hcontains
      rw [instruments_append]
      exact List.mem_append_left _ (h.instruments instrumentId hcontains)
  | unblockSource source =>
    refine ⟨?_, h.distinct, ?_⟩
    · intro instrumentId source'
      rw [accepted_append]
      exact (h.kept instrumentId source').trans (by simp [accepted])
    · intro instrumentId hcontains
      rw [instruments_append]
      exact List.mem_append_left _ (h.instruments instrumentId hcontains)

theorem keepsLast_new (agreementWindow disagreementThreshold : K) (maxInstruments : Nat)
    (strategy : SelectArgs K → Option (Decision K)) :
    (new agreementWindow disagreementThreshold maxInstruments strategy).KeepsLast [] where
  kept _ _ := rfl
  distinct := Dict.distinct_empty
  instruments _ h := nomatch h

theorem maxInstruments_run (r : Reconciler K) (es : List (ReconcilerEvent K)) :
    (runFrom step r es).maxInstruments = r.maxInstruments := by
  induction es generalizing r with
  | nil => rfl
  | cons ev es ih => rw [runFrom_cons, ih, maxInstruments_step]

/-- With fewer instruments than there is room for, a run keeps the last event of each feed. -/
theorem keepsLast_run (agreementWindow disagreementThreshold : K) {maxInstruments : Nat}
    (strategy : SelectArgs K → Option (Decision K)) (hfew : (CrossFeed.instruments es).dedup.length < maxInstruments) :
    (runFrom step (new agreementWindow disagreementThreshold maxInstruments strategy) es).KeepsLast es := by
  induction es using List.reverseRecOn with
  | nil => exact keepsLast_new ..
  | append_singleton es ev ih =>
    have hless := length_instruments_le es [ev]
    have hrest := ih (hless.trans_lt hfew)
    rw [runFrom_append]
    refine hrest.step ?_ ev
    rw [maxInstruments_run]
    exact hrest.size_le.trans_lt (hless.trans_lt hfew)

theorem KeepsLast.keepsNewest_iff [Preorder K] (h : r.KeepsLast es) (instrumentId source : String) :
    r.KeepsNewest instrumentId source (accepted instrumentId source es) ↔
      ∀ last ∈ (accepted instrumentId source es).getLast?, ∀ e ∈ accepted instrumentId source es,
        e.exchangeTimestamp ≤ last.exchangeTimestamp := by
  unfold KeepsNewest
  rw [h.kept]
  rcases hlast : (accepted instrumentId source es).getLast? with _ | last
  · exact iff_of_true (List.getLast?_eq_none_iff.mp hlast) (fun _ h => nomatch h)
  · simp only [Option.map_some, Option.mem_some_iff, forall_eq', true_and]
    exact and_iff_right (List.mem_of_getLast? hlast)

end Reconciler

/-- The last one is above all before it wherever a run is cut: exactly where the events come in order. -/
theorem lasts_newest_iff [Preorder K] (instrumentId source : String) (es : List (ReconcilerEvent K)) :
    (∀ fs, fs <+: es → ∀ last ∈ (accepted instrumentId source fs).getLast?, ∀ e ∈ accepted instrumentId source fs,
        e.exchangeTimestamp ≤ last.exchangeTimestamp) ↔
      (accepted instrumentId source es).Pairwise (fun a b => a.exchangeTimestamp ≤ b.exchangeTimestamp) := by
  induction es using List.reverseRecOn with
  | nil =>
    refine iff_of_true ?_ List.Pairwise.nil
    intro fs hfs last hlast
    rw [List.prefix_nil.mp hfs] at hlast
    cases hlast
  | append_singleton es ev ih =>
    have hsplit : (∀ fs, fs <+: es ++ [ev] → ∀ last ∈ (accepted instrumentId source fs).getLast?,
          ∀ e ∈ accepted instrumentId source fs, e.exchangeTimestamp ≤ last.exchangeTimestamp) ↔
        (∀ last ∈ (accepted instrumentId source (es ++ [ev])).getLast?, ∀ e ∈ accepted instrumentId source (es ++ [ev]),
          e.exchangeTimestamp ≤ last.exchangeTimestamp) ∧
        (accepted instrumentId source es).Pairwise (fun a b => a.exchangeTimestamp ≤ b.exchangeTimestamp) := by
      rw [← ih]
      simp only [List.prefix_concat_iff, or_imp, forall_and, forall_eq]
    rw [hsplit, accepted_append]
    rcases hnew : accepted instrumentId source [ev] with _ | ⟨e, rest⟩
    · rw [List.append_nil]
      refine ⟨And.right, fun hpairs => ⟨?_, hpairs⟩⟩
      intro last hlast e he
      obtain ⟨before, hbefore⟩ := List.getLast?_eq_some_iff.mp hlast
      rw [hbefore] at he hpairs
      rcases List.mem_append.mp he with hin | hin
      · exact (List.pairwise_append.mp hpairs).2.2 e hin last List.mem_cons_self
      · rw [List.mem_singleton.mp hin]
    · have hrest : rest = [] := by
        have hlen : (accepted instrumentId source [ev]).length ≤ 1 := List.length_filterMap_le _ _
        rw [hnew] at hlen
        exact List.eq_nil_of_length_eq_zero (by simpa using hlen)
      subst hrest
      rw [List.getLast?_concat, List.pairwise_append]
      simp only [Option.mem_some_iff, forall_eq', List.mem_append, List.mem_singleton, or_imp, forall_and, forall_eq, le_refl,
        and_true, List.pairwise_singleton, true_and]
      exact and_comm

/-- What is kept of each feed is its newest event after each call, in a run with fewer instruments than there is room for, if and only
if the events of each feed come in the order of their times. -/
theorem kept_newest_iff [Preorder K] (agreementWindow disagreementThreshold : K) (maxInstruments : Nat)
    (strategy : SelectArgs K → Option (Decision K)) (es : List (ReconcilerEvent K))
    (hfew : (instruments es).dedup.length < maxInstruments) :
    (∀ fs, fs <+: es → ∀ instrumentId source,
        (runFrom Reconciler.step (.new agreementWindow disagreementThreshold maxInstruments strategy) fs).KeepsNewest instrumentId
          source (accepted instrumentId source fs)) ↔
      ∀ instrumentId source,
        (accepted instrumentId source es).Pairwise (fun a b => a.exchangeTimestamp ≤ b.exchangeTimestamp) := by
  have hbegins : ∀ fs, fs <+: es → (instruments fs).dedup.length < maxInstruments := by
    rintro fs ⟨gs, rfl⟩
    exact (length_instruments_le fs gs).trans_lt hfew
  have hlast : ∀ fs, fs <+: es → ∀ instrumentId source,
      ((runFrom Reconciler.step (.new agreementWindow disagreementThreshold maxInstruments strategy) fs).KeepsNewest instrumentId
          source (accepted instrumentId source fs) ↔
        ∀ last ∈ (accepted instrumentId source fs).getLast?, ∀ e ∈ accepted instrumentId source fs,
          e.exchangeTimestamp ≤ last.exchangeTimestamp) :=
    fun fs hfs => (Reconciler.keepsLast_run agreementWindow disagreementThreshold strategy (hbegins fs hfs)).keepsNewest_iff
  constructor
  · intro h instrumentId source
    exact (lasts_newest_iff instrumentId source es).mp (fun fs hfs => (hlast fs hfs instrumentId source).mp (h fs hfs _ _))
  · intro h fs hfs instrumentId source
    exact (hlast fs hfs instrumentId source).mpr ((lasts_newest_iff instrumentId source es).mpr (h instrumentId source) fs hfs)

/-- A trade of X on the feed A. -/
def tradeAt (eventId : String) (exchangeTimestamp : ℚ) : ReconcilerEvent ℚ :=
  .reconcile .empty ⟨eventId, "X", "A", exchangeTimestamp, some 100, .valid⟩

/-- A reconciler that chooses the most reliable feed. -/
def byReliability : Reconciler ℚ :=
  .new (1 / 4) (1 / 200) 100000 (HighestReliabilityStrategy.select ⟨fun _ => "", fun _ => "", id⟩)

/-- Two trades in the order of their times. -/
theorem kept_newest_in_order :
    (runFrom Reconciler.step byReliability [tradeAt "a" 1, tradeAt "b" 2]).KeepsNewest "X" "A"
      (accepted "X" "A" [tradeAt "a" 1, tradeAt "b" 2]) := by
  refine (kept_newest_iff (1 / 4) (1 / 200) 100000 _ [tradeAt "a" 1, tradeAt "b" 2] (by decide)).mpr ?_ _ List.prefix_rfl _ _
  intro instrumentId source
  by_cases hmine : "X" = instrumentId ∧ "A" = source
  · obtain ⟨rfl, rfl⟩ := hmine
    decide
  · have hnone : accepted instrumentId source [tradeAt "a" 1, tradeAt "b" 2] = [] := by
      simp only [accepted, tradeAt, List.filterMap_cons, List.filterMap_nil]
      rw [if_neg (fun hall => hmine ⟨hall.1, hall.2.1⟩), if_neg (fun hall => hmine ⟨hall.1, hall.2.1⟩)]
    rw [hnone]
    exact .nil

/-- A trade that comes late takes the place of a newer one. -/
theorem kept_newest_false :
    ¬(runFrom Reconciler.step byReliability [tradeAt "b" 2, tradeAt "a" 1]).KeepsNewest "X" "A"
      (accepted "X" "A" [tradeAt "b" 2, tradeAt "a" 1]) := by
  have hkept : (runFrom Reconciler.step byReliability [tradeAt "b" 2, tradeAt "a" 1]).kept "X" "A" =
      some (⟨"a", "X", "A", 1, some 100, .valid⟩, 1) := by decide
  unfold Reconciler.KeepsNewest
  rw [hkept]
  rintro ⟨-, -, hnewest⟩
  have hle : (2 : ℚ) ≤ 1 := hnewest ⟨"b", "X", "A", 2, some 100, .valid⟩ (by decide)
  exact absurd hle (by decide)

end Mdrap.CrossFeed
