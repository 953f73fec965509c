import Mathlib.Data.List.Nodup
import Mathlib.Tactic.NormNum
import Mdrap.Lib.Candle
import Mdrap.Lib.Runs
import Mdrap.Bars.Database

/-!
# The table has the trades

A trade reaches its row through an open bucket, a sealed bar or a revision. At every moment the row of a key, then the pending bars of
the key, then the open bucket of the key make up the candle of the trades that were taken, in the order in which they came.
-/

namespace Mdrap

open Lib

/-! ## Bars as candles -/

/-- The candle of a bar. -/
def Bar.candle (b : Bar) : Candle ℚ := ⟨b.opening, b.high, b.low, b.volume, b.tradeCount, b.vwap * b.volume⟩

/-- The candle of an open bucket. -/
def Bucket.candle (d : Bucket) : Candle ℚ := ⟨d.opening, d.high, d.low, d.volume, d.tradeCount, d.vwapNum⟩

theorem Bar.candle_upsert {row b : Bar} (h : 0 < row.volume + b.volume) : (row.upsert b).candle = row.candle * b.candle := by
  have hvwap : (row.upsert b).vwap * (row.volume + b.volume) = row.vwap * row.volume + b.vwap * b.volume := by
    unfold Bar.upsert
    dsimp only
    rw [if_pos h, div_mul_cancel₀ _ (ne_of_gt h)]
  rw [Candle.mul_def]
  exact Candle.ext rfl rfl rfl rfl rfl hvwap

theorem Bucket.candle_bar {d : Bucket} (h : 0 < d.volume) (instrumentId : String) (intervalS bucketStart : ℚ) :
    (d.bar instrumentId intervalS bucketStart).candle = d.candle := by
  have hvwap : (d.bar instrumentId intervalS bucketStart).vwap * d.volume = d.vwapNum := by
    unfold Bucket.bar
    dsimp only
    rw [if_pos h, div_mul_cancel₀ _ (ne_of_gt h)]
  exact Candle.ext rfl rfl rfl rfl rfl hvwap

theorem Bucket.candle_seed (price quantity : ℚ) : (Bucket.seed price quantity).candle = .ofFill ⟨price, quantity⟩ := rfl

theorem Bucket.candle_update (price quantity : ℚ) (d : Bucket) :
    (d.update price quantity).candle = d.candle * .ofFill ⟨price, quantity⟩ := rfl

theorem candle_delta (price quantity : ℚ) (bar : Bar) : (BarAggregator.delta price quantity bar).candle = .ofFill ⟨price, quantity⟩ := rfl

/-- The candle of the bars of a key. -/
def barsAt (k : BarKey) (bars : List Bar) : WithOne (Candle ℚ) :=
  ((bars.filter (fun b => b.key = k)).map (fun b => (b.candle : WithOne (Candle ℚ)))).prod

theorem barsAt_nil (k : BarKey) : barsAt k [] = 1 := rfl

theorem barsAt_append (k : BarKey) (bars bars' : List Bar) : barsAt k (bars ++ bars') = barsAt k bars * barsAt k bars' := by
  simp [barsAt]

theorem barsAt_singleton (k : BarKey) (b : Bar) : barsAt k [b] = if b.key = k then (b.candle : WithOne (Candle ℚ)) else 1 := by
  unfold barsAt
  split
  · simp [*]
  · simp [*]

theorem barsAt_eq_one {k : BarKey} {bars : List Bar} (h : ∀ b ∈ bars, b.key ≠ k) : barsAt k bars = 1 := by
  have hnone : bars.filter (fun b => b.key = k) = [] := by
    refine List.filter_eq_nil_iff.mpr ?_
    intro b hb
    simpa using h b hb
  rw [barsAt, hnone]
  rfl

/-- The candle of the row of a key. -/
def rowAt (rows : Dict BarKey Bar) (k : BarKey) : WithOne (Candle ℚ) :=
  match rows.get? k with
  | none => 1
  | some row => row.candle

/-- Rows with a volume and a fitting close. -/
def RowsOk (P : BarKey → ℚ → Prop) (rows : Dict BarKey Bar) : Prop := ∀ k row, rows.get? k = some row → 0 < row.volume ∧ P k row.close

namespace BarDatabase

variable {P : BarKey → ℚ → Prop} {rows : Dict BarKey Bar}

theorem rowAt_writeBar (hrows : RowsOk P rows) {b : Bar} (hb : 0 < b.volume ∧ P b.key b.close) (k : BarKey) :
    rowAt (writeBar rows b) k = rowAt rows k * barsAt k [b] := by
  rw [barsAt_singleton]
  unfold writeBar rowAt
  rcases hget : rows.get? b.key with _ | row
  · dsimp only
    rw [Dict.get?_set]
    by_cases hk : b.key = k
    · subst hk
      rw [if_pos rfl, if_pos rfl, hget]
      exact (one_mul _).symm
    · rw [if_neg (Ne.symm hk), if_neg hk, mul_one]
  · dsimp only
    rw [Dict.get?_set]
    by_cases hk : b.key = k
    · subst hk
      rw [if_pos rfl, if_pos rfl, hget]
      dsimp only
      rw [Bar.candle_upsert (add_pos (hrows _ row hget).1 hb.1), WithOne.coe_mul]
    · rw [if_neg (Ne.symm hk), if_neg hk, mul_one]

theorem rowsOk_writeBar (hrows : RowsOk P rows) {b : Bar} (hb : 0 < b.volume ∧ P b.key b.close) : RowsOk P (writeBar rows b) := by
  intro k row hrow
  unfold writeBar at hrow
  split at hrow
  · rw [Dict.get?_set] at hrow
    split at hrow
    · rename_i hk
      cases hrow
      exact hk ▸ hb
    · exact hrows k row hrow
  · rename_i old hold
    rw [Dict.get?_set] at hrow
    split at hrow
    · rename_i hk
      cases hrow
      exact ⟨add_pos (hrows _ old hold).1 hb.1, hk ▸ hb.2⟩
    · exact hrows k row hrow

/-- What is written goes on behind the rows. -/
theorem rowAt_writeBars (hrows : RowsOk P rows) {bars : List Bar} (hbars : ∀ b ∈ bars, 0 < b.volume ∧ P b.key b.close) :
    RowsOk P (writeBars rows bars) ∧ ∀ k, rowAt (writeBars rows bars) k = rowAt rows k * barsAt k bars := by
  induction bars generalizing rows with
  | nil => exact ⟨hrows, fun k => (mul_one _).symm⟩
  | cons b bars ih =>
    have hb := hbars b List.mem_cons_self
    obtain ⟨hok, hsum⟩ := ih (rowsOk_writeBar hrows hb) (fun b' hb' => hbars b' (List.mem_cons_of_mem _ hb'))
    refine ⟨hok, ?_⟩
    intro k
    rw [writeBars, List.foldl_cons, ← writeBars, hsum k, rowAt_writeBar hrows hb, mul_assoc, ← barsAt_append]
    rfl

end BarDatabase

/-! ## Trades -/

/-- The trade of an event. -/
def BarEvent.fill? (e : BarEvent) : Option (Fill ℚ) :=
  match e.price, e.quantity with
  | some price, some quantity => if e.eventType ≠ .trade then none else some ⟨price, quantity⟩
  | _, _ => none

/-- A trade with a price and a quantity. -/
def BarEvent.IsTrade (e : BarEvent) : Prop :=
  e.eventType = .trade ∧ ∃ price quantity, e.price = some price ∧ e.quantity = some quantity ∧ 0 < price ∧ 0 < quantity

/-- The key under which an interval counts an event. -/
def BarEvent.key (intervalS : ℚ) (e : BarEvent) : BarKey :=
  (e.instrumentId, intervalS, BarAggregator.bucketStart intervalS e.exchangeTimestamp)

/-- The trades of a key. -/
def tradesAt (k : BarKey) (es : List BarEvent) : List (Fill ℚ) := es.filterMap (fun e => if e.key k.2.1 = k then e.fill? else none)

theorem tradesAt_append (k : BarKey) (es es' : List BarEvent) : tradesAt k (es ++ es') = tradesAt k es ++ tradesAt k es' :=
  List.filterMap_append ..

/-- A trade of the key had the price. -/
def PriceAt (es : List BarEvent) (k : BarKey) (price : ℚ) : Prop := ∃ t ∈ tradesAt k es, t.price = price

theorem PriceAt.append {es : List BarEvent} {k : BarKey} {price : ℚ} (h : PriceAt es k price) (es' : List BarEvent) :
    PriceAt (es ++ es') k price := by
  obtain ⟨t, ht, hprice⟩ := h
  refine ⟨t, ?_, hprice⟩
  rw [tradesAt_append]
  exact List.mem_append_left _ ht

theorem PriceAt.last (es : List BarEvent) {e : BarEvent} {intervalS price quantity : ℚ} (htrade : e.fill? = some ⟨price, quantity⟩) :
    PriceAt (es ++ [e]) (e.key intervalS) price := by
  refine ⟨⟨price, quantity⟩, ?_, rfl⟩
  rw [tradesAt_append]
  refine List.mem_append_right _ ?_
  have hkey : e.key (e.key intervalS).2.1 = e.key intervalS := rfl
  simp [tradesAt, hkey, htrade]

/-- The candle of one more trade. -/
theorem ofFills_tradesAt_one {e : BarEvent} {t : Fill ℚ} (htrade : e.fill? = some t) (k : BarKey) :
    Candle.ofFills (tradesAt k [e]) = if e.key k.2.1 = k then (Candle.ofFill t : WithOne (Candle ℚ)) else 1 := by
  unfold tradesAt
  split
  · simp [*]
  · simp [*]

/-! ## An aggregator -/

namespace BarAggregator

/-- The candle of the open bucket of a key. -/
def openAt (k : BarKey) (a : BarAggregator) : WithOne (Candle ℚ) :=
  match a.buckets.get? k.1 with
  | none => 1
  | some (start, data) => if (a.intervalS, start) = k.2 then data.candle else 1

/-- The open buckets have a volume, and a close like the bars that are kept. -/
structure Good (es : List BarEvent) (a : BarAggregator) : Prop where
  distinct : a.buckets.Distinct
  opened : ∀ i start d, a.buckets.get? i = some (start, d) → 0 < d.volume ∧ PriceAt es (i, a.intervalS, start) d.close
  recent : ∀ i bars, a.recentBars.get? i = some bars →
    ∀ kv ∈ bars.items, kv.2.key = (i, a.intervalS, kv.1) ∧ PriceAt es kv.2.key kv.2.close

/-- What an aggregator hands on and what it keeps open make up what it had open and what it got. -/
structure Stages (es got : List BarEvent) (a : BarAggregator) (r : Option Bar × BarAggregator) : Prop where
  interval : r.2.intervalS = a.intervalS
  good : r.2.Good (es ++ got)
  bar : ∀ b, r.1 = some b → b.intervalS = a.intervalS ∧ 0 < b.volume ∧ PriceAt (es ++ got) b.key b.close
  conserve : ∀ k : BarKey, k.2.1 = a.intervalS →
    barsAt k r.1.toList * r.2.openAt k = a.openAt k * Candle.ofFills (tradesAt k got)

variable {es : List BarEvent} {a a' : BarAggregator} {e : BarEvent} {price quantity : ℚ}

theorem openAt_none {k : BarKey} (h : a.buckets.get? k.1 = none) : a.openAt k = 1 := by
  unfold openAt
  rw [h]

theorem openAt_some {k : BarKey} {start : ℚ} {d : Bucket} (h : a.buckets.get? k.1 = some (start, d)) :
    a.openAt k = if (a.intervalS, start) = k.2 then (d.candle : WithOne (Candle ℚ)) else 1 := by
  unfold openAt
  rw [h]

theorem openAt_congr (hbuckets : a'.buckets = a.buckets) (hinterval : a'.intervalS = a.intervalS) (k : BarKey) :
    a'.openAt k = a.openAt k := by
  unfold openAt
  rw [hbuckets, hinterval]

theorem Good.opened_set (h : a.Good es) (got : List BarEvent) {i : String} {start : ℚ} {d : Bucket} (hvolume : 0 < d.volume)
    (hclose : PriceAt (es ++ got) (i, a.intervalS, start) d.close) {a' : BarAggregator} (hinterval : a'.intervalS = a.intervalS)
    (hbuckets : a'.buckets = a.buckets.set i (start, d))
    (hrecent : ∀ i bars, a'.recentBars.get? i = some bars →
      ∀ kv ∈ bars.items, kv.2.key = (i, a.intervalS, kv.1) ∧ PriceAt (es ++ got) kv.2.key kv.2.close) : a'.Good (es ++ got) := by
  refine ⟨?_, ?_, ?_⟩
  · rw [hbuckets]
    exact h.distinct.set _ _
  · intro i' start' d' hget
    rw [hbuckets, Dict.get?_set] at hget
    rw [hinterval]
    split at hget
    · rename_i hi
      cases hget
      exact hi ▸ ⟨hvolume, hclose⟩
    · obtain ⟨hpos, hprice⟩ := h.opened i' start' d' hget
      exact ⟨hpos, hprice.append got⟩
  · rw [hinterval]
    exact hrecent

theorem Good.recent_append (h : a.Good es) (got : List BarEvent) : ∀ i bars, a.recentBars.get? i = some bars →
    ∀ kv ∈ bars.items, kv.2.key = (i, a.intervalS, kv.1) ∧ PriceAt (es ++ got) kv.2.key kv.2.close := by
  intro i bars hget kv hkv
  obtain ⟨hkey, hprice⟩ := h.recent i bars hget kv hkv
  exact ⟨hkey, hprice.append got⟩

/-- A bar that comes into the kept ones. -/
theorem Good.recent_set (h : a.Good es) (got : List BarEvent) {i : String} (start : ℚ) (bar : Bar) (hkey : bar.key = (i, a.intervalS, start))
    (hclose : PriceAt (es ++ got) bar.key bar.close) : ∀ kv ∈ (((a.recentBars.get? i).getD .empty).set start bar).items,
      kv.2.key = (i, a.intervalS, kv.1) ∧ PriceAt (es ++ got) kv.2.key kv.2.close := by
  intro kv hkv
  rcases Dict.mem_of_mem_set hkv with rfl | hold
  · exact ⟨hkey, hclose⟩
  · rcases hget : a.recentBars.get? i with _ | bars
    · rw [hget] at hold
      exact absurd hold List.not_mem_nil
    · rw [hget] at hold
      exact h.recent_append got i bars hget kv hold

/-- The bucket of the trade is the open one, or none is open: the trade goes to the end of it. -/
theorem stages_open (h : a.Good es) (htrade : e.fill? = some ⟨price, quantity⟩) {d : Bucket} (hvolume : 0 < d.volume)
    (hclose : d.close = price) (hcandle : a.openAt (e.key a.intervalS) * Candle.ofFill ⟨price, quantity⟩ = (d.candle : WithOne (Candle ℚ)))
    (hother : ∀ k : BarKey, k.1 = e.instrumentId → k.2.1 = a.intervalS → k ≠ e.key a.intervalS → a.openAt k = 1)
    (hinterval : a'.intervalS = a.intervalS) (hrecent : a'.recentBars = a.recentBars)
    (hbuckets : a'.buckets = a.buckets.set e.instrumentId (bucketStart a.intervalS e.exchangeTimestamp, d)) :
    Stages es [e] a (none, a') := by
  refine ⟨hinterval, ?_, fun _ hb => absurd hb.symm (Option.some_ne_none _), ?_⟩
  · refine h.opened_set [e] hvolume ?_ hinterval hbuckets ?_
    · rw [hclose]
      exact .last es htrade
    · rw [hrecent]
      exact h.recent_append [e]
  · intro k hk
    show barsAt k [] * a'.openAt k = _
    rw [barsAt_nil, one_mul, ofFills_tradesAt_one htrade, hk]
    by_cases hi : k.1 = e.instrumentId
    · have hget : a'.buckets.get? k.1 = some (bucketStart a.intervalS e.exchangeTimestamp, d) := by
        rw [hbuckets, hi, Dict.get?_set_self]
      rw [openAt_some hget, hinterval]
      by_cases hkey : e.key a.intervalS = k
      · subst hkey
        have hsame : (a.intervalS, bucketStart a.intervalS e.exchangeTimestamp) = (e.key a.intervalS).2 := rfl
        rw [if_pos hsame, if_pos rfl, hcandle]
      · have hne : ¬(a.intervalS, bucketStart a.intervalS e.exchangeTimestamp) = k.2 := by
          intro heq
          exact hkey (Prod.ext hi.symm heq)
        rw [if_neg hne, if_neg hkey, hother k hi hk (Ne.symm hkey), one_mul]
    · have hkey : ¬e.key a.intervalS = k := by
        rintro rfl
        exact hi rfl
      have hsame : a'.openAt k = a.openAt k := by
        unfold openAt
        rw [hbuckets, Dict.get?_set_ne _ hi, hinterval]
      rw [if_neg hkey, mul_one, hsame]

/-- The open bucket is sealed, and the trade opens the next one. -/
theorem stages_seal (h : a.Good es) (htrade : e.fill? = some ⟨price, quantity⟩) (hquantity : 0 < quantity) {current : ℚ} {d : Bucket}
    (hget : a.buckets.get? e.instrumentId = some (current, d)) (hlt : current < bucketStart a.intervalS e.exchangeTimestamp)
    (hinterval : a'.intervalS = a.intervalS)
    (hrecent : a'.recentBars = (a.cache (d.bar e.instrumentId a.intervalS current)).recentBars)
    (hbuckets : a'.buckets = a.buckets.set e.instrumentId (bucketStart a.intervalS e.exchangeTimestamp, .seed price quantity)) :
    Stages es [e] a (some (d.bar e.instrumentId a.intervalS current), a') := by
  obtain ⟨hvolume, hprice⟩ := h.opened _ current d hget
  refine ⟨hinterval, ?_, ?_, ?_⟩
  · refine h.opened_set [e] hquantity (.last es htrade) hinterval hbuckets ?_
    rw [hrecent]
    intro i bars hbars kv hkv
    unfold cache at hbars
    dsimp only at hbars
    rw [Dict.get?_set] at hbars
    split at hbars
    · rename_i hi
      cases hbars
      have hmem := (List.mem_filter.mp hkv).1
      rw [hi]
      exact h.recent_set [e] current (d.bar e.instrumentId a.intervalS current) rfl (hprice.append [e]) kv hmem
    · exact h.recent_append [e] i bars hbars kv hkv
  · intro b hb
    cases hb
    exact ⟨rfl, hvolume, hprice.append [e]⟩
  · intro k hk
    show barsAt k [d.bar e.instrumentId a.intervalS current] * a'.openAt k = _
    rw [barsAt_singleton, Bucket.candle_bar hvolume, ofFills_tradesAt_one htrade, hk]
    have hbar : (d.bar e.instrumentId a.intervalS current).key = (e.instrumentId, a.intervalS, current) := rfl
    rw [hbar]
    by_cases hi : k.1 = e.instrumentId
    · have hget' : a'.buckets.get? k.1 = some (bucketStart a.intervalS e.exchangeTimestamp, .seed price quantity) := by
        rw [hbuckets, hi, Dict.get?_set_self]
      have hgetk : a.buckets.get? k.1 = some (current, d) := by rw [hi, hget]
      obtain ⟨i, s, start⟩ := k
      dsimp only at hi hk
      subst hi hk
      rw [openAt_some hget', openAt_some hgetk, hinterval]
      by_cases hold : start = current
      · subst hold
        have hne : ¬bucketStart a.intervalS e.exchangeTimestamp = start := ne_of_gt hlt
        simp [BarEvent.key, hne]
      · have hne : ¬current = start := Ne.symm hold
        by_cases hnew : bucketStart a.intervalS e.exchangeTimestamp = start
        · simp [BarEvent.key, hnew, hne, Bucket.candle_seed]
        · simp [BarEvent.key, hnew, hne]
    · have hne : ¬(e.instrumentId, a.intervalS, current) = k := by
        rintro rfl
        exact hi rfl
      have hkey : ¬e.key a.intervalS = k := by
        rintro rfl
        exact hi rfl
      have hsame : a'.openAt k = a.openAt k := by
        unfold openAt
        rw [hbuckets, Dict.get?_set_ne _ hi, hinterval]
      rw [if_neg hne, if_neg hkey, one_mul, mul_one, hsame]

/-- A kept bar is revised. -/
theorem stages_revise (h : a.Good es) (htrade : e.fill? = some ⟨price, quantity⟩) (hquantity : 0 < quantity) {current : ℚ} {d : Bucket}
    (hget : a.buckets.get? e.instrumentId = some (current, d)) (hlt : bucketStart a.intervalS e.exchangeTimestamp < current)
    {bars : Dict ℚ Bar} {bar : Bar} (hbars : a.recentBars.get? e.instrumentId = some bars)
    (hbar : bars.get? (bucketStart a.intervalS e.exchangeTimestamp) = some bar) (hinterval : a'.intervalS = a.intervalS)
    (hbuckets : a'.buckets = a.buckets) (hrecent : a'.recentBars = a.recentBars.set e.instrumentId
      (((a.recentBars.get? e.instrumentId).getD .empty).set (bucketStart a.intervalS e.exchangeTimestamp) (revised price quantity bar))) :
    Stages es [e] a (some (delta price quantity bar), a') := by
  obtain ⟨hkey, hclose⟩ := h.recent _ bars hbars _ (Dict.mem_of_get? hbar)
  refine ⟨hinterval, ⟨?_, ?_, ?_⟩, ?_, ?_⟩
  · rw [hbuckets]
    exact h.distinct
  · intro i start d' hd'
    rw [hbuckets] at hd'
    rw [hinterval]
    obtain ⟨hpos, hprice⟩ := h.opened i start d' hd'
    exact ⟨hpos, hprice.append [e]⟩
  · rw [hrecent, hinterval]
    intro i bars' hbars' kv hkv
    rw [Dict.get?_set] at hbars'
    split at hbars'
    · rename_i hi
      cases hbars'
      rw [hi]
      exact h.recent_set [e] _ (revised price quantity bar) hkey (hclose.append [e]) kv hkv
    · exact h.recent_append [e] i bars' hbars' kv hkv
  · intro b hb
    cases hb
    have hinterval' : bar.intervalS = a.intervalS := congrArg (·.2.1) hkey
    exact ⟨hinterval', hquantity, hclose.append [e]⟩
  · intro k hk
    show barsAt k [delta price quantity bar] * a'.openAt k = _
    have hdelta : (delta price quantity bar).key = e.key a.intervalS := hkey
    rw [barsAt_singleton, candle_delta, ofFills_tradesAt_one htrade, hk, hdelta, openAt_congr hbuckets hinterval]
    by_cases heq : e.key a.intervalS = k
    · subst heq
      have hne : ¬(a.intervalS, current) = (e.key a.intervalS).2 := by
        intro hsame
        exact ne_of_lt hlt (congrArg Prod.snd hsame).symm
      rw [openAt_some (k := e.key a.intervalS) hget, if_neg hne, if_pos rfl, one_mul, mul_one]
    · rw [if_neg heq, one_mul, mul_one]

/-- The trade comes too late. -/
theorem stages_drop (h : a.Good es) (hinterval : a'.intervalS = a.intervalS) (hbuckets : a'.buckets = a.buckets)
    (hrecent : a'.recentBars = a.recentBars) : Stages es [] a (none, a') := by
  have hgood : a'.Good (es ++ []) := by
    rw [List.append_nil]
    refine ⟨?_, ?_, ?_⟩
    · rw [hbuckets]
      exact h.distinct
    · rw [hbuckets, hinterval]
      exact h.opened
    · rw [hrecent, hinterval]
      exact h.recent
  refine ⟨hinterval, hgood, fun _ hb => absurd hb.symm (Option.some_ne_none _), ?_⟩
  intro k _
  show barsAt k [] * a'.openAt k = a.openAt k * 1
  rw [barsAt_nil, one_mul, mul_one, openAt_congr hbuckets hinterval]

/-- The event, where it was not dropped. -/
def gained (e : BarEvent) (a a' : BarAggregator) : List BarEvent := if a'.lateTicksDropped = a.lateTicksDropped then [e] else []

theorem Stages.of_taken {b : Option Bar} (h : Stages es [e] a (b, a')) (hdropped : a'.lateTicksDropped = a.lateTicksDropped) :
    Stages es (gained e a a') a (b, a') := by
  rw [gained, if_pos hdropped]
  exact h

theorem stage_stages (h : a.Good es) (htrade : e.IsTrade) : Stages es (gained e a (a.stage e).2) a (a.stage e) := by
  obtain ⟨htype, price, quantity, hprice, hquantity, -, hpos⟩ := htrade
  have hfill : e.fill? = some ⟨price, quantity⟩ := by
    unfold BarEvent.fill?
    rw [hprice, hquantity]
    exact if_neg (not_not_intro htype)
  have hobserve : a.observe e = match a.buckets.get? e.instrumentId with
      | none => (none, { a with
          lastRevisionDelta := none
          buckets := a.buckets.set e.instrumentId (bucketStart a.intervalS e.exchangeTimestamp, .seed price quantity) })
      | some (current, d) =>
        if current < bucketStart a.intervalS e.exchangeTimestamp then
          (some (d.bar e.instrumentId a.intervalS current), {
            BarAggregator.cache (d.bar e.instrumentId a.intervalS current) { a with lastRevisionDelta := none } with
            buckets := a.buckets.set e.instrumentId (bucketStart a.intervalS e.exchangeTimestamp, .seed price quantity) })
        else if bucketStart a.intervalS e.exchangeTimestamp < current then
          late e.instrumentId (bucketStart a.intervalS e.exchangeTimestamp) current price quantity { a with lastRevisionDelta := none }
        else (none, { a with
          lastRevisionDelta := none
          buckets := a.buckets.set e.instrumentId (current, d.update price quantity) }) := by
    unfold observe
    rw [hprice, hquantity]
    exact if_neg (not_not_intro htype)
  unfold stage
  rw [hobserve]
  rcases hget : a.buckets.get? e.instrumentId with _ | ⟨current, d⟩
  · dsimp only
    have hnone : ∀ k : BarKey, k.1 = e.instrumentId → a.openAt k = 1 := fun k hk => openAt_none (hk ▸ hget)
    refine Stages.of_taken ?_ ?_
    · refine stages_open h hfill hpos rfl ?_ (fun k hk _ _ => hnone k hk) rfl rfl rfl
      rw [hnone _ rfl, one_mul, Bucket.candle_seed]
    · rfl
  · dsimp only
    by_cases hlt : current < bucketStart a.intervalS e.exchangeTimestamp
    · rw [if_pos hlt]
      dsimp only [cache]
      refine Stages.of_taken ?_ ?_
      · exact stages_seal h hfill hpos hget hlt rfl rfl rfl
      · rfl
    · rw [if_neg hlt]
      by_cases hlate : bucketStart a.intervalS e.exchangeTimestamp < current
      · rw [if_pos hlate]
        unfold late
        rcases hrev : revisable e.instrumentId (bucketStart a.intervalS e.exchangeTimestamp) current { a with lastRevisionDelta := none }
          with _ | bar
        · have hdropped : gained e a { a with lastRevisionDelta := none, lateTicksDropped := a.lateTicksDropped + 1 } = [] :=
            if_neg (Nat.succ_ne_self _)
          dsimp only
          rw [hdropped]
          exact stages_drop h rfl rfl rfl
        · unfold revisable at hrev
          split at hrev
          · obtain ⟨bars, hbars, hbar⟩ := Option.bind_eq_some_iff.mp hrev
            dsimp only
            refine Stages.of_taken ?_ ?_
            · exact stages_revise h hfill hpos hget hlate hbars hbar rfl rfl rfl
            · rfl
          · cases hrev
      · rw [if_neg hlate]
        have hsame : current = bucketStart a.intervalS e.exchangeTimestamp := le_antisymm (not_lt.mp hlate) (not_lt.mp hlt)
        dsimp only
        have hvolume := (h.opened _ current d hget).1
        have hopen : ∀ k : BarKey, k.1 = e.instrumentId → a.openAt k = if (a.intervalS, current) = k.2 then (d.candle : WithOne (Candle ℚ)) else 1 :=
          fun k hk => openAt_some (hk ▸ hget)
        refine Stages.of_taken ?_ ?_
        · refine stages_open h hfill (d := d.update price quantity) (add_pos hvolume hpos) rfl ?_ ?_ rfl rfl ?_
          · have hkey : (a.intervalS, current) = (e.key a.intervalS).2 := by
              rw [hsame]
              rfl
            rw [hopen _ rfl, if_pos hkey, Bucket.candle_update, WithOne.coe_mul]
          · intro k hi hk hne
            rw [hopen k hi, if_neg]
            intro heq
            refine hne (Prod.ext hi ?_)
            rw [← heq, hsame]
            rfl
          · rw [hsame]
        · rfl

theorem stage_interval (h : a.Good es) (htrade : e.IsTrade) : (a.stage e).2.intervalS = a.intervalS := (stage_stages h htrade).interval

/-- What was open is handed on. -/
theorem barsAt_flush (h : a.Good es) {k : BarKey} (hk : k.2.1 = a.intervalS) : barsAt k a.flush.1 = a.openAt k := by
  obtain ⟨i, s, start⟩ := k
  dsimp only at hk
  subst hk
  unfold flush
  dsimp only
  have hother : ∀ kvs : List (String × ℚ × Bucket), (∀ kv ∈ kvs, kv.1 ≠ i) →
      barsAt (i, a.intervalS, start) (kvs.map (fun kv => kv.2.2.bar kv.1 a.intervalS kv.2.1)) = 1 := by
    intro kvs hkvs
    refine barsAt_eq_one ?_
    intro b hb
    obtain ⟨kv, hkv, rfl⟩ := List.mem_map.mp hb
    exact fun heq => hkvs kv hkv (congrArg Prod.fst heq)
  rcases hget : a.buckets.get? i with _ | ⟨current, d⟩
  · rw [openAt_none hget]
    refine hother _ ?_
    rintro kv hkv rfl
    exact Dict.get?_eq_none_iff.mp hget (List.mem_map_of_mem hkv)
  · obtain ⟨l, r, hitems, -, herase⟩ := h.distinct.split hget
    have hne : ∀ kv ∈ l ++ r, kv.1 ≠ i := by
      intro kv hkv
      rw [← herase] at hkv
      simpa using (List.mem_filter.mp hkv).2
    have hvolume := (h.opened i current d hget).1
    have hleft := hother l (fun kv hkv => hne kv (List.mem_append_left _ hkv))
    have hright := hother r (fun kv hkv => hne kv (List.mem_append_right _ hkv))
    have hself : barsAt (i, a.intervalS, start) [d.bar i a.intervalS current] = a.openAt (i, a.intervalS, start) := by
      rw [barsAt_singleton, Bucket.candle_bar hvolume, openAt_some hget]
      by_cases hstart : current = start
      · subst hstart
        have hkey : (d.bar i a.intervalS current).key = (i, a.intervalS, current) := rfl
        rw [if_pos hkey, if_pos rfl]
      · have hkey : ¬(d.bar i a.intervalS current).key = (i, a.intervalS, start) := fun heq => hstart (congrArg (·.2.2) heq)
        have hpair : ¬(a.intervalS, current) = ((i, a.intervalS, start) : BarKey).2 := fun heq => hstart (congrArg (·.2) heq)
        rw [if_neg hkey, if_neg hpair]
    rw [hitems, List.map_append, List.map_cons, barsAt_append, ← List.singleton_append, barsAt_append, hleft, hright, one_mul, mul_one]
    exact hself

/-- Nothing is open after a flush. -/
theorem good_flush (h : a.Good es) : a.flush.2.Good es :=
  ⟨Dict.distinct_empty, fun _ _ _ hget => absurd hget.symm (Option.some_ne_none _), h.recent⟩

theorem openAt_flush (k : BarKey) (a : BarAggregator) : a.flush.2.openAt k = 1 := openAt_none rfl

theorem bar_of_flush (h : a.Good es) {b : Bar} (hb : b ∈ a.flush.1) :
    b.intervalS = a.intervalS ∧ 0 < b.volume ∧ PriceAt es b.key b.close := by
  obtain ⟨⟨i, start, d⟩, hkv, rfl⟩ := List.mem_map.mp hb
  obtain ⟨hvolume, hclose⟩ := h.opened i start d (h.distinct.get?_of_mem hkv)
  exact ⟨rfl, hvolume, hclose⟩

end BarAggregator

/-! ## The database -/

namespace BarDatabase

/-- The aggregator of an interval. -/
def aggregatorOf (intervalS : ℚ) (items : List (String × BarAggregator)) : Option BarAggregator :=
  (items.find? (fun kv => kv.2.intervalS = intervalS)).map (·.2)

/-- Intervals are distinct. -/
def Intervals (items : List (String × BarAggregator)) : Prop := (items.map (fun kv => kv.2.intervalS)).Nodup

variable {items : List (String × BarAggregator)}

theorem aggregatorOf_mem {intervalS : ℚ} {a : BarAggregator} (h : aggregatorOf intervalS items = some a) :
    ∃ code, (code, a) ∈ items ∧ a.intervalS = intervalS := by
  obtain ⟨⟨code, a'⟩, hfind, rfl⟩ := Option.map_eq_some_iff.mp h
  have hinterval := List.find?_some hfind
  exact ⟨code, List.mem_of_find?_eq_some hfind, by simpa using hinterval⟩

theorem aggregatorOf_map (f : BarAggregator → BarAggregator) (hf : ∀ kv ∈ items, (f kv.2).intervalS = kv.2.intervalS) (intervalS : ℚ) :
    aggregatorOf intervalS (items.map (fun kv => (kv.1, f kv.2))) = (aggregatorOf intervalS items).map f := by
  induction items with
  | nil => rfl
  | cons kv items ih =>
    have hkv := hf kv List.mem_cons_self
    have htail := ih (fun x hx => hf x (List.mem_cons_of_mem _ hx))
    unfold aggregatorOf at htail ⊢
    by_cases hs : kv.2.intervalS = intervalS
    · simp [hs, hkv]
    · simpa [hs, hkv] using htail

/-- The bars that the aggregators hand on are, for a key, those of the aggregator of its interval. -/
theorem filter_flatMap (hintervals : Intervals items) {f : BarAggregator → List Bar}
    (hf : ∀ kv ∈ items, ∀ b ∈ f kv.2, b.intervalS = kv.2.intervalS) (k : BarKey) :
    (items.flatMap (fun kv => f kv.2)).filter (fun b => b.key = k) =
      ((aggregatorOf k.2.1 items).map (fun a => (f a).filter (fun b => b.key = k))).getD [] := by
  induction items with
  | nil => rfl
  | cons kv items ih =>
    obtain ⟨hnew, hrest⟩ := List.nodup_cons.mp hintervals
    have htail := ih hrest (fun x hx => hf x (List.mem_cons_of_mem _ hx))
    rw [List.flatMap_cons, List.filter_append, htail]
    by_cases hs : kv.2.intervalS = k.2.1
    · have hnone : aggregatorOf k.2.1 items = none := by
        rw [aggregatorOf, Option.map_eq_none_iff, List.find?_eq_none]
        intro x hx hsame
        have hsame' : x.2.intervalS = k.2.1 := by simpa using hsame
        exact hnew (List.mem_map.mpr ⟨x, hx, hsame'.trans hs.symm⟩)
      rw [hnone]
      simp [aggregatorOf, hs]
    · have hnil : (f kv.2).filter (fun b => b.key = k) = [] := by
        refine List.filter_eq_nil_iff.mpr fun b hb hkey => ?_
        rw [decide_eq_true_eq] at hkey
        have hinterval : b.intervalS = k.2.1 := congrArg (·.2.1) hkey
        exact hs ((hf kv List.mem_cons_self b hb).symm.trans hinterval)
      rw [hnil, List.nil_append]
      simp [aggregatorOf, hs]

theorem barsAt_flatMap (hintervals : Intervals items) {f : BarAggregator → List Bar}
    (hf : ∀ kv ∈ items, ∀ b ∈ f kv.2, b.intervalS = kv.2.intervalS) (k : BarKey) :
    barsAt k (items.flatMap (fun kv => f kv.2)) = ((aggregatorOf k.2.1 items).map (fun a => barsAt k (f a))).getD 1 := by
  rw [barsAt, filter_flatMap hintervals hf]
  rcases aggregatorOf k.2.1 items with _ | a
  · rfl
  · rfl

/-- The candle of what is open for a key. -/
def openAt (k : BarKey) (db : BarDatabase) : WithOne (Candle ℚ) :=
  ((aggregatorOf k.2.1 db.aggregators.items).map (·.openAt k)).getD 1

/-- Rows, pending bars and open buckets make up the trades that were taken. -/
structure Ledger (taken : ℚ → List BarEvent) (db : BarDatabase) : Prop where
  intervals : Intervals db.aggregators.items
  conserve : ∀ k : BarKey, rowAt db.rows k * barsAt k db.pendingBars * db.openAt k = Candle.ofFills (tradesAt k (taken k.2.1))
  rows : RowsOk (fun k => PriceAt (taken k.2.1) k) db.rows
  pending : ∀ b ∈ db.pendingBars, 0 < b.volume ∧ PriceAt (taken b.intervalS) b.key b.close
  good : ∀ kv ∈ db.aggregators.items, kv.2.Good (taken kv.2.intervalS)

variable {taken : ℚ → List BarEvent} {db : BarDatabase} {e : BarEvent}

theorem Ledger.commit (h : db.Ledger taken) : db.commit.Ledger taken := by
  obtain ⟨hrows, hsum⟩ := rowAt_writeBars (P := fun k => PriceAt (taken k.2.1) k) h.rows h.pending
  refine ⟨h.intervals, ?_, hrows, fun _ hb => absurd hb List.not_mem_nil, h.good⟩
  intro k
  have hopen : db.commit.openAt k = db.openAt k := rfl
  have hrow : rowAt db.commit.rows k = rowAt db.rows k * barsAt k db.pendingBars := hsum k
  rw [hopen, hrow, ← h.conserve k]
  exact congrArg (· * db.openAt k) (mul_one _)

/-- The aggregators hand on bars and go on: the ledger goes on with what they got. -/
theorem Ledger.handOn (h : db.Ledger taken) (got : ℚ → List BarEvent) (f : BarAggregator → List Bar) (g : BarAggregator → BarAggregator)
    (hinterval : ∀ kv ∈ db.aggregators.items, (g kv.2).intervalS = kv.2.intervalS)
    (hgood : ∀ kv ∈ db.aggregators.items, (g kv.2).Good (taken kv.2.intervalS ++ got kv.2.intervalS))
    (hbar : ∀ kv ∈ db.aggregators.items, ∀ b ∈ f kv.2,
      b.intervalS = kv.2.intervalS ∧ 0 < b.volume ∧ PriceAt (taken kv.2.intervalS ++ got kv.2.intervalS) b.key b.close)
    (hconserve : ∀ kv ∈ db.aggregators.items, ∀ k : BarKey, k.2.1 = kv.2.intervalS →
      barsAt k (f kv.2) * (g kv.2).openAt k = kv.2.openAt k * Candle.ofFills (tradesAt k (got kv.2.intervalS)))
    (hnone : ∀ s, aggregatorOf s db.aggregators.items = none → got s = []) :
    Ledger (fun s => taken s ++ got s) {
      db with
      aggregators := ⟨db.aggregators.items.map (fun kv => (kv.1, g kv.2))⟩
      pendingBars := db.pendingBars ++ db.aggregators.items.flatMap (fun kv => f kv.2) } := by
  refine ⟨?_, ?_, ?_, ?_, ?_⟩
  · have hsame : (db.aggregators.items.map (fun kv => (kv.1, g kv.2))).map (fun kv => kv.2.intervalS) =
        db.aggregators.items.map (fun kv => kv.2.intervalS) := by
      rw [List.map_map]
      exact List.map_congr_left hinterval
    rw [Intervals, hsame]
    exact h.intervals
  · intro k
    have hopen := h.conserve k
    rw [tradesAt_append, Candle.ofFills_append, ← hopen, barsAt_append,
      barsAt_flatMap h.intervals (fun kv hkv b hb => (hbar kv hkv b hb).1)]
    unfold openAt
    rw [aggregatorOf_map g hinterval]
    rcases ha : aggregatorOf k.2.1 db.aggregators.items with _ | a
    · rw [hnone _ ha]
      simp [tradesAt]
    · obtain ⟨code, hmem, hs⟩ := aggregatorOf_mem ha
      have hk := hconserve (code, a) hmem k hs.symm
      dsimp only at hk
      simp only [Option.map_some, Option.getD_some]
      rw [mul_assoc, mul_assoc, hk, hs, mul_assoc, mul_assoc]
  · intro k row hrow
    obtain ⟨hvolume, hclose⟩ := h.rows k row hrow
    exact ⟨hvolume, hclose.append _⟩
  · intro b hb
    rcases List.mem_append.mp hb with hold | hnew
    · obtain ⟨hvolume, hclose⟩ := h.pending b hold
      exact ⟨hvolume, hclose.append _⟩
    · obtain ⟨kv, hkv, hb'⟩ := List.mem_flatMap.mp hnew
      obtain ⟨hs, hvolume, hclose⟩ := hbar kv hkv b hb'
      rw [hs]
      exact ⟨hvolume, hclose⟩
  · intro kv hkv
    obtain ⟨kv', hkv', rfl⟩ := List.mem_map.mp hkv
    dsimp only
    rw [hinterval kv' hkv']
    exact hgood kv' hkv'

/-- The `late_ticks_dropped` of the aggregator of an interval. -/
def dropped (intervalS : ℚ) (db : BarDatabase) : Option Nat :=
  (aggregatorOf intervalS db.aggregators.items).map (·.lateTicksDropped)

/-- The event, where the aggregator of an interval did not count it as dropped. -/
def gained (e : BarEvent) (db : BarDatabase) (intervalS : ℚ) : List BarEvent :=
  if (db.dropped intervalS).isSome ∧ (db.observe e).dropped intervalS = db.dropped intervalS then [e] else []

theorem observe_aggregators (e : BarEvent) (db : BarDatabase) :
    (db.observe e).aggregators = ⟨db.aggregators.items.map (fun kv => (kv.1, (kv.2.stage e).2))⟩ := by
  unfold observe
  dsimp only
  split <;> rfl

theorem Ledger.gained_eq (h : db.Ledger taken) (htrade : e.IsTrade) {a : BarAggregator}
    (ha : aggregatorOf a.intervalS db.aggregators.items = some a) :
    db.gained e a.intervalS = BarAggregator.gained e a (a.stage e).2 := by
  have hafter : (db.observe e).dropped a.intervalS = some (a.stage e).2.lateTicksDropped := by
    have hinterval : ∀ kv ∈ db.aggregators.items, (kv.2.stage e).2.intervalS = kv.2.intervalS :=
      fun kv hkv => BarAggregator.stage_interval (h.good kv hkv) htrade
    rw [dropped, observe_aggregators, aggregatorOf_map (fun a => (a.stage e).2) hinterval, ha]
    rfl
  rw [gained, hafter, dropped, ha]
  simp [BarAggregator.gained]

theorem aggregatorOf_of_mem (hintervals : Intervals items) {kv : String × BarAggregator} (hkv : kv ∈ items) :
    aggregatorOf kv.2.intervalS items = some kv.2 := by
  induction items with
  | nil => cases hkv
  | cons x items ih =>
    obtain ⟨hnew, hrest⟩ := List.nodup_cons.mp hintervals
    rcases List.mem_cons.mp hkv with rfl | hmem
    · simp [aggregatorOf]
    · have hne : ¬x.2.intervalS = kv.2.intervalS := fun heq => hnew (List.mem_map.mpr ⟨kv, hmem, heq.symm⟩)
      have htail := ih hrest hmem
      unfold aggregatorOf at htail ⊢
      simpa [hne] using htail

theorem Ledger.observe (h : db.Ledger taken) (htrade : e.IsTrade) :
    (db.observe e).Ledger (fun s => taken s ++ db.gained e s) := by
  have hstages : ∀ kv ∈ db.aggregators.items,
      BarAggregator.Stages (taken kv.2.intervalS) (db.gained e kv.2.intervalS) kv.2 (kv.2.stage e) := by
    intro kv hkv
    rw [h.gained_eq htrade (aggregatorOf_of_mem h.intervals hkv)]
    exact BarAggregator.stage_stages (h.good kv hkv) htrade
  have hnext := h.handOn (db.gained e) (fun a => (a.stage e).1.toList) (fun a => (a.stage e).2)
    (fun kv hkv => (hstages kv hkv).interval) (fun kv hkv => (hstages kv hkv).good)
    (fun kv hkv b hb => (hstages kv hkv).bar b (Option.mem_toList.mp hb)) (fun kv hkv => (hstages kv hkv).conserve) ?_
  · have hpending : db.aggregators.items.flatMap (fun kv => (kv.2.stage e).1.toList) =
        db.aggregators.items.filterMap (fun kv => (kv.2.stage e).1) := (List.filterMap_eq_flatMap_toList ..).symm
    rw [hpending] at hnext
    unfold BarDatabase.observe
    dsimp only
    split
    · exact hnext.commit
    · exact hnext
  · intro s hs
    rw [gained, dropped, hs]
    exact if_neg (fun hsome => nomatch hsome.1)

theorem Ledger.flush (h : db.Ledger taken) : db.flush.Ledger taken := by
  have hnext := h.handOn (fun _ => []) (fun a => a.flush.1) (fun a => a.flush.2) (fun _ _ => rfl) ?_ ?_ ?_ (fun _ _ => rfl)
  · simp only [List.append_nil] at hnext
    unfold BarDatabase.flush
    dsimp only
    split
    · exact hnext
    · exact hnext.commit
  · intro kv hkv
    rw [List.append_nil]
    exact BarAggregator.good_flush (h.good kv hkv)
  · intro kv hkv b hb
    rw [List.append_nil]
    exact BarAggregator.bar_of_flush (h.good kv hkv) hb
  · intro kv hkv k hk
    show _ = kv.2.openAt k * 1
    rw [BarAggregator.barsAt_flush (h.good kv hkv) hk, BarAggregator.openAt_flush]

/-! ## Whole runs -/

/-- A code has one interval, and an interval one code. -/
theorem code_of_interval {code code' : String} {intervalS : ℚ} (h : barIntervals.lookup code = some intervalS)
    (h' : barIntervals.lookup code' = some intervalS) : code = code' := by
  have hnodup : (barIntervals.map (·.2)).Nodup := by
    simp only [barIntervals, List.map_cons, List.map_nil]
    norm_num
  have hmem : ∀ c, barIntervals.lookup c = some intervalS → (c, intervalS) ∈ barIntervals := by
    intro c hc
    obtain ⟨l, r, hsplit, -⟩ := List.lookup_eq_some_iff.mp hc
    rw [hsplit]
    exact List.mem_append_right _ List.mem_cons_self
  exact congrArg Prod.fst (List.inj_on_of_nodup_map hnodup (hmem code h) (hmem code' h') rfl)

/-- The aggregators of a new database. -/
structure Fresh (aggregators : Dict String BarAggregator) : Prop where
  distinct : aggregators.Distinct
  interval : ∀ kv ∈ aggregators.items, barIntervals.lookup kv.1 = some kv.2.intervalS
  empty : ∀ kv ∈ aggregators.items, kv.2.buckets = .empty ∧ kv.2.recentBars = .empty
  counts : ∀ kv ∈ aggregators.items, kv.2.lateTicksDropped = 0 ∧ kv.2.lateTicksRevised = 0

theorem Fresh.intervals {aggregators : Dict String BarAggregator} (h : Fresh aggregators) : Intervals aggregators.items := by
  have hcodes : aggregators.items.Pairwise (fun x y => x.1 ≠ y.1) := List.pairwise_map.mp h.distinct
  refine List.pairwise_map.mpr (hcodes.imp_of_mem ?_)
  intro x y hx hy hne heq
  have hy' := h.interval y hy
  rw [← heq] at hy'
  exact hne (code_of_interval (h.interval x hx) hy')

theorem Fresh.empty_start : Fresh .empty where
  distinct := Dict.distinct_empty
  interval _ h := absurd h List.not_mem_nil
  empty _ h := absurd h List.not_mem_nil
  counts _ h := absurd h List.not_mem_nil

theorem Fresh.set {aggregators : Dict String BarAggregator} (h : Fresh aggregators) {code : String} {a : BarAggregator}
    (hcode : barIntervals.lookup code = some a.intervalS) (hempty : a.buckets = .empty ∧ a.recentBars = .empty)
    (hcounts : a.lateTicksDropped = 0 ∧ a.lateTicksRevised = 0) : Fresh (aggregators.set code a) where
  distinct := h.distinct.set _ _
  interval kv hkv := by
    rcases Dict.mem_of_mem_set hkv with rfl | hold
    · exact hcode
    · exact h.interval kv hold
  empty kv hkv := by
    rcases Dict.mem_of_mem_set hkv with rfl | hold
    · exact hempty
    · exact h.empty kv hold
  counts kv hkv := by
    rcases Dict.mem_of_mem_set hkv with rfl | hold
    · exact hcounts
    · exact h.counts kv hold

theorem fresh_new (intervals : List String) (revisionWindowS : ℚ) : Fresh (new intervals revisionWindowS).aggregators := by
  unfold new
  dsimp only
  generalize (if intervals = [] then barIntervals.map (·.1) else intervals) = codes
  have hstart := Fresh.empty_start
  generalize (Dict.empty : Dict String BarAggregator) = aggregators at hstart
  induction codes generalizing aggregators with
  | nil => exact hstart
  | cons code codes ih =>
    rw [List.foldl_cons]
    refine ih _ ?_
    split
    · exact hstart
    · rename_i intervalS hcode
      exact hstart.set hcode ⟨rfl, rfl⟩ ⟨rfl, rfl⟩

theorem rows_new (intervals : List String) (revisionWindowS : ℚ) : (new intervals revisionWindowS).rows = .empty := rfl

theorem pendingBars_new (intervals : List String) (revisionWindowS : ℚ) : (new intervals revisionWindowS).pendingBars = [] := rfl

theorem Ledger.new (intervals : List String) (revisionWindowS : ℚ) : (new intervals revisionWindowS).Ledger (fun _ => []) := by
  have hfresh := fresh_new intervals revisionWindowS
  refine ⟨hfresh.intervals, ?_, ?_, ?_, ?_⟩
  · intro k
    have hopen : (BarDatabase.new intervals revisionWindowS).openAt k = 1 := by
      unfold openAt
      rcases ha : aggregatorOf k.2.1 (BarDatabase.new intervals revisionWindowS).aggregators.items with _ | a
      · rfl
      · obtain ⟨code, hmem, -⟩ := aggregatorOf_mem ha
        refine BarAggregator.openAt_none ?_
        rw [(hfresh.empty _ hmem).1]
        rfl
    rw [hopen, rows_new, pendingBars_new, barsAt_nil]
    rfl
  · intro k row hrow
    rw [rows_new, Dict.get?_empty] at hrow
    cases hrow
  · intro b hb
    rw [pendingBars_new] at hb
    exact absurd hb List.not_mem_nil
  · intro kv hkv
    obtain ⟨hbuckets, hrecent⟩ := hfresh.empty kv hkv
    refine ⟨?_, ?_, ?_⟩
    · rw [hbuckets]
      exact Dict.distinct_empty
    · rw [hbuckets]
      nofun
    · rw [hrecent]
      nofun

/-- The events that the aggregator of an interval did not count as dropped, along a run. -/
def counted (intervalS : ℚ) : BarDatabase → List BarCall → List BarEvent
  | _, [] => []
  | db, .observe e :: cs => db.gained e intervalS ++ counted intervalS (db.observe e) cs
  | db, .flush :: cs => counted intervalS db.flush cs

theorem Ledger.run {cs : List BarCall} (h : db.Ledger taken) (htrades : ∀ e, .observe e ∈ cs → e.IsTrade) :
    (runFrom step db cs).Ledger (fun s => taken s ++ counted s db cs) := by
  induction cs generalizing db taken with
  | nil =>
    simp only [counted, List.append_nil]
    exact h
  | cons c cs ih =>
    have hrest : ∀ e, .observe e ∈ cs → e.IsTrade := fun e he => htrades e (List.mem_cons_of_mem _ he)
    cases c with
    | observe e =>
      have hnext := ih (h.observe (htrades e List.mem_cons_self)) hrest
      simp only [List.append_assoc] at hnext
      exact hnext
    | flush => exact ih h.flush hrest

theorem flush_pending (db : BarDatabase) : db.flush.pendingBars = [] := by
  unfold BarDatabase.flush
  dsimp only
  split
  · assumption
  · rfl

theorem flush_openAt (db : BarDatabase) (k : BarKey) : db.flush.openAt k = 1 := by
  have haggregators : db.flush.aggregators.items = db.aggregators.items.map (fun kv => (kv.1, kv.2.flush.2)) := by
    unfold BarDatabase.flush
    dsimp only
    split <;> rfl
  unfold openAt
  rw [haggregators, aggregatorOf_map (fun a => a.flush.2) (fun _ _ => rfl)]
  rcases aggregatorOf k.2.1 db.aggregators.items with _ | a
  · rfl
  · exact a.openAt_flush k

end BarDatabase

/-- A row has what its trades say. -/
structure Bar.RowOf (row : Bar) (ts : List (Fill ℚ)) : Prop where
  opening : ts.head?.map (·.price) = some row.opening
  high : IsGreatest { p | ∃ t ∈ ts, t.price = p } row.high
  low : IsLeast { p | ∃ t ∈ ts, t.price = p } row.low
  close : row.low ≤ row.close ∧ row.close ≤ row.high
  volume : row.volume = (ts.map (·.quantity)).sum
  tradeCount : row.tradeCount = ts.length
  vwap : row.vwap = (ts.map (fun t => t.price * t.quantity)).sum / (ts.map (·.quantity)).sum

theorem Bar.rowOf_of_tells {row : Bar} {es : List BarEvent} {k : BarKey} (htells : row.candle.Tells (tradesAt k es))
    (hvolume : 0 < row.volume) (hclose : PriceAt es k row.close) : row.RowOf (tradesAt k es) := by
  refine ⟨htells.first, htells.high, htells.low, ⟨htells.low.2 hclose, htells.high.2 hclose⟩, htells.volume, htells.count, ?_⟩
  have hsum : row.volume = ((tradesAt k es).map (·.quantity)).sum := htells.volume
  have hnotional : row.vwap * row.volume = ((tradesAt k es).map (fun t => t.price * t.quantity)).sum := htells.notional
  rw [← hsum, ← hnotional, mul_div_cancel_right₀ _ (ne_of_gt hvolume)]

/-- After any trades and flushes and a last flush, the row of a key has exactly the trades of the key that were not counted as
dropped, and without such trades there is no row. -/
theorem bars_conserve (intervals : List String) (revisionWindowS : ℚ) (cs : List BarCall)
    (htrades : ∀ e, .observe e ∈ cs → e.IsTrade) (k : BarKey) :
    match (runFrom BarDatabase.step (.new intervals revisionWindowS) cs).flush.rows.get? k with
    | none => tradesAt k ((BarDatabase.new intervals revisionWindowS).counted k.2.1 cs) = []
    | some row => row.RowOf (tradesAt k ((BarDatabase.new intervals revisionWindowS).counted k.2.1 cs)) := by
  have hledger := ((BarDatabase.Ledger.new intervals revisionWindowS).run htrades).flush
  have hconserve := hledger.conserve k
  rw [BarDatabase.flush_pending, BarDatabase.flush_openAt, barsAt_nil, mul_one, mul_one] at hconserve
  unfold rowAt at hconserve
  simp only [List.nil_append] at hconserve
  rcases hrow : (runFrom BarDatabase.step (.new intervals revisionWindowS) cs).flush.rows.get? k with _ | row
  · rw [hrow] at hconserve
    rcases Candle.ofFills_eq (tradesAt k ((BarDatabase.new intervals revisionWindowS).counted k.2.1 cs)) with ⟨hnil, -⟩ | ⟨c, hc, -⟩
    · exact hnil
    · rw [hc] at hconserve
      exact absurd hconserve.symm WithOne.coe_ne_one
  · rw [hrow] at hconserve
    obtain ⟨hvolume, hclose⟩ := hledger.rows k row hrow
    simp only [List.nil_append] at hclose
    rcases Candle.ofFills_eq (tradesAt k ((BarDatabase.new intervals revisionWindowS).counted k.2.1 cs)) with ⟨-, hone⟩ | ⟨c, hc, htells⟩
    · rw [hone] at hconserve
      exact absurd hconserve WithOne.coe_ne_one
    · rw [hc] at hconserve
      have hcandle : row.candle = c := WithOne.coe_injective hconserve
      rw [← hcandle] at htells
      exact Bar.rowOf_of_tells htells hvolume hclose

theorem bars_conserve_minute :
    match (runFrom BarDatabase.step (.new ["1m"] 120)
      [.observe ⟨"X", .trade, 30, some 10, some 2⟩, .observe ⟨"X", .trade, 70, some 12, some 1⟩, .flush,
        .observe ⟨"X", .trade, 40, some 11, some 1⟩]).flush.rows.get? ("X", 60, 0) with
    | none => tradesAt ("X", 60, 0) ((BarDatabase.new ["1m"] 120).counted 60
        [.observe ⟨"X", .trade, 30, some 10, some 2⟩, .observe ⟨"X", .trade, 70, some 12, some 1⟩, .flush,
          .observe ⟨"X", .trade, 40, some 11, some 1⟩]) = []
    | some row => row.RowOf (tradesAt ("X", 60, 0) ((BarDatabase.new ["1m"] 120).counted 60
        [.observe ⟨"X", .trade, 30, some 10, some 2⟩, .observe ⟨"X", .trade, 70, some 12, some 1⟩, .flush,
          .observe ⟨"X", .trade, 40, some 11, some 1⟩])) := by
  refine bars_conserve ["1m"] 120 _ ?_ ("X", 60, 0)
  intro e he
  simp only [List.mem_cons, BarCall.observe.injEq, reduceCtorEq, List.not_mem_nil, or_false, false_or] at he
  rcases he with rfl | rfl | rfl
  · exact ⟨rfl, 10, 2, rfl, rfl, by norm_num, by norm_num⟩
  · exact ⟨rfl, 12, 1, rfl, rfl, by norm_num, by norm_num⟩
  · exact ⟨rfl, 11, 1, rfl, rfl, by norm_num, by norm_num⟩

end Mdrap
