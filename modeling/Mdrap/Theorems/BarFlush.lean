import Mdrap.Theorems.Bars

/-!
# Bars and the moments of a flush

A flush empties the open buckets, so the next trade of an instrument is never late, and what is flushed cannot be revised. Where no trade
falls into an earlier bucket than one before it, a flush makes no difference; where one does, a run that flushes in time counts it and
one that does not drops it or revises a bar.
-/

namespace Mdrap

open Lib

/-! ## Runs -/

/-- The events of a run. -/
def observed (cs : List BarCall) : List BarEvent :=
  cs.filterMap (fun c => match c with
    | .observe e => some e
    | .flush => none)

namespace BarDatabase

/-- The database after a run that ends with a flush. -/
def finish (intervals : List String) (revisionWindowS : ℚ) (cs : List BarCall) : BarDatabase :=
  (runFrom step (new intervals revisionWindowS) cs).flush

/-- `late_ticks_dropped` and `late_ticks_revised` of the aggregators. -/
def lateCounts (db : BarDatabase) : List (String × Nat × Nat) :=
  db.aggregators.items.map (fun kv => (kv.1, kv.2.lateTicksDropped, kv.2.lateTicksRevised))

/-- The same tables, and the same counts. -/
structure SameBars (db db' : BarDatabase) : Prop where
  rows : ∀ k, db.rows.get? k = db'.rows.get? k
  counts : db.lateCounts = db'.lateCounts

end BarDatabase

/-- Whenever a database is flushed, it comes to the same. -/
def FlushIndependent (intervals : List String) (revisionWindowS : ℚ) (es : List BarEvent) : Prop :=
  ∀ cs cs', observed cs = es → observed cs' = es →
    (BarDatabase.finish intervals revisionWindowS cs).SameBars (BarDatabase.finish intervals revisionWindowS cs')

/-- No trade falls into an earlier bucket than a trade of the same instrument before it. -/
def NoneLate (intervalS : ℚ) (es : List BarEvent) : Prop :=
  (es.filter (fun e => e.fill?.isSome)).Pairwise (fun e e' => e.instrumentId = e'.instrumentId →
    BarAggregator.bucketStart intervalS e.exchangeTimestamp ≤ BarAggregator.bucketStart intervalS e'.exchangeTimestamp)

instance (intervalS : ℚ) (es : List BarEvent) : Decidable (NoneLate intervalS es) := inferInstanceAs (Decidable (List.Pairwise _ _))

/-! ## Merging -/

namespace Bar

/-- A row goes on with a bar. -/
def merge (row : Option Bar) (b : Bar) : Option Bar := some (row.elim b (·.upsert b))

/-- A row goes on with the bars of its key. -/
def mergeAll (k : BarKey) (row : Option Bar) (bars : List Bar) : Option Bar := (bars.filter (fun b => b.key = k)).foldl merge row

theorem mergeAll_append (k : BarKey) (row : Option Bar) (bars bars' : List Bar) :
    mergeAll k row (bars ++ bars') = mergeAll k (mergeAll k row bars) bars' := by
  simp [mergeAll]

theorem mergeAll_singleton (k : BarKey) (row : Option Bar) (b : Bar) : mergeAll k row [b] = if b.key = k then merge row b else row := by
  unfold mergeAll
  split
  · simp [*]
  · simp [*]

theorem vwap_upsert {a b : Bar} (ha : 0 ≤ a.volume) (hb : 0 ≤ b.volume) :
    (a.upsert b).vwap * (a.volume + b.volume) = a.vwap * a.volume + b.vwap * b.volume := by
  unfold upsert
  dsimp only
  split
  · rename_i hpos
    exact div_mul_cancel₀ _ (ne_of_gt hpos)
  · rename_i hzero
    have ha' : a.volume = 0 := by linarith
    have hb' : b.volume = 0 := by linarith
    rw [ha', hb']
    ring

/-- Rows without negative volumes can be merged in any order. -/
theorem upsert_assoc {a b c : Bar} (ha : 0 ≤ a.volume) (hb : 0 ≤ b.volume) (hc : 0 ≤ c.volume) :
    (a.upsert b).upsert c = a.upsert (b.upsert c) := by
  have hleft := vwap_upsert ha hb
  have hright := vwap_upsert hb hc
  have hvwap : ((a.upsert b).upsert c).vwap = (a.upsert (b.upsert c)).vwap := by
    have hl : ((a.upsert b).upsert c).vwap = if 0 < a.volume + b.volume + c.volume then
        ((a.upsert b).vwap * (a.volume + b.volume) + c.vwap * c.volume) / (a.volume + b.volume + c.volume) else c.vwap := rfl
    have hr : (a.upsert (b.upsert c)).vwap = if 0 < a.volume + (b.volume + c.volume) then
        (a.vwap * a.volume + (b.upsert c).vwap * (b.volume + c.volume)) / (a.volume + (b.volume + c.volume)) else (b.upsert c).vwap := rfl
    rw [hl, hr, hleft, hright, ← add_assoc, ← add_assoc]
    split
    · rfl
    · rename_i hzero
      have hbc : ¬0 < b.volume + c.volume := by linarith
      exact (if_neg hbc).symm
  have hrest : ∀ x y : Bar, x.instrumentId = y.instrumentId → x.intervalS = y.intervalS → x.bucketStart = y.bucketStart →
      x.opening = y.opening → x.high = y.high → x.low = y.low → x.close = y.close → x.volume = y.volume →
      x.tradeCount = y.tradeCount → x.vwap = y.vwap → x = y := by
    rintro ⟨⟩ ⟨⟩ rfl rfl rfl rfl rfl rfl rfl rfl rfl rfl
    rfl
  exact hrest _ _ rfl rfl rfl rfl (max_assoc ..) (min_assoc ..) rfl (add_assoc ..) (Nat.add_assoc ..) hvwap

theorem merge_merge {row : Option Bar} {b c : Bar} (hrow : ∀ r ∈ row, 0 ≤ r.volume) (hb : 0 ≤ b.volume) (hc : 0 ≤ c.volume) :
    merge (merge row b) c = merge row (b.upsert c) := by
  cases row with
  | none => rfl
  | some r => exact congrArg some (upsert_assoc (hrow r rfl) hb hc)

/-- What bars without negative volumes make has none. -/
theorem volume_foldl_merge {row : Option Bar} {bars : List Bar} (hrow : ∀ r ∈ row, 0 ≤ r.volume) (hbars : ∀ b ∈ bars, 0 ≤ b.volume) :
    ∀ r ∈ bars.foldl merge row, 0 ≤ r.volume := by
  induction bars generalizing row with
  | nil => exact hrow
  | cons b bars ih =>
    have hb := hbars b List.mem_cons_self
    refine ih ?_ (fun b' hb' => hbars b' (List.mem_cons_of_mem _ hb'))
    rintro r hr
    cases row with
    | none =>
      cases hr
      exact hb
    | some r' =>
      cases hr
      exact add_nonneg (hrow r' rfl) hb

end Bar

namespace Bucket

/-- Without a volume there is no weight. -/
structure Sane (d : Bucket) : Prop where
  volume : 0 ≤ d.volume
  weight : d.volume = 0 → d.vwapNum = 0

theorem Sane.seed (price : ℚ) {quantity : ℚ} (h : 0 ≤ quantity) : (Bucket.seed price quantity).Sane where
  volume := h
  weight hzero := by
    have hquantity : quantity = 0 := hzero
    simp [Bucket.seed, hquantity]

theorem Sane.update {d : Bucket} (hd : d.Sane) (price : ℚ) {quantity : ℚ} (h : 0 ≤ quantity) : (d.update price quantity).Sane where
  volume := add_nonneg hd.volume h
  weight hzero := by
    have hsum : d.volume + quantity = 0 := hzero
    have hvolume := hd.volume
    have hquantity : quantity = 0 := by linarith
    have hweight := hd.weight (by linarith)
    simp [Bucket.update, hquantity, hweight]

@[simp] theorem key_bar (i : String) (s start : ℚ) (d : Bucket) : (d.bar i s start).key = (i, s, start) := rfl

/-- A bucket with one more trade is its bar, merged with that of the trade. -/
theorem bar_update {d : Bucket} (hd : d.Sane) (price quantity : ℚ) (i : String) (s start : ℚ) :
    (d.update price quantity).bar i s start = (d.bar i s start).upsert ((seed price quantity).bar i s start) := by
  have hvolume := hd.volume
  have hweight : (d.bar i s start).vwap * d.volume = d.vwapNum := by
    unfold bar
    dsimp only
    split
    · rename_i hpos
      exact div_mul_cancel₀ _ (ne_of_gt hpos)
    · have hzero : d.volume = 0 := by linarith
      rw [hd.weight hzero, hzero, mul_zero]
  have hseed : ((seed price quantity).bar i s start).vwap = price := by
    unfold bar seed
    dsimp only
    split
    · rename_i hpos
      exact mul_div_cancel_right₀ _ (ne_of_gt hpos)
    · rfl
  have hvwap : ((d.update price quantity).bar i s start).vwap =
      ((d.bar i s start).upsert ((seed price quantity).bar i s start)).vwap := by
    have hl : ((d.update price quantity).bar i s start).vwap =
        if 0 < d.volume + quantity then (d.vwapNum + price * quantity) / (d.volume + quantity) else price := rfl
    have hr : ((d.bar i s start).upsert ((seed price quantity).bar i s start)).vwap = if 0 < d.volume + quantity then
        ((d.bar i s start).vwap * d.volume + ((seed price quantity).bar i s start).vwap * quantity) / (d.volume + quantity)
        else ((seed price quantity).bar i s start).vwap := rfl
    rw [hl, hr, hweight, hseed]
  have hbar : ∀ v w : ℚ, v = w → (⟨i, s, start, d.opening, max d.high price, min d.low price, price, d.volume + quantity,
      d.tradeCount + 1, v⟩ : Bar) = ⟨i, s, start, d.opening, max d.high price, min d.low price, price, d.volume + quantity,
      d.tradeCount + 1, w⟩ := by
    rintro v _ rfl
    rfl
  exact hbar _ _ hvwap

end Bucket

/-! ## What a flush would leave -/

namespace BarDatabase

/-- The bars of the open buckets. -/
def openBars (db : BarDatabase) : List Bar := db.aggregators.items.flatMap (fun kv => kv.2.flush.1)

/-- The row of a key after a flush. -/
def settled (k : BarKey) (db : BarDatabase) : Option Bar := Bar.mergeAll k (db.rows.get? k) (db.pendingBars ++ db.openBars)

theorem get?_writeBars (k : BarKey) (rows : Dict BarKey Bar) (bars : List Bar) :
    (writeBars rows bars).get? k = Bar.mergeAll k (rows.get? k) bars := by
  induction bars generalizing rows with
  | nil => rfl
  | cons b bars ih =>
    rw [writeBars, List.foldl_cons, ← writeBars, ih]
    have hwrite : (writeBar rows b).get? k = if b.key = k then Bar.merge (rows.get? k) b else rows.get? k := by
      unfold writeBar
      by_cases hk : b.key = k
      · subst hk
        rcases hrow : rows.get? b.key with _ | row
        · simp [Bar.merge]
        · simp [Bar.merge]
      · have hne : k ≠ b.key := Ne.symm hk
        split
        · rw [Dict.get?_set_ne _ hne, if_neg hk]
        · rw [Dict.get?_set_ne _ hne, if_neg hk]
    rw [hwrite]
    unfold Bar.mergeAll
    by_cases hk : b.key = k
    · simp [hk]
    · simp [hk]

theorem settled_commit (k : BarKey) (db : BarDatabase) : db.commit.settled k = db.settled k := by
  have hcommit : db.commit.settled k = Bar.mergeAll k ((writeBars db.rows db.pendingBars).get? k) db.openBars := rfl
  rw [hcommit, get?_writeBars, ← Bar.mergeAll_append]
  rfl

/-- The rows after a flush are those that are settled. -/
theorem get?_flush (k : BarKey) (db : BarDatabase) : db.flush.rows.get? k = db.settled k := by
  unfold flush settled
  dsimp only
  split
  · rename_i hnil
    rw [openBars, hnil]
    rfl
  · exact get?_writeBars k db.rows _

theorem openBars_flush (db : BarDatabase) : db.flush.openBars = [] := by
  have haggregators : db.flush.aggregators.items = db.aggregators.items.map (fun kv => (kv.1, kv.2.flush.2)) := by
    unfold flush
    dsimp only
    split <;> rfl
  rw [openBars, haggregators, List.flatMap_map, List.flatMap_eq_nil_iff]
  exact fun kv _ => rfl

/-- A flush changes nothing that is settled. -/
theorem settled_flush (k : BarKey) (db : BarDatabase) : db.flush.settled k = db.settled k := by
  rw [settled, openBars_flush, flush_pending, get?_flush]
  rfl

end BarDatabase

/-! ## One aggregator -/

namespace BarAggregator

/-- How often a trade was late. -/
def lateTicks (a : BarAggregator) : Nat := a.lateTicksDropped + a.lateTicksRevised

/-- What an event does to the open buckets. -/
inductive Staged (e : BarEvent) (a : BarAggregator) (r : Option Bar × BarAggregator) : Prop where
  | other (htrade : e.fill? = none) (hbar : r.1 = none) (hbuckets : r.2.buckets = a.buckets) (hlate : r.2.lateTicks = a.lateTicks)
  | fresh (t : Fill ℚ) (htrade : e.fill? = some t) (hget : a.buckets.get? e.instrumentId = none) (hbar : r.1 = none)
    (hbuckets : r.2.buckets = a.buckets.set e.instrumentId (bucketStart a.intervalS e.exchangeTimestamp, .seed t.price t.quantity))
    (hlate : r.2.lateTicks = a.lateTicks)
  | sealed (t : Fill ℚ) (current : ℚ) (d : Bucket) (htrade : e.fill? = some t)
    (hget : a.buckets.get? e.instrumentId = some (current, d)) (hcurrent : current < bucketStart a.intervalS e.exchangeTimestamp)
    (hbar : r.1 = some (d.bar e.instrumentId a.intervalS current))
    (hbuckets : r.2.buckets = a.buckets.set e.instrumentId (bucketStart a.intervalS e.exchangeTimestamp, .seed t.price t.quantity))
    (hlate : r.2.lateTicks = a.lateTicks)
  | same (t : Fill ℚ) (d : Bucket) (htrade : e.fill? = some t)
    (hget : a.buckets.get? e.instrumentId = some (bucketStart a.intervalS e.exchangeTimestamp, d)) (hbar : r.1 = none)
    (hbuckets : r.2.buckets = a.buckets.set e.instrumentId
      (bucketStart a.intervalS e.exchangeTimestamp, d.update t.price t.quantity))
    (hlate : r.2.lateTicks = a.lateTicks)
  | behind (t : Fill ℚ) (current : ℚ) (d : Bucket) (htrade : e.fill? = some t)
    (hget : a.buckets.get? e.instrumentId = some (current, d)) (hcurrent : bucketStart a.intervalS e.exchangeTimestamp < current)
    (hlate : r.2.lateTicks = a.lateTicks + 1)

theorem lateTicks_late (i : String) (start current price quantity : ℚ) (a : BarAggregator) :
    (a.late i start current price quantity).2.lateTicks = a.lateTicks + 1 ∧
      (a.late i start current price quantity).2.intervalS = a.intervalS := by
  unfold late
  split
  · exact ⟨Nat.add_right_comm .., rfl⟩
  · exact ⟨rfl, rfl⟩

theorem stage_staged (e : BarEvent) (a : BarAggregator) : Staged e a (a.stage e) ∧ (a.stage e).2.intervalS = a.intervalS := by
  unfold stage observe
  rcases hprice : e.price with _ | price
  · exact ⟨.other (by simp [BarEvent.fill?, hprice]) rfl rfl rfl, rfl⟩
  · rcases hquantity : e.quantity with _ | quantity
    · exact ⟨.other (by simp [BarEvent.fill?, hprice, hquantity]) rfl rfl rfl, rfl⟩
    · dsimp only
      by_cases htype : e.eventType = .trade
      · have htrade : e.fill? = some ⟨price, quantity⟩ := by simp [BarEvent.fill?, hprice, hquantity, htype]
        rw [if_neg (not_not.mpr htype)]
        rcases hget : a.buckets.get? e.instrumentId with _ | ⟨current, d⟩
        · exact ⟨.fresh ⟨price, quantity⟩ htrade hget rfl rfl rfl, rfl⟩
        · dsimp only
          by_cases hlt : current < bucketStart a.intervalS e.exchangeTimestamp
          · rw [if_pos hlt]
            exact ⟨.sealed ⟨price, quantity⟩ current d htrade hget hlt rfl rfl rfl, rfl⟩
          · rw [if_neg hlt]
            by_cases hgt : bucketStart a.intervalS e.exchangeTimestamp < current
            · rw [if_pos hgt]
              obtain ⟨hlate, hinterval⟩ := lateTicks_late e.instrumentId (bucketStart a.intervalS e.exchangeTimestamp) current price
                quantity { a with lastRevisionDelta := none }
              generalize late e.instrumentId (bucketStart a.intervalS e.exchangeTimestamp) current price quantity
                { a with lastRevisionDelta := none } = r at hlate hinterval ⊢
              obtain ⟨_ | bar, a'⟩ := r
              · exact ⟨.behind ⟨price, quantity⟩ current d htrade hget hgt hlate, hinterval⟩
              · dsimp only
                split
                · exact ⟨.behind ⟨price, quantity⟩ current d htrade hget hgt hlate, hinterval⟩
                · exact ⟨.behind ⟨price, quantity⟩ current d htrade hget hgt hlate, hinterval⟩
            · have heq : current = bucketStart a.intervalS e.exchangeTimestamp := le_antisymm (not_lt.mp hgt) (not_lt.mp hlt)
              rw [if_neg hgt]
              subst heq
              exact ⟨.same ⟨price, quantity⟩ d htrade hget rfl rfl rfl, rfl⟩
      · rw [if_pos htype]
        exact ⟨.other (by simp [BarEvent.fill?, hprice, hquantity, htype]) rfl rfl rfl, rfl⟩

/-- The bar of the open bucket of a key. -/
def openBar (k : BarKey) (a : BarAggregator) : List Bar :=
  match a.buckets.get? k.1 with
  | none => []
  | some (start, d) => if start = k.2.2 then [d.bar k.1 a.intervalS start] else []

theorem filter_flush {a : BarAggregator} (h : a.buckets.Distinct) {k : BarKey} (hk : k.2.1 = a.intervalS) :
    a.flush.1.filter (fun b => b.key = k) = a.openBar k := by
  obtain ⟨i, s, start⟩ := k
  dsimp only at hk
  subst hk
  have hother : ∀ kvs : List (String × ℚ × Bucket), (∀ kv ∈ kvs, kv.1 ≠ i) →
      (kvs.map (fun kv => kv.2.2.bar kv.1 a.intervalS kv.2.1)).filter (fun b => b.key = (i, a.intervalS, start)) = [] := by
    intro kvs hkvs
    refine List.filter_eq_nil_iff.mpr fun b hb hkey => ?_
    obtain ⟨kv, hkv, rfl⟩ := List.mem_map.mp hb
    rw [decide_eq_true_eq] at hkey
    exact hkvs kv hkv (congrArg Prod.fst hkey)
  unfold flush openBar
  dsimp only
  rcases hget : a.buckets.get? i with _ | ⟨current, d⟩
  · refine hother _ ?_
    rintro kv hkv rfl
    exact Dict.get?_eq_none_iff.mp hget (List.mem_map_of_mem hkv)
  · obtain ⟨l, r, hitems, -, herase⟩ := h.split hget
    have hne : ∀ kv ∈ l ++ r, kv.1 ≠ i := by
      intro kv hkv
      rw [← herase] at hkv
      simpa using (List.mem_filter.mp hkv).2
    have hleft := hother l (fun kv hkv => hne kv (List.mem_append_left _ hkv))
    have hright := hother r (fun kv hkv => hne kv (List.mem_append_right _ hkv))
    rw [hitems, List.map_append, List.map_cons, List.filter_append, List.filter_cons, hleft, hright]
    simp [Bucket.bar, Bar.key]

theorem mergeAll_flush {a : BarAggregator} (h : a.buckets.Distinct) {k : BarKey} (hk : k.2.1 = a.intervalS) (row : Option Bar) :
    Bar.mergeAll k row a.flush.1 = (a.openBar k).foldl Bar.merge row := by
  rw [Bar.mergeAll, filter_flush h hk]

/-- The open buckets have distinct instruments, and are sane. -/
structure Steady (a : BarAggregator) : Prop where
  distinct : a.buckets.Distinct
  sane : ∀ i start d, a.buckets.get? i = some (start, d) → d.Sane

theorem Steady.set {a a' : BarAggregator} (h : a.Steady) {i : String} {start : ℚ} {d : Bucket} (hd : d.Sane)
    (hbuckets : a'.buckets = a.buckets.set i (start, d)) : a'.Steady where
  distinct := by
    rw [hbuckets]
    exact h.distinct.set _ _
  sane j start' d' hget := by
    rw [hbuckets, Dict.get?_set] at hget
    split at hget
    · cases hget
      exact hd
    · exact h.sane j start' d' hget

/-- What is open after a bucket was set. -/
theorem openBar_set {a a' : BarAggregator} {i : String} {start : ℚ} {d : Bucket} (hinterval : a'.intervalS = a.intervalS)
    (hbuckets : a'.buckets = a.buckets.set i (start, d)) (k : BarKey) :
    a'.openBar k = if k.1 = i then (if start = k.2.2 then [d.bar i a.intervalS start] else []) else a.openBar k := by
  unfold openBar
  rw [hbuckets, Dict.get?_set, hinterval]
  by_cases hi : k.1 = i
  · rw [if_pos hi, if_pos hi, hi]
  · rw [if_neg hi, if_neg hi]

theorem openBar_congr {a a' : BarAggregator} (hinterval : a'.intervalS = a.intervalS) (hbuckets : a'.buckets = a.buckets)
    (k : BarKey) : a'.openBar k = a.openBar k := by
  unfold openBar
  rw [hbuckets, hinterval]

end BarAggregator

/-- The bar of a single trade. -/
def BarEvent.bar? (e : BarEvent) (intervalS : ℚ) : Option Bar :=
  e.fill?.map (fun t => (Bucket.seed t.price t.quantity).bar e.instrumentId intervalS
    (BarAggregator.bucketStart intervalS e.exchangeTimestamp))

/-- The quantity of a trade is not negative. -/
def BarEvent.HasQuantity (e : BarEvent) : Prop := ∀ t, e.fill? = some t → 0 ≤ t.quantity

namespace BarAggregator

/-- The event is not behind the open bucket of its instrument. -/
def InTime (e : BarEvent) (a : BarAggregator) : Prop :=
  e.fill?.isSome → ∀ current d, a.buckets.get? e.instrumentId = some (current, d) → current ≤ bucketStart a.intervalS e.exchangeTimestamp

/-- An aggregator takes a trade that is not late into the bar of its bucket. -/
theorem stage_merge {e : BarEvent} {a : BarAggregator} (h : a.Steady) (hquantity : e.HasQuantity) (hin : a.InTime e) :
    (a.stage e).2.Steady ∧ (a.stage e).2.lateTicks = a.lateTicks ∧ (∀ b ∈ (a.stage e).1, b.intervalS = a.intervalS ∧ 0 ≤ b.volume) ∧
      ∀ (k : BarKey) (row : Option Bar), k.2.1 = a.intervalS → (∀ r ∈ row, 0 ≤ r.volume) →
        Bar.mergeAll k row ((a.stage e).1.toList ++ (a.stage e).2.flush.1) =
          Bar.mergeAll k (Bar.mergeAll k row a.flush.1) (e.bar? a.intervalS).toList := by
  obtain ⟨hstaged, hinterval⟩ := stage_staged e a
  generalize a.stage e = r at hstaged hinterval ⊢
  cases hstaged with
  | other htrade hbar hbuckets hlate =>
    have hsteady : r.2.Steady := ⟨hbuckets ▸ h.distinct, hbuckets ▸ h.sane⟩
    refine ⟨hsteady, hlate, by simp [hbar], fun k row hk _ => ?_⟩
    rw [hbar, BarEvent.bar?, htrade, Bar.mergeAll_append, mergeAll_flush hsteady.distinct (hk.trans hinterval.symm),
      mergeAll_flush h.distinct hk, openBar_congr hinterval hbuckets]
    rfl
  | fresh t htrade hget hbar hbuckets hlate =>
    have hsteady : r.2.Steady := h.set (.seed _ (hquantity t htrade)) hbuckets
    refine ⟨hsteady, hlate, by simp [hbar], fun k row hk _ => ?_⟩
    obtain ⟨j, s, start⟩ := k
    dsimp only at hk
    subst hk
    rw [hbar, BarEvent.bar?, htrade, Bar.mergeAll_append, mergeAll_flush hsteady.distinct hinterval.symm,
      mergeAll_flush h.distinct rfl, openBar_set hinterval hbuckets, Option.map_some, Option.toList_some, Bar.mergeAll_singleton,
      Bucket.key_bar]
    by_cases hj : j = e.instrumentId
    · subst hj
      have hopen : a.openBar (e.instrumentId, a.intervalS, start) = [] := by simp [openBar, hget]
      rw [hopen]
      by_cases hstart : bucketStart a.intervalS e.exchangeTimestamp = start
      · simp [hstart, Bar.mergeAll]
      · simp [hstart, Bar.mergeAll]
    · simp [hj, Ne.symm hj, Bar.mergeAll]
  | sealed t current d htrade hget hcurrent hbar hbuckets hlate =>
    have hsteady : r.2.Steady := h.set (.seed _ (hquantity t htrade)) hbuckets
    refine ⟨hsteady, hlate, ?_, fun k row hk _ => ?_⟩
    · rw [hbar]
      rintro b hb
      cases hb
      exact ⟨rfl, (h.sane _ _ _ hget).volume⟩
    obtain ⟨j, s, start⟩ := k
    dsimp only at hk
    subst hk
    rw [hbar, BarEvent.bar?, htrade, Bar.mergeAll_append, mergeAll_flush hsteady.distinct hinterval.symm,
      mergeAll_flush h.distinct rfl, openBar_set hinterval hbuckets, Option.map_some, Option.toList_some, Option.toList_some,
      Bar.mergeAll_singleton, Bar.mergeAll_singleton, Bucket.key_bar, Bucket.key_bar]
    by_cases hj : j = e.instrumentId
    · subst hj
      have hopen : a.openBar (e.instrumentId, a.intervalS, start) =
          if current = start then [d.bar e.instrumentId a.intervalS current] else [] := by
        simp [openBar, hget]
      rw [hopen]
      by_cases hstart : bucketStart a.intervalS e.exchangeTimestamp = start
      · have hne : current ≠ start := by
          rw [← hstart]
          exact ne_of_lt hcurrent
        simp [hstart, hne]
      · by_cases hcur : current = start
        · simp [hstart, hcur]
        · simp [hstart, hcur]
    · simp [hj, Ne.symm hj]
  | same t d htrade hget hbar hbuckets hlate =>
    have hsane := h.sane _ _ _ hget
    have hsteady : r.2.Steady := h.set (hsane.update _ (hquantity t htrade)) hbuckets
    refine ⟨hsteady, hlate, by simp [hbar], fun k row hk hrow => ?_⟩
    obtain ⟨j, s, start⟩ := k
    dsimp only at hk
    subst hk
    rw [hbar, BarEvent.bar?, htrade, Bar.mergeAll_append, mergeAll_flush hsteady.distinct hinterval.symm,
      mergeAll_flush h.distinct rfl, openBar_set hinterval hbuckets, Option.map_some, Option.toList_some, Bar.mergeAll_singleton,
      Bucket.key_bar]
    by_cases hj : j = e.instrumentId
    · subst hj
      have hopen : a.openBar (e.instrumentId, a.intervalS, start) = if bucketStart a.intervalS e.exchangeTimestamp = start then
          [d.bar e.instrumentId a.intervalS (bucketStart a.intervalS e.exchangeTimestamp)] else [] := by
        simp [openBar, hget]
      rw [hopen]
      by_cases hstart : bucketStart a.intervalS e.exchangeTimestamp = start
      · have hbar : 0 ≤ (d.bar e.instrumentId a.intervalS start).volume := hsane.volume
        have htick : 0 ≤ ((Bucket.seed t.price t.quantity).bar e.instrumentId a.intervalS start).volume := hquantity t htrade
        simp [hstart, Bar.mergeAll, Bucket.bar_update hsane, Bar.merge_merge hrow hbar htick]
      · simp [hstart, Bar.mergeAll]
    · simp [hj, Ne.symm hj, Bar.mergeAll]
  | behind t current d htrade hget hcurrent _ =>
    have hle := hin (by simp [htrade]) current d hget
    linarith

end BarAggregator

/-! ## The database -/

namespace BarDatabase

/-- No volume is negative, and the aggregators are steady. -/
structure Ready (db : BarDatabase) : Prop where
  intervals : Intervals db.aggregators.items
  rows : ∀ k, ∀ row ∈ db.rows.get? k, 0 ≤ row.volume
  pending : ∀ b ∈ db.pendingBars, 0 ≤ b.volume
  steady : ∀ kv ∈ db.aggregators.items, kv.2.Steady

variable {db : BarDatabase}

/-- The bars of a single event. -/
def barsOf (items : List (String × ℚ)) (e : BarEvent) : List Bar := items.filterMap (fun kv => e.bar? kv.2)

/-- The codes and intervals of the aggregators. -/
def tracked (db : BarDatabase) : List (String × ℚ) := db.aggregators.items.map (fun kv => (kv.1, kv.2.intervalS))

theorem Ready.write (h : db.Ready) {bars : List Bar} (hbars : ∀ b ∈ bars, 0 ≤ b.volume) (k : BarKey) :
    ∀ row ∈ (writeBars db.rows bars).get? k, 0 ≤ row.volume := by
  rw [get?_writeBars]
  exact Bar.volume_foldl_merge (h.rows k) (fun b hb => hbars b (List.mem_of_mem_filter hb))

theorem Ready.commit (h : db.Ready) : db.commit.Ready :=
  ⟨h.intervals, h.write h.pending, fun _ hb => absurd hb List.not_mem_nil, h.steady⟩

theorem intervals_map {items : List (String × BarAggregator)} (h : Intervals items) (f : BarAggregator → BarAggregator)
    (hf : ∀ kv ∈ items, (f kv.2).intervalS = kv.2.intervalS) : Intervals (items.map (fun kv => (kv.1, f kv.2))) := by
  unfold Intervals at h ⊢
  rw [List.map_map]
  rwa [List.map_congr_left (g := fun kv => kv.2.intervalS) hf]

/-- A row goes on with what the aggregator of its interval hands on. -/
theorem mergeAll_flatMap {items : List (String × BarAggregator)} (h : Intervals items) {f : BarAggregator → List Bar}
    (hf : ∀ kv ∈ items, ∀ b ∈ f kv.2, b.intervalS = kv.2.intervalS) (k : BarKey) (row : Option Bar) :
    Bar.mergeAll k row (items.flatMap (fun kv => f kv.2)) =
      ((aggregatorOf k.2.1 items).map (fun a => Bar.mergeAll k row (f a))).getD row := by
  rw [Bar.mergeAll, filter_flatMap h hf]
  rcases aggregatorOf k.2.1 items with _ | a
  · rfl
  · rfl

theorem volume_flush {a : BarAggregator} (h : a.Steady) : ∀ b ∈ a.flush.1, b.intervalS = a.intervalS ∧ 0 ≤ b.volume := by
  intro b hb
  obtain ⟨⟨i, start, d⟩, hkv, rfl⟩ := List.mem_map.mp hb
  exact ⟨rfl, (h.sane i start d (h.distinct.get?_of_mem hkv)).volume⟩

theorem Ready.flush (h : db.Ready) : db.flush.Ready := by
  have hbars : ∀ b ∈ db.pendingBars ++ db.aggregators.items.flatMap (fun kv => kv.2.flush.1), 0 ≤ b.volume := by
    intro b hb
    rcases List.mem_append.mp hb with hb | hb
    · exact h.pending b hb
    · obtain ⟨kv, hkv, hb⟩ := List.mem_flatMap.mp hb
      exact (volume_flush (h.steady kv hkv) b hb).2
  have hsteady : ∀ kv ∈ db.aggregators.items.map (fun kv => (kv.1, kv.2.flush.2)), kv.2.Steady := by
    intro kv hkv
    obtain ⟨kv', -, rfl⟩ := List.mem_map.mp hkv
    exact ⟨Dict.distinct_empty, fun _ _ _ hget => absurd hget.symm (Option.some_ne_none _)⟩
  have hnext : Ready { db with
      aggregators := ⟨db.aggregators.items.map (fun kv => (kv.1, kv.2.flush.2))⟩
      pendingBars := db.pendingBars ++ db.aggregators.items.flatMap (fun kv => kv.2.flush.1) } :=
    ⟨intervals_map h.intervals (fun a => a.flush.2) (fun _ _ => rfl), h.rows, hbars, hsteady⟩
  unfold BarDatabase.flush
  dsimp only
  split
  · exact hnext
  · exact hnext.commit

/-- An event that is late for no aggregator is taken into the rows of its buckets. -/
theorem Ready.observe (h : db.Ready) {e : BarEvent} (hquantity : e.HasQuantity) (hin : ∀ kv ∈ db.aggregators.items, kv.2.InTime e) :
    (db.observe e).Ready ∧ ∀ k, (db.observe e).settled k = Bar.mergeAll k (db.settled k) (barsOf db.tracked e) := by
  have hstage : ∀ kv ∈ db.aggregators.items, _ := fun kv hkv => BarAggregator.stage_merge (h.steady kv hkv) hquantity (hin kv hkv)
  have hinterval : ∀ kv ∈ db.aggregators.items, (kv.2.stage e).2.intervalS = kv.2.intervalS :=
    fun kv _ => (BarAggregator.stage_staged e kv.2).2
  have hpending : ∀ b ∈ db.pendingBars ++ db.aggregators.items.filterMap (fun kv => (kv.2.stage e).1), 0 ≤ b.volume := by
    intro b hb
    rcases List.mem_append.mp hb with hb | hb
    · exact h.pending b hb
    · obtain ⟨kv, hkv, hb⟩ := List.mem_filterMap.mp hb
      exact ((hstage kv hkv).2.2.1 b hb).2
  have hsteady : ∀ kv ∈ db.aggregators.items.map (fun kv => (kv.1, (kv.2.stage e).2)), kv.2.Steady := by
    intro kv hkv
    obtain ⟨kv', hkv', rfl⟩ := List.mem_map.mp hkv
    exact (hstage kv' hkv').1
  have hnext : Ready { db with
      aggregators := ⟨db.aggregators.items.map (fun kv => (kv.1, (kv.2.stage e).2))⟩
      pendingBars := db.pendingBars ++ db.aggregators.items.filterMap (fun kv => (kv.2.stage e).1) } :=
    ⟨intervals_map h.intervals (fun a => (a.stage e).2) hinterval, h.rows, hpending, hsteady⟩
  have hsettled : ∀ k, settled k { db with
      aggregators := ⟨db.aggregators.items.map (fun kv => (kv.1, (kv.2.stage e).2))⟩
      pendingBars := db.pendingBars ++ db.aggregators.items.filterMap (fun kv => (kv.2.stage e).1) } =
      Bar.mergeAll k (db.settled k) (barsOf db.tracked e) := by
    intro k
    have hbars : barsOf db.tracked e = db.aggregators.items.flatMap (fun kv => (e.bar? kv.2.intervalS).toList) := by
      rw [barsOf, tracked, List.filterMap_map, List.filterMap_eq_flatMap_toList]
      rfl
    have hout : ∀ kv ∈ db.aggregators.items, ∀ b ∈ (kv.2.stage e).1.toList, b.intervalS = kv.2.intervalS :=
      fun kv hkv b hb => ((hstage kv hkv).2.2.1 b (Option.mem_toList.mp hb)).1
    have hopen : ∀ kv ∈ db.aggregators.items, ∀ b ∈ (kv.2.stage e).2.flush.1, b.intervalS = kv.2.intervalS :=
      fun kv hkv b hb => (volume_flush (hstage kv hkv).1 b hb).1.trans (hinterval kv hkv)
    have hbar : ∀ kv ∈ db.aggregators.items, ∀ b ∈ (e.bar? kv.2.intervalS).toList, b.intervalS = kv.2.intervalS := by
      intro kv _ b hb
      obtain ⟨t, -, rfl⟩ := Option.map_eq_some_iff.mp (Option.mem_toList.mp hb)
      rfl
    have hrow := Bar.volume_foldl_merge (h.rows k) (fun b hb => h.pending b (List.mem_of_mem_filter hb) : ∀ b ∈ db.pendingBars.filter
      (fun b => b.key = k), 0 ≤ b.volume)
    unfold settled openBars
    dsimp only
    rw [List.flatMap_map, List.filterMap_eq_flatMap_toList, List.append_assoc, Bar.mergeAll_append, Bar.mergeAll_append,
      Bar.mergeAll_append, hbars,
      mergeAll_flatMap h.intervals (f := fun a => (a.stage e).1.toList) hout,
      mergeAll_flatMap h.intervals (f := fun a => (a.stage e).2.flush.1) hopen,
      mergeAll_flatMap h.intervals (f := fun a => a.flush.1) (fun kv hkv b hb => (volume_flush (h.steady kv hkv) b hb).1),
      mergeAll_flatMap h.intervals (f := fun a => (e.bar? a.intervalS).toList) hbar]
    rcases ha : aggregatorOf k.2.1 db.aggregators.items with _ | a
    · rfl
    · obtain ⟨code, hmem, hs⟩ := aggregatorOf_mem ha
      have hmerge := (hstage _ hmem).2.2.2 k _ hs.symm hrow
      rw [Bar.mergeAll_append] at hmerge
      exact hmerge
  unfold BarDatabase.observe
  dsimp only
  split
  · exact ⟨hnext.commit, fun k => (settled_commit k _).trans (hsettled k)⟩
  · exact ⟨hnext, hsettled⟩

theorem tracked_observe (e : BarEvent) (db : BarDatabase) : (db.observe e).tracked = db.tracked := by
  unfold tracked
  rw [observe_aggregators, List.map_map]
  exact List.map_congr_left fun kv _ => congrArg (kv.1, ·) (BarAggregator.stage_staged e kv.2).2

theorem flush_aggregators (db : BarDatabase) :
    db.flush.aggregators = ⟨db.aggregators.items.map (fun kv => (kv.1, kv.2.flush.2))⟩ := by
  unfold BarDatabase.flush
  dsimp only
  split <;> rfl

theorem tracked_flush (db : BarDatabase) : db.flush.tracked = db.tracked := by
  unfold tracked
  rw [flush_aggregators, List.map_map]
  rfl

end BarDatabase

/-! ## Trades in order -/

theorem noneLate_append {s : ℚ} {es : List BarEvent} {e : BarEvent} :
    NoneLate s (es ++ [e]) ↔ NoneLate s es ∧ (e.fill?.isSome → ∀ e' ∈ es, e'.fill?.isSome → e'.instrumentId = e.instrumentId →
      BarAggregator.bucketStart s e'.exchangeTimestamp ≤ BarAggregator.bucketStart s e.exchangeTimestamp) := by
  unfold NoneLate
  rw [List.filter_append, List.pairwise_append]
  by_cases htrade : e.fill?.isSome
  · simp [htrade]
  · simp [htrade]

theorem NoneLate.of_append {s : ℚ} {es es' : List BarEvent} (h : NoneLate s (es ++ es')) : NoneLate s es := by
  unfold NoneLate at h
  rw [List.filter_append] at h
  exact (List.pairwise_append.mp h).1

namespace BarAggregator

/-- An open bucket is that of a trade. -/
def Seen (es : List BarEvent) (a : BarAggregator) : Prop :=
  ∀ i start d, a.buckets.get? i = some (start, d) →
    ∃ e ∈ es, e.fill?.isSome ∧ e.instrumentId = i ∧ bucketStart a.intervalS e.exchangeTimestamp = start

/-- While no trade was late, they came in order, and none is ahead of the open bucket. -/
def Ordered (es : List BarEvent) (a : BarAggregator) : Prop :=
  a.lateTicks = 0 → NoneLate a.intervalS es ∧ ∀ e ∈ es, e.fill?.isSome →
    ∃ start d, a.buckets.get? e.instrumentId = some (start, d) ∧ bucketStart a.intervalS e.exchangeTimestamp ≤ start

theorem Seen.inTime {es : List BarEvent} {a : BarAggregator} (h : a.Seen es) {e : BarEvent} (hnone : NoneLate a.intervalS (es ++ [e])) :
    a.InTime e := by
  intro htrade current d hget
  obtain ⟨e', he', htrade', hi, rfl⟩ := h _ _ _ hget
  exact (noneLate_append.mp hnone).2 htrade e' he' htrade' hi

theorem Seen.stage {es : List BarEvent} {a : BarAggregator} (h : a.Seen es) {e : BarEvent} (hin : a.InTime e) :
    (a.stage e).2.Seen (es ++ [e]) := by
  obtain ⟨hstaged, hinterval⟩ := stage_staged e a
  generalize a.stage e = r at hstaged hinterval ⊢
  have hold : ∀ i start d, a.buckets.get? i = some (start, d) → ∃ e' ∈ es ++ [e], e'.fill?.isSome ∧ e'.instrumentId = i ∧
      bucketStart a.intervalS e'.exchangeTimestamp = start := by
    intro i start d hget
    obtain ⟨e', he', hrest⟩ := h i start d hget
    exact ⟨e', List.mem_append_left _ he', hrest⟩
  have hset : ∀ t d, e.fill? = some t → r.2.buckets = a.buckets.set e.instrumentId
      (bucketStart a.intervalS e.exchangeTimestamp, d) → r.2.Seen (es ++ [e]) := by
    intro t d htrade hbuckets i start d' hget
    rw [hinterval]
    rw [hbuckets, Dict.get?_set] at hget
    split at hget
    · rename_i hi
      cases hget
      exact ⟨e, List.mem_append_right _ (List.mem_singleton_self _), by simp [htrade], hi.symm, rfl⟩
    · exact hold i start d' hget
  cases hstaged with
  | other htrade hbar hbuckets hlate =>
    intro i start d hget
    rw [hinterval]
    rw [hbuckets] at hget
    exact hold i start d hget
  | fresh t htrade hget hbar hbuckets hlate => exact hset t _ htrade hbuckets
  | sealed t current d htrade hget hcurrent hbar hbuckets hlate => exact hset t _ htrade hbuckets
  | same t d htrade hget hbar hbuckets hlate => exact hset t _ htrade hbuckets
  | behind t current d htrade hget hcurrent hlate =>
    have hle := hin (by simp [htrade]) current d hget
    linarith

theorem Ordered.stage {es : List BarEvent} {a : BarAggregator} (h : a.Ordered es) (e : BarEvent) : (a.stage e).2.Ordered (es ++ [e]) := by
  obtain ⟨hstaged, hinterval⟩ := stage_staged e a
  generalize a.stage e = r at hstaged hinterval ⊢
  -- a trade whose bucket is set, with no open bucket behind it
  have hset : ∀ t d, e.fill? = some t → r.2.lateTicks = a.lateTicks →
      (∀ start d, a.buckets.get? e.instrumentId = some (start, d) → start ≤ bucketStart a.intervalS e.exchangeTimestamp) →
      r.2.buckets = a.buckets.set e.instrumentId (bucketStart a.intervalS e.exchangeTimestamp, d) → r.2.Ordered (es ++ [e]) := by
    intro t d htrade hlate hbefore hbuckets hzero
    obtain ⟨hnone, hahead⟩ := h (hlate ▸ hzero)
    rw [hinterval]
    refine ⟨noneLate_append.mpr ⟨hnone, fun _ e' he' htrade' hi => ?_⟩, fun e' he' htrade' => ?_⟩
    · obtain ⟨start, d', hget, hle⟩ := hahead e' he' htrade'
      exact hle.trans (hbefore start d' (hi ▸ hget))
    · rw [hbuckets]
      by_cases hi : e'.instrumentId = e.instrumentId
      · refine ⟨_, d, by rw [hi, Dict.get?_set_self], ?_⟩
        rcases List.mem_append.mp he' with he' | he'
        · obtain ⟨start, d', hget, hle⟩ := hahead e' he' htrade'
          exact hle.trans (hbefore start d' (hi ▸ hget))
        · rw [List.mem_singleton.mp he']
      · rw [Dict.get?_set_ne _ hi]
        rcases List.mem_append.mp he' with he' | he'
        · exact hahead e' he' htrade'
        · exact absurd (congrArg BarEvent.instrumentId (List.mem_singleton.mp he')) hi
  cases hstaged with
  | other htrade hbar hbuckets hlate =>
    intro hzero
    obtain ⟨hnone, hahead⟩ := h (hlate ▸ hzero)
    rw [hinterval, hbuckets]
    refine ⟨noneLate_append.mpr ⟨hnone, by simp [htrade]⟩, fun e' he' htrade' => ?_⟩
    rcases List.mem_append.mp he' with he' | he'
    · exact hahead e' he' htrade'
    · rw [List.mem_singleton.mp he', htrade] at htrade'
      cases htrade'
  | fresh t htrade hget hbar hbuckets hlate => exact hset t _ htrade hlate (by simp [hget]) hbuckets
  | sealed t current d htrade hget hcurrent hbar hbuckets hlate =>
    refine hset t _ htrade hlate ?_ hbuckets
    rw [hget]
    rintro start d' ⟨⟩
    exact hcurrent.le
  | same t d htrade hget hbar hbuckets hlate =>
    refine hset t _ htrade hlate ?_ hbuckets
    rw [hget]
    rintro start d' ⟨⟩
    exact le_refl _
  | behind t current d htrade hget hcurrent hlate =>
    intro hzero
    omega

end BarAggregator

/-! ## Whole runs -/

namespace BarDatabase

/-- No trade was late, and what is settled are the trades, in order. -/
structure Settled (start : BarDatabase) (es : List BarEvent) (db : BarDatabase) : Prop where
  ready : db.Ready
  tracked : db.tracked = start.tracked
  seen : ∀ kv ∈ db.aggregators.items, kv.2.Seen es
  inTime : ∀ kv ∈ db.aggregators.items, kv.2.lateTicks = 0
  rows : ∀ k, db.settled k = Bar.mergeAll k none (es.flatMap (barsOf start.tracked))

variable {start db : BarDatabase} {es : List BarEvent}

theorem Settled.observe (h : Settled start es db) {e : BarEvent} (hquantity : e.HasQuantity)
    (hnone : ∀ kv ∈ start.tracked, NoneLate kv.2 (es ++ [e])) : Settled start (es ++ [e]) (db.observe e) := by
  have hin : ∀ kv ∈ db.aggregators.items, kv.2.InTime e := by
    intro kv hkv
    have hmem : (kv.1, kv.2.intervalS) ∈ start.tracked := by
      rw [← h.tracked]
      exact List.mem_map.mpr ⟨kv, hkv, rfl⟩
    have hlater : NoneLate kv.2.intervalS (es ++ [e]) := hnone (kv.1, kv.2.intervalS) hmem
    exact (h.seen kv hkv).inTime hlater
  obtain ⟨hready, hrows⟩ := h.ready.observe hquantity hin
  refine ⟨hready, (tracked_observe e db).trans h.tracked, fun kv hkv => ?_, fun kv hkv => ?_, fun k => ?_⟩
  · rw [observe_aggregators] at hkv
    obtain ⟨kv', hkv', rfl⟩ := List.mem_map.mp hkv
    exact (h.seen kv' hkv').stage (hin kv' hkv')
  · rw [observe_aggregators] at hkv
    obtain ⟨kv', hkv', rfl⟩ := List.mem_map.mp hkv
    exact (BarAggregator.stage_merge (h.ready.steady kv' hkv') hquantity (hin kv' hkv')).2.1.trans (h.inTime kv' hkv')
  · rw [hrows, h.rows, h.tracked, List.flatMap_append, Bar.mergeAll_append, List.flatMap_singleton]

theorem Settled.flush (h : Settled start es db) : Settled start es db.flush := by
  refine ⟨h.ready.flush, (tracked_flush db).trans h.tracked, fun kv hkv => ?_, fun kv hkv => ?_, fun k => ?_⟩
  · rw [flush_aggregators] at hkv
    obtain ⟨kv', -, rfl⟩ := List.mem_map.mp hkv
    exact fun _ _ _ hget => absurd hget.symm (Option.some_ne_none _)
  · rw [flush_aggregators] at hkv
    obtain ⟨kv', hkv', rfl⟩ := List.mem_map.mp hkv
    exact h.inTime kv' hkv'
  · rw [settled_flush, h.rows]

theorem Settled.new (intervals : List String) (revisionWindowS : ℚ) :
    Settled (new intervals revisionWindowS) [] (new intervals revisionWindowS) := by
  have hfresh := fresh_new intervals revisionWindowS
  have hsteady : ∀ kv ∈ (BarDatabase.new intervals revisionWindowS).aggregators.items, kv.2.Steady := by
    intro kv hkv
    have hempty := (hfresh.empty kv hkv).1
    refine ⟨by rw [hempty]; exact Dict.distinct_empty, fun i start d hget => ?_⟩
    rw [hempty, Dict.get?_empty] at hget
    cases hget
  have hready : Ready (BarDatabase.new intervals revisionWindowS) := by
    refine ⟨hfresh.intervals, fun k row hrow => ?_, fun b hb => ?_, hsteady⟩
    · rw [rows_new, Dict.get?_empty] at hrow
      cases hrow
    · rw [pendingBars_new] at hb
      exact absurd hb List.not_mem_nil
  refine ⟨hready, rfl, fun kv hkv => ?_, fun kv hkv => ?_, fun k => ?_⟩
  · unfold BarAggregator.Seen
    rw [(hfresh.empty kv hkv).1]
    nofun
  · obtain ⟨hdropped, hrevised⟩ := hfresh.counts kv hkv
    rw [BarAggregator.lateTicks, hdropped, hrevised]
  · have hopen : (BarDatabase.new intervals revisionWindowS).openBars = [] := by
      refine List.flatMap_eq_nil_iff.mpr fun kv hkv => ?_
      rw [BarAggregator.flush, (hfresh.empty kv hkv).1]
      rfl
    rw [settled, hopen]
    rfl

/-- A run of trades that come in order. -/
theorem Settled.run {cs : List BarCall} (h : Settled start es db) (hquantity : ∀ e ∈ observed cs, e.HasQuantity)
    (hnone : ∀ kv ∈ start.tracked, NoneLate kv.2 (es ++ observed cs)) : Settled start (es ++ observed cs) (runFrom step db cs) := by
  induction cs generalizing db es with
  | nil => simpa [observed] using h
  | cons c cs ih =>
    cases c with
    | observe e =>
      have hobserved : observed (.observe e :: cs) = e :: observed cs := rfl
      rw [hobserved] at hquantity hnone ⊢
      have hsplit : es ++ e :: observed cs = (es ++ [e]) ++ observed cs := by simp
      rw [hsplit] at hnone ⊢
      have hnext := h.observe (hquantity e List.mem_cons_self) fun kv hkv => (hnone kv hkv).of_append
      exact ih hnext (fun e' he' => hquantity e' (List.mem_cons_of_mem _ he')) hnone
    | flush => exact ih h.flush hquantity hnone

theorem lateCounts_of_zero (h : ∀ kv ∈ db.aggregators.items, kv.2.lateTicks = 0) :
    db.lateCounts = db.tracked.map (fun c => (c.1, 0, 0)) := by
  unfold lateCounts tracked
  rw [List.map_map]
  refine List.map_congr_left fun kv hkv => ?_
  have hzero := h kv hkv
  unfold BarAggregator.lateTicks at hzero
  have hdropped : kv.2.lateTicksDropped = 0 := by omega
  have hrevised : kv.2.lateTicksRevised = 0 := by omega
  rw [hdropped, hrevised]
  rfl

/-- Where another database with the same counts had no late trade, there was none. -/
theorem lateTicks_of_counts {db' : BarDatabase} (h : db.lateCounts = db'.lateCounts)
    (hzero : ∀ kv ∈ db'.aggregators.items, kv.2.lateTicks = 0) : ∀ kv ∈ db.aggregators.items, kv.2.lateTicks = 0 := by
  intro kv hkv
  have hmem : (kv.1, kv.2.lateTicksDropped, kv.2.lateTicksRevised) ∈ db'.lateCounts := by
    rw [← h]
    exact List.mem_map.mpr ⟨kv, hkv, rfl⟩
  rw [lateCounts_of_zero hzero] at hmem
  obtain ⟨c, -, heq⟩ := List.mem_map.mp hmem
  obtain ⟨-, hdropped, hrevised⟩ : c.1 = kv.1 ∧ 0 = kv.2.lateTicksDropped ∧ 0 = kv.2.lateTicksRevised := by simpa using heq
  rw [BarAggregator.lateTicks, ← hdropped, ← hrevised]

/-- A run without a flush: while no trade is late, the trades come in order. -/
theorem ordered_run {db : BarDatabase} {seen : List BarEvent} (h : ∀ kv ∈ db.aggregators.items, kv.2.Ordered seen)
    (es : List BarEvent) : (∀ kv ∈ (runFrom step db (es.map .observe)).aggregators.items, kv.2.Ordered (seen ++ es)) ∧
      (runFrom step db (es.map .observe)).tracked = db.tracked := by
  induction es generalizing db seen with
  | nil => exact ⟨by simpa using h, rfl⟩
  | cons e es ih =>
    have hnext : ∀ kv ∈ (db.observe e).aggregators.items, kv.2.Ordered (seen ++ [e]) := by
      intro kv hkv
      rw [observe_aggregators] at hkv
      obtain ⟨kv', hkv', rfl⟩ := List.mem_map.mp hkv
      exact (h kv' hkv').stage e
    obtain ⟨hordered, htracked⟩ := ih hnext
    rw [List.append_assoc] at hordered
    exact ⟨hordered, htracked.trans (tracked_observe e db)⟩

/-- A run that flushes after each trade: none is late. -/
theorem flushed_run {db : BarDatabase} (h : ∀ kv ∈ db.aggregators.items, kv.2.buckets = .empty ∧ kv.2.lateTicks = 0)
    (es : List BarEvent) :
    ∀ kv ∈ (runFrom step db (es.flatMap (fun e => [.observe e, .flush]))).aggregators.items, kv.2.buckets = .empty ∧ kv.2.lateTicks = 0 := by
  induction es generalizing db with
  | nil => exact h
  | cons e es ih =>
    refine ih fun kv hkv => ?_
    have hitems : kv ∈ (db.observe e).flush.aggregators.items := hkv
    rw [flush_aggregators, observe_aggregators] at hitems
    obtain ⟨kv', hkv', rfl⟩ := List.mem_map.mp hitems
    obtain ⟨kv'', hkv'', rfl⟩ := List.mem_map.mp hkv'
    obtain ⟨hempty, hzero⟩ := h kv'' hkv''
    refine ⟨rfl, ?_⟩
    change (kv''.2.stage e).2.lateTicks = 0
    cases (BarAggregator.stage_staged e kv''.2).1 with
    | other htrade hbar hbuckets hlate => exact hlate.trans hzero
    | fresh t htrade hget hbar hbuckets hlate => exact hlate.trans hzero
    | sealed t current d htrade hget hcurrent hbar hbuckets hlate => exact hlate.trans hzero
    | same t d htrade hget hbar hbuckets hlate => exact hlate.trans hzero
    | behind t current d htrade hget hcurrent hlate =>
      rw [hempty] at hget
      cases hget

end BarDatabase

theorem observed_map_observe (es : List BarEvent) : observed (es.map .observe) = es := by
  induction es with
  | nil => rfl
  | cons e es ih => exact congrArg (e :: ·) ih

theorem observed_flushed (es : List BarEvent) : observed (es.flatMap (fun e => [.observe e, .flush])) = es := by
  induction es with
  | nil => rfl
  | cons e es ih => exact congrArg (e :: ·) ih

/-- A trade at a time. -/
def tradeAtTime (timestamp : ℚ) : BarEvent := ⟨"AAPL", .trade, timestamp, some 10, some 1⟩

end Mdrap
