import Mdrap.Security.RateLimit

/-!
# Token buckets

What a source has been granted and what has not been refilled of it is short in its own bucket, or in the shared one where it has none
of its own: eviction takes only buckets that are short of nothing. Only a source that goes from the shared bucket to a full one of its
own has more than its capacity.
-/

namespace Mdrap

namespace RateLimit

open Lib

/-! ## What a bucket is short of -/

/-- How many tokens a bucket is short of; one that is not there is full. -/
def deficit (rate capacity : ℚ) (buckets : Dict String (ℚ × ℚ)) (k : String) (now : ℚ) : ℚ :=
  match buckets.get? k with
  | none => 0
  | some (tokens, t) => max 0 (capacity - tokens - rate * (now - t))

variable {rate capacity now : ℚ} {buckets : Dict String (ℚ × ℚ)} {k : String}

theorem deficit_nonneg : 0 ≤ deficit rate capacity buckets k now := by
  unfold deficit
  split
  · exact le_refl 0
  · exact le_max_left ..

theorem deficit_of_none (h : buckets.get? k = none) : deficit rate capacity buckets k now = 0 := by
  simp [deficit, h]

theorem deficit_of_absent (h : buckets.contains k = false) : deficit rate capacity buckets k now = 0 :=
  deficit_of_none (by simpa [Dict.contains] using h)

/-- A bucket that was just updated. -/
theorem deficit_set_self (v : ℚ) : deficit rate capacity (buckets.set k (v, now)) k now = max 0 (capacity - v) := by
  simp [deficit]

theorem deficit_set_ne {j : String} (h : j ≠ k) (v : ℚ × ℚ) :
    deficit rate capacity (buckets.set k v) j now = deficit rate capacity buckets j now := by
  simp [deficit, Dict.get?_set_ne _ h]

/-- The refill of a bucket leaves what it is short of. -/
theorem refilled_eq : min capacity (((buckets.get? k).getD (capacity, now)).1 + (now - ((buckets.get? k).getD (capacity, now)).2) * rate) =
    capacity - deficit rate capacity buckets k now := by
  unfold deficit
  split
  · rename_i hnone
    simp [hnone]
  · rename_i tokens t hsome
    have hcommute : capacity - tokens - rate * (now - t) = capacity - (tokens + (now - t) * rate) := by ring
    rw [hsome, Option.getD_some, hcommute, ← min_sub_sub_left, sub_zero, sub_sub_cancel]

/-- A bucket is short of less later. -/
theorem deficit_later (hrate : 0 ≤ rate) {t : ℚ} (h : t ≤ now) :
    deficit rate capacity buckets k now = max 0 (deficit rate capacity buckets k t - rate * (now - t)) := by
  have hout := mul_nonneg hrate (sub_nonneg.mpr h)
  unfold deficit
  split
  · exact (max_eq_left (sub_nonpos.mpr hout)).symm
  · rename_i tokens t' _
    have hsplit : rate * (now - t') = rate * (t - t') + rate * (now - t) := by ring
    rw [hsplit, ← sub_sub, ← max_sub_sub_right, ← max_assoc, max_eq_left (sub_nonpos.mpr hout)]

/-! ## Where a call goes -/

namespace TokenBucketRateLimiter

variable {l : TokenBucketRateLimiter} {source : String}

/-- An idle bucket is short of nothing. -/
theorem deficit_of_idle (hd : l.buckets.Distinct) (h : k ∈ l.idleSources now) :
    deficit l.rate l.capacity l.buckets k now = 0 := by
  obtain ⟨⟨k', tokens, t⟩, hkv, rfl⟩ := List.mem_map.mp h
  obtain ⟨hmem, hidle⟩ := List.mem_filter.mp hkv
  have hfull : l.capacity ≤ tokens + (now - t) * l.rate := (of_decide_eq_true hidle).2
  have hnone : l.capacity - tokens - l.rate * (now - t) ≤ 0 := by
    rw [mul_comm, sub_sub]
    exact sub_nonpos.mpr hfull
  simp [deficit, hd.get?_of_mem hmem, hnone]

/-- What a place for a call is: buckets that were kept, and the source or the shared bucket, the latter for a source without one. -/
theorem place_cases (l : TokenBucketRateLimiter) (now : ℚ) (source : String) :
    ∃ evicted, evicted ⊆ l.idleSources now ∧ (l.place now source).1 = evicted.foldl Dict.erase l.buckets ∧
      (evicted ≠ [] → l.buckets.contains source = false) ∧
      ((l.place now source).2 = source ∧
          ((l.place now source).1.contains source = true ∨ (l.place now source).1.size < 1024) ∨
        (l.place now source).2 = "__overflow__" ∧ (l.place now source).1.contains source = false) := by
  by_cases hfull : 1024 ≤ l.buckets.size ∧ l.buckets.contains source = false
  · simp only [place, if_pos hfull]
    refine ⟨(l.idleSources now).take (l.buckets.size - 1024 + 1), List.take_subset .., ?_, fun _ => hfull.2, ?_⟩
    · split <;> rfl
    · split
      · rename_i h
        exact .inr ⟨rfl, h.2⟩
      · rename_i h
        refine .inl ⟨rfl, ?_⟩
        by_cases hsize : 1024 ≤ (((l.idleSources now).take (l.buckets.size - 1024 + 1)).foldl Dict.erase l.buckets).size
        · exact .inl (by simpa using fun hout => h ⟨hsize, hout⟩)
        · exact .inr (not_le.mp hsize)
  · simp only [place, if_neg hfull]
    refine ⟨[], List.nil_subset _, rfl, fun h => absurd rfl h, .inl ⟨trivial, ?_⟩⟩
    by_cases hsize : 1024 ≤ l.buckets.size
    · exact .inl (by simpa using fun hout => hfull ⟨hsize, hout⟩)
    · exact .inr (not_le.mp hsize)

theorem distinct_place (hd : l.buckets.Distinct) : (l.place now source).1.Distinct := by
  obtain ⟨evicted, -, hplace, -, -⟩ := l.place_cases now source
  rw [hplace]
  exact hd.foldl_erase evicted

/-- Eviction leaves every bucket as short as it was. -/
theorem deficit_place (hd : l.buckets.Distinct) (k : String) :
    deficit l.rate l.capacity (l.place now source).1 k now = deficit l.rate l.capacity l.buckets k now := by
  obtain ⟨evicted, hidle, hplace, -, -⟩ := l.place_cases now source
  by_cases hk : k ∈ evicted
  · have hnone : (l.place now source).1.get? k = none := by rw [hplace, Dict.get?_foldl_erase, if_pos hk]
    rw [deficit_of_none hnone, deficit_of_idle hd (hidle hk)]
  · have hkept : (l.place now source).1.get? k = l.buckets.get? k := by rw [hplace, Dict.get?_foldl_erase, if_neg hk]
    rw [deficit, deficit, hkept]

theorem contains_of_place (h : (l.place now source).1.contains k = true) : l.buckets.contains k = true := by
  obtain ⟨evicted, -, hplace, -, -⟩ := l.place_cases now source
  rw [Dict.contains, hplace, Dict.get?_foldl_erase] at h
  split at h
  · cases h
  · exact h

/-- A source keeps its own bucket. -/
theorem place_of_contains (h : l.buckets.contains source = true) : l.place now source = (l.buckets, source) := by
  simp [place, h]

/-- What `allow` answers, and what it makes of the bucket. -/
theorem allow_eq (l : TokenBucketRateLimiter) (now : ℚ) (source : String) (tokens : ℚ) :
    l.allow now source tokens =
      let (kept, k) := l.place now source
      let left := l.capacity - deficit l.rate l.capacity kept k now
      if tokens ≤ left then (true, { l with buckets := kept.set k (left - tokens, now) })
      else (false, { l with buckets := kept.set k (left, now) }) := by
  simp only [allow, refilled_eq]

end TokenBucketRateLimiter

/-! ## What was granted -/

namespace Run

variable {r : Run} {c : Call}

/-- What a bucket of the limiter is short of. -/
def short (r : Run) (k : String) (now : ℚ) : ℚ := deficit r.limiter.rate r.limiter.capacity r.limiter.buckets k now

/-- What of the tokens granted to a source has not been refilled. -/
def owed (r : Run) (s : String) (now : ℚ) : ℚ := leftAt r.limiter.rate (r.grantedTo s) now

/-- What of the tokens granted to a source from the shared bucket has not been refilled. -/
def owedShared (r : Run) (s : String) (now : ℚ) : ℚ := leftAt r.limiter.rate (r.overflowed s) now

/-- What was granted is short in the bucket that it was taken from, or has been refilled. -/
structure Accounted (r : Run) (now : ℚ) : Prop where
  distinct : r.limiter.buckets.Distinct
  before : ∀ g ∈ r.granted, g.now ≤ now
  ordered : r.granted.Pairwise (fun g g' => g'.now ≤ g.now)
  own : ∀ s, s ≠ "__overflow__" → r.limiter.buckets.contains s = true → r.owed s now ≤ r.short s now
  away : ∀ s, s = "__overflow__" ∨ r.limiter.buckets.contains s = false → r.owed s now ≤ r.owedShared s now
  shared : ∀ s, r.owedShared s now ≤ r.short "__overflow__" now
  holds : ∀ s, Lib.Holds r.limiter.rate r.limiter.capacity (r.grantedTo s)

theorem accounted_start (rate capacity now : ℚ) : (start rate capacity).Accounted now where
  distinct := Dict.distinct_empty
  before := by simp [start]
  ordered := List.Pairwise.nil
  own := by simp [start, TokenBucketRateLimiter.new]
  away := fun _ _ => le_refl _
  shared := fun _ => deficit_nonneg
  holds := fun _ => trivial

namespace Accounted

theorem later (hrate : 0 ≤ r.limiter.rate) {t : ℚ} (h : r.Accounted t) (hnow : t ≤ now) : r.Accounted now := by
  have hdown : ∀ x y : ℚ, x ≤ y → max 0 (x - r.limiter.rate * (now - t)) ≤ max 0 (y - r.limiter.rate * (now - t)) :=
    fun x y hxy => max_le_max_left 0 (sub_le_sub_right hxy _)
  refine ⟨h.distinct, fun g hg => (h.before g hg).trans hnow, h.ordered, ?_, ?_, ?_, h.holds⟩
  · intro s hs hin
    rw [owed, short, leftAt_later hrate hnow, deficit_later hrate hnow]
    exact hdown _ _ (h.own s hs hin)
  · intro s hs
    rw [owed, owedShared, leftAt_later hrate hnow, leftAt_later hrate hnow]
    exact hdown _ _ (h.away s hs)
  · intro s
    rw [owedShared, short, leftAt_later hrate hnow, deficit_later hrate hnow]
    exact hdown _ _ (h.shared s)

/-- The eviction of full buckets. -/
theorem evict (h : r.Accounted now) (source : String) :
    Accounted { r with limiter := { r.limiter with buckets := (r.limiter.place now source).1 } } now := by
  have hshort : ∀ s, deficit r.limiter.rate r.limiter.capacity (r.limiter.place now source).1 s now = r.short s now :=
    TokenBucketRateLimiter.deficit_place h.distinct
  refine ⟨TokenBucketRateLimiter.distinct_place h.distinct, h.before, h.ordered, ?_, ?_, ?_, h.holds⟩
  · intro s hs hin
    rw [short, hshort]
    exact h.own s hs (TokenBucketRateLimiter.contains_of_place hin)
  · intro s hs
    by_cases hin : s ≠ "__overflow__" ∧ r.limiter.buckets.contains s = true
    · have hzero : r.short s now = 0 := by
        rw [← hshort]
        exact deficit_of_absent (hs.resolve_left hin.1)
      exact ((h.own s hin.1 hin.2).trans_eq hzero).trans (leftAt_nonneg ..)
    · refine h.away s ?_
      rw [not_and_or, not_not, Bool.not_eq_true] at hin
      exact hin
  · intro s
    rw [short, hshort]
    exact h.shared s

/-- What a source owes is short in the bucket that its call goes to. -/
theorem owed_le (h : r.Accounted now) {s k : String} (hk : k = s ∨ k = "__overflow__" ∧ r.limiter.buckets.contains s = false)
    (hstart : k = s → s ≠ "__overflow__" → r.limiter.buckets.contains s = false → r.owedShared s now = 0) :
    r.owed s now ≤ r.short k now := by
  by_cases hover : k = "__overflow__"
  · subst hover
    exact (h.away s (hk.imp Eq.symm And.right)).trans (h.shared s)
  · obtain rfl : k = s := hk.resolve_right (fun hne => hover hne.1)
    rcases hin : r.limiter.buckets.contains k with _ | _
    · exact ((h.away k (.inr hin)).trans_eq (hstart rfl hover hin)).trans deficit_nonneg
    · exact h.own k hover hin

/-- The run with a bucket updated. -/
def refill (r : Run) (k : String) (now v : ℚ) : Run :=
  { r with limiter := { r.limiter with buckets := r.limiter.buckets.set k (v, now) } }

theorem short_refill_self (v : ℚ) : (refill r k now v).short k now = max 0 (r.limiter.capacity - v) := deficit_set_self v

theorem short_refill_ne {j : String} (h : j ≠ k) (v : ℚ) : (refill r k now v).short j now = r.short j now :=
  deficit_set_ne h (v, now)

theorem contains_refill (v : ℚ) (s : String) :
    (refill r k now v).limiter.buckets.contains s = (decide (s = k) || r.limiter.buckets.contains s) := Dict.contains_set ..

/-- The bucket that a call goes to is updated, and has not more than before. -/
theorem touch (h : r.Accounted now) {s k : String} (hk : k = s ∨ k = "__overflow__" ∧ r.limiter.buckets.contains s = false)
    (hstart : k = s → s ≠ "__overflow__" → r.limiter.buckets.contains s = false → r.owedShared s now = 0) {v : ℚ}
    (hv : r.short k now ≤ max 0 (r.limiter.capacity - v)) : (refill r k now v).Accounted now := by
  have hmore : ∀ j, r.short j now ≤ (refill r k now v).short j now := by
    intro j
    by_cases hj : j = k
    · subst hj
      rwa [short_refill_self]
    · rw [short_refill_ne hj]
  refine ⟨h.distinct.set .., h.before, h.ordered, ?_, ?_, fun j => (h.shared j).trans (hmore _), h.holds⟩
  · intro j hj hin
    rcases hold : r.limiter.buckets.contains j with _ | _
    · have hjk : j = k := by simpa [contains_refill, hold] using hin
      subst hjk
      obtain rfl : j = s := hk.resolve_right (fun hne => hj hne.1)
      exact (h.owed_le hk hstart).trans (hmore j)
    · exact (h.own j hj hold).trans (hmore j)
  · intro j hj
    rw [contains_refill, Bool.or_eq_false_iff] at hj
    exact h.away j (hj.imp_right And.right)

/-- The run with a grant more. -/
def grant (r : Run) (c : Call) (k : String) : Run := { r with granted := { c with bucket := k } :: r.granted }

theorem grantedTo_grant (c : Call) (k s : String) :
    (grant r c k).grantedTo s = if c.source = s then (c.now, c.tokens) :: r.grantedTo s else r.grantedTo s := by
  by_cases hs : c.source = s <;> simp [grant, grantedTo, hs]

theorem overflowed_grant (c : Call) (k s : String) :
    (grant r c k).overflowed s =
      if c.source = s ∧ k = "__overflow__" then (c.now, c.tokens) :: r.overflowed s else r.overflowed s := by
  by_cases hs : c.source = s ∧ k = "__overflow__" <;> simp [grant, overflowed, hs]

/-- A call that its bucket has the tokens for is granted. -/
theorem grant_refill (h : r.Accounted c.now) (hpositive : 0 ≤ c.tokens)
    (hk : k = c.source ∨ k = "__overflow__" ∧ r.limiter.buckets.contains c.source = false)
    (hstart : k = c.source → c.source ≠ "__overflow__" → r.limiter.buckets.contains c.source = false →
      r.owedShared c.source c.now = 0)
    (hfits : c.tokens ≤ r.limiter.capacity - r.short k c.now) :
    (grant (refill r k c.now (r.limiter.capacity - r.short k c.now - c.tokens)) c k).Accounted c.now := by
  have howed := h.owed_le hk hstart
  have hmore : max 0 (r.limiter.capacity - (r.limiter.capacity - r.short k c.now - c.tokens)) = r.short k c.now + c.tokens := by
    rw [sub_sub, sub_sub_cancel]
    exact max_eq_right (add_nonneg deficit_nonneg hpositive)
  have hkept : (refill r k c.now (r.limiter.capacity - r.short k c.now - c.tokens)).Accounted c.now := by
    refine h.touch hk hstart ?_
    rw [hmore]
    exact le_add_of_nonneg_right hpositive
  have hself : (refill r k c.now (r.limiter.capacity - r.short k c.now - c.tokens)).short k c.now = r.short k c.now + c.tokens := by
    rw [short_refill_self, hmore]
  generalize hv : r.limiter.capacity - r.short k c.now - c.tokens = v at hkept hself ⊢
  have hpour : ∀ log : List (ℚ × ℚ), leftAt r.limiter.rate ((c.now, c.tokens) :: log) c.now = leftAt r.limiter.rate log c.now + c.tokens := by
    intro log
    rw [leftAt_cons_self]
    exact max_eq_right (add_nonneg (leftAt_nonneg ..) hpositive)
  refine ⟨hkept.distinct, ?_, ?_, ?_, ?_, ?_, ?_⟩
  · intro g hg
    rcases List.mem_cons.mp hg with rfl | hold
    · exact le_refl _
    · exact h.before g hold
  · exact List.pairwise_cons.mpr ⟨fun g hg => h.before g hg, h.ordered⟩
  · intro s hs hin
    by_cases hsource : c.source = s
    · subst hsource
      obtain rfl : k = c.source := by
        refine hk.resolve_right (fun hover => ?_)
        have hold : r.limiter.buckets.contains c.source = true := by simpa [grant, contains_refill, hover.1, hs] using hin
        rw [hover.2] at hold
        cases hold
      rw [owed, grantedTo_grant, if_pos rfl]
      exact (hpour _).trans_le ((add_le_add_left howed _).trans_eq hself.symm)
    · rw [owed, grantedTo_grant, if_neg hsource]
      exact hkept.own s hs hin
  · intro s hs
    by_cases hsource : c.source = s
    · subst hsource
      have hover : k = "__overflow__" := by
        rcases hk with hown | hshared
        · rcases hs with hs | hout
          · exact hown.trans hs
          · simp [grant, contains_refill, hown] at hout
        · exact hshared.1
      have haway := h.away c.source (hk.imp (fun hown => hown.symm.trans hover) And.right)
      rw [owed, owedShared, grantedTo_grant, overflowed_grant, if_pos rfl, if_pos ⟨rfl, hover⟩]
      exact (hpour _).trans_le ((add_le_add_left haway _).trans_eq (hpour _).symm)
    · rw [owed, owedShared, grantedTo_grant, overflowed_grant, if_neg hsource, if_neg (fun hboth => hsource hboth.1)]
      exact hkept.away s hs
  · intro s
    by_cases hover : c.source = s ∧ k = "__overflow__"
    · rw [owedShared, overflowed_grant, if_pos hover]
      exact (hpour _).trans_le ((add_le_add_left (h.shared s) _).trans_eq (hover.2 ▸ hself.symm))
    · rw [owedShared, overflowed_grant, if_neg hover]
      exact hkept.shared s
  · intro s
    by_cases hsource : c.source = s
    · rw [grantedTo_grant, if_pos hsource]
      refine ⟨?_, h.holds s⟩
      have hroom : r.owed s c.now + c.tokens ≤ r.limiter.capacity := by
        subst hsource
        linarith
      exact hroom
    · rw [grantedTo_grant, if_neg hsource]
      exact h.holds s

end Accounted

theorem step_eq (r : Run) (c : Call) :
    r.step c =
      let (kept, k) := r.limiter.place c.now c.source
      let r' : Run := { r with limiter := { r.limiter with buckets := kept } }
      let left := r'.limiter.capacity - r'.short k c.now
      if c.tokens ≤ left then Accounted.grant (Accounted.refill r' k c.now (left - c.tokens)) c k
      else Accounted.refill r' k c.now left := by
  simp only [step, TokenBucketRateLimiter.allow_eq]
  split
  · rename_i hfits
    exact (if_pos hfits).symm
  · rename_i hfits
    exact (if_neg hfits).symm

theorem step_limits (r : Run) (c : Call) :
    (r.step c).limiter.rate = r.limiter.rate ∧ (r.step c).limiter.capacity = r.limiter.capacity := by
  rw [step_eq]
  dsimp only
  split <;> exact ⟨rfl, rfl⟩

/-- A call keeps what was granted accounted for where the source that gets a bucket of its own owes nothing. -/
theorem Accounted.step (h : r.Accounted c.now) (hpositive : 0 ≤ c.tokens) (hstart : r.StartsFull c) : (r.step c).Accounted c.now := by
  have hevicted := h.evict c.source
  have hk : (r.limiter.place c.now c.source).2 = c.source ∨ (r.limiter.place c.now c.source).2 = "__overflow__" ∧
      (r.limiter.place c.now c.source).1.contains c.source = false := by
    obtain ⟨-, -, -, -, hwhere⟩ := r.limiter.place_cases c.now c.source
    exact hwhere.imp_left And.left
  have hfull : (r.limiter.place c.now c.source).2 = c.source → c.source ≠ "__overflow__" →
      (r.limiter.place c.now c.source).1.contains c.source = false → r.owedShared c.source c.now = 0 := by
    intro hown hover hout
    refine hstart hown hover ?_
    rcases hin : r.limiter.buckets.contains c.source with _ | _
    · rfl
    · rw [TokenBucketRateLimiter.place_of_contains hin, hin] at hout
      cases hout
  rw [step_eq]
  generalize r.limiter.place c.now c.source = p at hevicted hk hfull ⊢
  obtain ⟨kept, k⟩ := p
  dsimp only at hevicted hk hfull ⊢
  split
  · rename_i hfits
    exact hevicted.grant_refill hpositive hk hfull hfits
  · refine hevicted.touch hk hfull ?_
    rw [sub_sub_cancel]
    exact le_max_right ..

/-! ## The number of buckets -/

/-- Beside the shared bucket there are at most 1024. -/
theorem own_le_step (h : (r.limiter.buckets.erase "__overflow__").size ≤ 1024) :
    ((r.step c).limiter.buckets.erase "__overflow__").size ≤ 1024 := by
  obtain ⟨evicted, -, hplace, -, hwhere⟩ := r.limiter.place_cases c.now c.source
  have hkept : ((r.limiter.place c.now c.source).1.erase "__overflow__").size ≤ 1024 := by
    rw [hplace]
    exact (Dict.size_erase_foldl_erase_le ..).trans h
  have hset : ∀ v, (((r.limiter.place c.now c.source).1.set (r.limiter.place c.now c.source).2 v).erase "__overflow__").size ≤ 1024 := by
    intro v
    rcases hwhere with ⟨hown, hin | hroom⟩ | ⟨hover, -⟩
    · obtain ⟨w, hw⟩ := Dict.contains_eq_true_iff.mp hin
      rwa [hown, Dict.size_erase_set_of_some hw]
    · exact (Dict.size_erase_le ..).trans ((Dict.size_set_le ..).trans hroom)
    · rwa [hover, Dict.erase_set]
  rw [step_eq]
  dsimp only
  split
  · exact hset _
  · exact hset _

theorem distinct_step (h : r.limiter.buckets.Distinct) : (r.step c).limiter.buckets.Distinct := by
  have hkept := @TokenBucketRateLimiter.distinct_place c.now _ c.source h
  rw [step_eq]
  dsimp only
  split <;> exact hkept.set _ _

/-- There are never more than 1025 buckets. -/
theorem size_le (calls : List Call) : (runFrom step (start rate capacity) calls).limiter.buckets.size ≤ 1025 := by
  suffices hinv : ∀ r : Run, r.limiter.buckets.Distinct → (r.limiter.buckets.erase "__overflow__").size ≤ 1024 →
      (runFrom step r calls).limiter.buckets.Distinct ∧
        ((runFrom step r calls).limiter.buckets.erase "__overflow__").size ≤ 1024 by
    obtain ⟨hd, hown⟩ := hinv (start rate capacity) Dict.distinct_empty (Nat.zero_le _)
    exact (hd.size_le_erase "__overflow__").trans (Nat.succ_le_succ hown)
  induction calls with
  | nil => exact fun r hd hown => ⟨hd, hown⟩
  | cons c calls ih => exact fun r hd hown => ih (r.step c) (distinct_step hd) (own_le_step hown)

/-! ## The bound -/

theorem runFrom_limits (r : Run) (calls : List Call) :
    (runFrom step r calls).limiter.rate = r.limiter.rate ∧ (runFrom step r calls).limiter.capacity = r.limiter.capacity := by
  induction calls generalizing r with
  | nil => exact ⟨rfl, rfl⟩
  | cons c calls ih =>
    obtain ⟨hrate, hcapacity⟩ := step_limits r c
    exact ⟨(ih (r.step c)).1.trans hrate, (ih (r.step c)).2.trans hcapacity⟩

/-- What is granted in a run is accounted for at some time. -/
theorem Accounted.run {r : Run} {t : ℚ} (h : r.Accounted t) (hrate : 0 ≤ r.limiter.rate) {calls : List Call}
    (hclock : calls.Pairwise (fun c c' => c.now ≤ c'.now)) (hbegin : ∀ c ∈ calls, t ≤ c.now) (hpositive : ∀ c ∈ calls, 0 < c.tokens)
    (hstart : Along Run.step StartsFull r calls) : ∃ now, (runFrom Run.step r calls).Accounted now := by
  induction calls generalizing r t with
  | nil => exact ⟨t, h⟩
  | cons c calls ih =>
    obtain ⟨hnext, hclock⟩ := List.pairwise_cons.mp hclock
    have hnow := h.later hrate (hbegin c List.mem_cons_self)
    have hstep := hnow.step (hpositive c List.mem_cons_self).le hstart.1
    refine ih hstep ?_ hclock hnext (fun c' hc' => hpositive c' (List.mem_cons_of_mem _ hc')) hstart.2
    rwa [(step_limits r c).1]

theorem ordered_grantedTo (h : r.Accounted now) (s : String) : (r.grantedTo s).Pairwise (fun e e' => e'.1 ≤ e.1) :=
  List.pairwise_map.mpr (h.ordered.sublist List.filter_sublist)

end Run

/-- No source is granted more in an interval than the capacity and what is refilled in it, where none gets a full bucket of its own
while it owes to the shared one. -/
theorem granted_le_capacity {rate capacity : ℚ} (hrate : 0 ≤ rate) (hcapacity : 0 ≤ capacity) {calls : List Call}
    (hclock : calls.Pairwise (fun c c' => c.now ≤ c'.now)) (hpositive : ∀ c ∈ calls, 0 < c.tokens)
    (hstart : Along Run.step Run.StartsFull (Run.start rate capacity) calls) :
    (∀ source a b, a ≤ b → pouredIn a b ((runFrom Run.step (Run.start rate capacity) calls).grantedTo source) ≤
        capacity + rate * (b - a)) ∧
      (runFrom Run.step (Run.start rate capacity) calls).limiter.buckets.size ≤ 1025 := by
  refine ⟨?_, Run.size_le calls⟩
  intro source a b hab
  have hbegin : ∃ t, ∀ c ∈ calls, t ≤ c.now := by
    cases calls with
    | nil => exact ⟨0, by simp⟩
    | cons c calls => exact ⟨c.now, List.forall_mem_cons.mpr ⟨le_refl _, (List.pairwise_cons.mp hclock).1⟩⟩
  obtain ⟨t, ht⟩ := hbegin
  obtain ⟨now, h⟩ := (Run.accounted_start rate capacity t).run hrate hclock ht hpositive hstart
  obtain ⟨hrate', hcapacity'⟩ := Run.runFrom_limits (Run.start rate capacity) calls
  have hholds := h.holds source
  rw [hrate', hcapacity'] at hholds
  exact pouredIn_le hrate hcapacity hab (Run.ordered_grantedTo h source) hholds

/-- Three calls, the last one of another source. -/
def threeCalls : List Call := [⟨0, "a", 1⟩, ⟨1, "a", 1⟩, ⟨2, "b", 1⟩]

theorem granted_le_capacity_three :
    pouredIn 0 2 ((runFrom Run.step (Run.start 1 1) threeCalls).grantedTo "a") ≤ 1 + 1 * (2 - 0) ∧
      (runFrom Run.step (Run.start 1 1) threeCalls).limiter.buckets.size ≤ 1025 := by
  have h := @granted_le_capacity 1 1 (by decide) (by decide) threeCalls
    (by decide +kernel) (by decide +kernel) (by decide +kernel)
  exact ⟨h.1 "a" 0 2 (by decide), h.2⟩

/-! ## A source that gets a second bucket -/

/-- Names of other sources. -/
def other (i : Nat) : String := String.ofList (List.replicate (i + 1) 'x')

theorem other_injective {i j : Nat} (h : other i = other j) : i = j := by
  have := congrArg String.toList h
  simpa [other] using congrArg List.length this

theorem other_ne {i : Nat} {s : String} {c : Char} {cs : List Char} (hs : s.toList = c :: cs) (hc : c ≠ 'x') : other i ≠ s := by
  intro h
  have htext := congrArg String.toList h
  rw [hs, other, String.toList_ofList, List.replicate_succ, List.cons.injEq] at htext
  exact hc htext.1.symm

/-- The buckets after calls of as many others, the first two early. -/
def crowd (n : Nat) : Dict String (ℚ × ℚ) :=
  ⟨(other 0, (0, 0)) :: (other 1, (0, 0)) :: (List.range n).map (fun i => (other (i + 2), (0, 1)))⟩

/-- Calls of as many others, the first two early. -/
def crowdCalls (n : Nat) : List Call :=
  ⟨0, other 0, 1⟩ :: ⟨0, other 1, 1⟩ :: (List.range n).map (fun i => ⟨1, other (i + 2), 1⟩)

theorem size_crowd (n : Nat) : (crowd n).size = n + 2 := by simp [crowd, Dict.size]

theorem keys_crowd {n : Nat} {k : String} (h : k ∈ (crowd n).items.map (·.1)) : ∃ i, i < n + 2 ∧ k = other i := by
  simp only [crowd, List.map_cons, List.map_map, List.mem_cons, List.mem_map, List.mem_range, Function.comp] at h
  rcases h with rfl | rfl | ⟨i, hi, rfl⟩
  · exact ⟨0, by omega, rfl⟩
  · exact ⟨1, by omega, rfl⟩
  · exact ⟨i + 2, by omega, rfl⟩

theorem crowd_get?_ne {n : Nat} {s : String} (h : ∀ i, i < n + 2 → other i ≠ s) : (crowd n).get? s = none := by
  refine Dict.get?_eq_none_iff.mpr (fun hin => ?_)
  obtain ⟨i, hi, rfl⟩ := keys_crowd hin
  exact h i hi rfl

/-- A call with a new bucket of one token takes it. -/
theorem step_fresh {r : Run} {kept : Dict String (ℚ × ℚ)} {now : ℚ} {source k : String} (hcapacity : r.limiter.capacity = 1)
    (hplace : r.limiter.place now source = (kept, k)) (hnone : kept.get? k = none) :
    r.step ⟨now, source, 1⟩ =
      ⟨{ r.limiter with buckets := ⟨kept.items ++ [(k, (0, now))]⟩ }, ⟨⟨now, source, 1⟩, k⟩ :: r.granted⟩ := by
  have hset : kept.set k (0, now) = ⟨kept.items ++ [(k, (0, now))]⟩ := by
    rw [← Dict.items_set_of_none hnone]
  rw [Run.step_eq]
  simp [hplace, Run.short, deficit_of_none hnone, hcapacity, Run.Accounted.grant, Run.Accounted.refill, hset]

theorem place_of_room {l : TokenBucketRateLimiter} {now : ℚ} {source : String} (h : l.buckets.size < 1024) :
    l.place now source = (l.buckets, source) := by
  rw [TokenBucketRateLimiter.place, if_neg (fun hfull => absurd hfull.1 (not_le.mpr h))]

/-- A run of the others. -/
def crowded (n : Nat) : Run := runFrom Run.step (Run.start (1 / 2) 1) (crowdCalls n)

theorem crowdCalls_succ (n : Nat) : crowdCalls (n + 1) = crowdCalls n ++ [⟨1, other (n + 2), 1⟩] := by
  simp [crowdCalls, List.range_succ]

theorem crowded_eq {n : Nat} (hn : n ≤ 1022) :
    (crowded n).limiter = ⟨1 / 2, 1, crowd n⟩ ∧ ∀ g ∈ (crowded n).granted, ∃ i, g.source = other i := by
  induction n with
  | zero =>
    have hfirst : Run.step (Run.start (1 / 2) 1) ⟨0, other 0, 1⟩ = ⟨⟨1 / 2, 1, ⟨[(other 0, (0, 0))]⟩⟩, [⟨⟨0, other 0, 1⟩, other 0⟩]⟩ :=
      step_fresh rfl (place_of_room (by decide)) rfl
    have hsecond : Run.step ⟨⟨1 / 2, 1, ⟨[(other 0, (0, 0))]⟩⟩, [⟨⟨0, other 0, 1⟩, other 0⟩]⟩ ⟨0, other 1, 1⟩ =
        ⟨⟨1 / 2, 1, crowd 0⟩, [⟨⟨0, other 1, 1⟩, other 1⟩, ⟨⟨0, other 0, 1⟩, other 0⟩]⟩ :=
      step_fresh rfl (place_of_room (by decide)) (by decide)
    have hrun : crowded 0 = ⟨⟨1 / 2, 1, crowd 0⟩, [⟨⟨0, other 1, 1⟩, other 1⟩, ⟨⟨0, other 0, 1⟩, other 0⟩]⟩ := by
      rw [← hsecond, ← hfirst]
      rfl
    rw [hrun]
    exact ⟨rfl, by simp⟩
  | succ n ih =>
    obtain ⟨hlimiter, hgranted⟩ := ih (by omega)
    have hnone : (crowd n).get? (other (n + 2)) = none :=
      crowd_get?_ne (fun i hi heq => absurd (other_injective heq) (by omega))
    have hroom : (crowded n).limiter.buckets.size < 1024 := by
      rw [hlimiter]
      exact (size_crowd n).trans_lt (by omega)
    have hstep := @step_fresh (crowded n) _ 1 _ _ (congrArg (·.capacity) hlimiter) (place_of_room hroom)
      (by rwa [hlimiter])
    have hrun : crowded (n + 1) = (crowded n).step ⟨1, other (n + 2), 1⟩ := by
      rw [crowded, crowdCalls_succ, runFrom_append]
      rfl
    rw [hrun, hstep]
    refine ⟨?_, List.forall_mem_cons.mpr ⟨⟨n + 2, rfl⟩, hgranted⟩⟩
    simp [hlimiter, crowd, List.range_succ]

/-- The calls of the others, and two of one more source. -/
def secondBucketCalls (n : Nat) : List Call := crowdCalls n ++ [⟨9, "s", 1⟩, ⟨10, "s", 1⟩]

/-- The buckets with the shared one. -/
def crowdAndShared (n : Nat) : Dict String (ℚ × ℚ) := ⟨(crowd n).items ++ [("__overflow__", (0, 9))]⟩

theorem other_ne_s (i : Nat) : other i ≠ "s" := @other_ne i _ 's' [] rfl (by decide)

theorem other_ne_overflow (i : Nat) : other i ≠ "__overflow__" :=
  @other_ne _ _ '_' ("_overflow__" : String).toList rfl (by decide)

theorem crowdAndShared_get?_s (n : Nat) : (crowdAndShared n).get? "s" = none := by
  refine Dict.get?_eq_none_iff.mpr (fun hin => ?_)
  rw [crowdAndShared, List.map_append, List.mem_append] at hin
  rcases hin with hin | hin
  · obtain ⟨i, -, heq⟩ := keys_crowd hin
    exact other_ne_s i heq.symm
  · exact absurd hin (by decide)

section

variable {n : Nat}

/-- None of the others is idle for long enough. -/
theorem place_shared (hn : n + 2 = 1024) :
    (TokenBucketRateLimiter.mk (1 / 2) 1 (crowd n)).place 9 "s" = (crowd n, "__overflow__") := by
  have habsent : (crowd n).contains "s" = false := by rw [Dict.contains, crowd_get?_ne (fun i _ => other_ne_s i)]; rfl
  have hfull : 1024 ≤ (crowd n).size ∧ (crowd n).contains "s" = false := ⟨(size_crowd n).trans hn |>.ge, habsent⟩
  have hidle : (TokenBucketRateLimiter.mk (1 / 2) 1 (crowd n)).idleSources 9 = [] := by
    rw [TokenBucketRateLimiter.idleSources, List.map_eq_nil_iff, List.filter_eq_nil_iff]
    simp only [crowd, List.mem_cons, List.mem_map]
    rintro kv (rfl | rfl | ⟨i, -, rfl⟩) <;> norm_num
  simp only [TokenBucketRateLimiter.place, hidle, if_pos hfull, List.take_nil, List.foldl_nil]

/-- The first two are, a second later. -/
theorem place_own (hn : n + 2 = 1024) :
    ∃ kept, (TokenBucketRateLimiter.mk (1 / 2) 1 (crowdAndShared n)).place 10 "s" = (kept, "s") ∧ kept.get? "s" = none := by
  have hsize : (crowdAndShared n).size = 1025 := by
    rw [crowdAndShared, Dict.size, List.length_append]
    exact congrArg (· + 1) ((size_crowd n).trans hn)
  have habsent : (crowdAndShared n).contains "s" = false := by rw [Dict.contains, crowdAndShared_get?_s]; rfl
  have hfull : 1024 ≤ (crowdAndShared n).size ∧ (crowdAndShared n).contains "s" = false := ⟨by omega, habsent⟩
  have hidle : ∃ more, (TokenBucketRateLimiter.mk (1 / 2) 1 (crowdAndShared n)).idleSources 10 = other 0 :: other 1 :: more := by
    rw [TokenBucketRateLimiter.idleSources, crowdAndShared, crowd, List.cons_append, List.cons_append, List.filter_cons_of_pos (by norm_num),
      List.filter_cons_of_pos (by norm_num), List.map_cons, List.map_cons]
    exact ⟨_, rfl⟩
  obtain ⟨more, hidle⟩ := hidle
  have hfirst : (crowdAndShared n).contains (other 0) = true := @Dict.contains_of_mem _ _ _ _ (other 0, (0, 0)) (by simp [crowdAndShared, crowd])
  have hsecond : ((crowdAndShared n).erase (other 0)).contains (other 1) = true := by
    have hin : (crowdAndShared n).contains (other 1) = true := @Dict.contains_of_mem _ _ _ _ (other 1, (0, 0)) (by simp [crowdAndShared, crowd])
    have hne : other 1 ≠ other 0 := fun heq => absurd (other_injective heq) (by decide)
    rw [Dict.contains_erase, hin, decide_eq_false hne]
    rfl
  refine ⟨((crowdAndShared n).erase (other 0)).erase (other 1), ?_, ?_⟩
  · have hroom : ¬(1024 ≤ (((crowdAndShared n).erase (other 0)).erase (other 1)).size ∧
        (((crowdAndShared n).erase (other 0)).erase (other 1)).contains "s" = false) := by
      have := Dict.size_erase_lt hsecond
      have := Dict.size_erase_lt hfirst
      omega
    rw [TokenBucketRateLimiter.place, if_pos hfull, hidle, hsize]
    exact if_neg hroom
  · rw [Dict.get?_erase, Dict.get?_erase, if_neg (other_ne_s 1).symm, if_neg (other_ne_s 0).symm]
    exact crowdAndShared_get?_s n

theorem secondBucketCalls_clock : (secondBucketCalls n).Pairwise (fun c c' => c.now ≤ c'.now) := by
  have hlate : ∀ c ∈ (List.range n).map (fun i => (⟨1, other (i + 2), 1⟩ : Call)), c.now = 1 := by simp
  have hcrowd : (crowdCalls n).Pairwise (fun c c' => c.now ≤ c'.now) := by
    refine List.pairwise_cons.mpr ⟨?_, List.pairwise_cons.mpr ⟨fun c hc => ?_, ?_⟩⟩
    · refine List.forall_mem_cons.mpr ⟨le_refl _, fun c hc => ?_⟩
      rw [hlate c hc]
      exact zero_le_one
    · rw [hlate c hc]
      exact zero_le_one
    · exact List.pairwise_map.mpr (List.pairwise_of_forall (fun _ _ => le_refl _))
  refine List.pairwise_append.mpr ⟨hcrowd, by decide, ?_⟩
  have hearly : ∀ c ∈ crowdCalls n, c.now ≤ 1 := by simp [crowdCalls]
  have hend : ∀ c ∈ [(⟨9, "s", 1⟩ : Call), ⟨10, "s", 1⟩], 1 ≤ c.now := by decide
  exact fun c hc c' hc' => (hearly c hc).trans (hend c' hc')

theorem secondBucketCalls_positive : ∀ c ∈ secondBucketCalls n, 0 < c.tokens := by
  intro c hc
  simp only [secondBucketCalls, crowdCalls, List.cons_append, List.mem_cons, List.mem_append, List.mem_map, List.not_mem_nil, or_false] at hc
  rcases hc with rfl | rfl | ⟨i, -, rfl⟩ | rfl | rfl <;> exact zero_lt_one

/-- The source is granted both tokens. -/
theorem granted_secondBucketCalls (hn : n + 2 = 1024) :
    (runFrom Run.step (Run.start (1 / 2) 1) (secondBucketCalls n)).grantedTo "s" = [(10, 1), (9, 1)] := by
  obtain ⟨hlimiter, hothers⟩ := crowded_eq (n := n) (by omega)
  obtain ⟨kept, hplace, hnone⟩ := place_own hn
  have hfirst := step_fresh (r := crowded n) (congrArg (·.capacity) hlimiter) (by rw [hlimiter, place_shared hn])
    (crowd_get?_ne (fun i _ => other_ne_overflow i))
  rw [hlimiter] at hfirst
  have hsecond := step_fresh (r := ⟨⟨1 / 2, 1, crowdAndShared n⟩, ⟨⟨9, "s", 1⟩, "__overflow__"⟩ :: (crowded n).granted⟩) rfl hplace hnone
  have hrun : (runFrom Run.step (Run.start (1 / 2) 1) (secondBucketCalls n)).granted =
      ⟨⟨10, "s", 1⟩, "s"⟩ :: ⟨⟨9, "s", 1⟩, "__overflow__"⟩ :: (crowded n).granted := by
    rw [secondBucketCalls, runFrom_append, runFrom_cons, runFrom_cons, runFrom_nil, ← crowded, hfirst]
    exact congrArg Run.granted hsecond
  have hnothing : (crowded n).granted.filter (fun g => g.source = "s") = [] := by
    refine List.filter_eq_nil_iff.mpr (fun g hg => ?_)
    obtain ⟨i, hi⟩ := hothers g hg
    simpa [hi] using other_ne_s i
  rw [Run.grantedTo, hrun, List.filter_cons_of_pos rfl, List.filter_cons_of_pos rfl, hnothing]
  rfl

end

/-- A source that was granted a token from the shared bucket is granted another one from a full bucket of its own a second later. -/
theorem granted_le_capacity_false :
    ∃ calls : List Call, calls.Pairwise (fun c c' => c.now ≤ c'.now) ∧ (∀ c ∈ calls, 0 < c.tokens) ∧
      (1 : ℚ) + 1 / 2 * (10 - 9) < pouredIn 9 10 ((runFrom Run.step (Run.start (1 / 2) 1) calls).grantedTo "s") := by
  obtain ⟨n, hn⟩ : ∃ n, n + 2 = 1024 := ⟨1022, rfl⟩
  refine ⟨secondBucketCalls n, secondBucketCalls_clock, secondBucketCalls_positive, ?_⟩
  rw [granted_secondBucketCalls hn]
  decide +kernel

end RateLimit

end Mdrap
