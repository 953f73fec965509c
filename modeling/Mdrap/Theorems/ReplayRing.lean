import Mathlib.Data.List.Dedup
import Mathlib.Data.List.Induction
import Mathlib.Data.List.Perm.Subperm
import Mdrap.Native.ReplayRing

/-!
# What a query of the replay ring gives

The ring answers a query with the newest record of each number of the last 65536, in order, exactly where no older number has come
late and taken the slot of such a number.
-/

namespace Mdrap.ReplayRing

variable {V : Type}

/-! ## The ring after some calls -/

/-- The ring after these calls. -/
def replayed (ts : List (ReplayTick V)) : ReplayRing V := ts.foldl ReplayRing.record .clear

/-- The last call for a slot. -/
def lastInSlot (ts : List (ReplayTick V)) (slot : Nat) : Option (ReplayTick V) :=
  ts.reverse.find? (fun t => replaySlot t.seq = slot)

/-- The last call with a number. -/
def lastWith (ts : List (ReplayTick V)) (s : UInt64) : Option (ReplayTick V) := ts.reverse.find? (fun t => t.seq = s)

/-- The number has been recorded, and is one of the last 65536 up to the highest one. -/
def Recent (ts : List (ReplayTick V)) (s : UInt64) : Prop :=
  (∃ t ∈ ts, t.seq = s) ∧ ∀ t ∈ ts, t.seq.toNat < s.toNat + REPLAY_RING_SIZE

instance (ts : List (ReplayTick V)) (s : UInt64) : Decidable (Recent ts s) := inferInstanceAs (Decidable (_ ∧ _))

theorem replayed_append (ts : List (ReplayTick V)) (t : ReplayTick V) : replayed (ts ++ [t]) = (replayed ts).record t :=
  List.foldl_concat ..

theorem replayed_total (ts : List (ReplayTick V)) : (replayed ts).totalRecorded = ts.length := by
  induction ts using List.reverseRecOn with
  | nil => rfl
  | append_singleton ts t ih =>
    rw [replayed_append, List.length_append, ← ih]
    rfl

/-- A slot has the last call for it. -/
theorem replayed_ring (ts : List (ReplayTick V)) (slot : Nat) :
    (replayed ts).ring slot = (lastInSlot ts slot).map ReplayTick.toRecord := by
  induction ts using List.reverseRecOn with
  | nil => rfl
  | append_singleton ts t ih =>
    rw [replayed_append, lastInSlot, List.reverse_append, List.reverse_singleton, List.singleton_append, List.find?_cons]
    simp only [ReplayRing.record]
    by_cases hslot : replaySlot t.seq = slot
    · simp [hslot]
    · rw [if_neg (fun h => hslot h.symm), ih]
      simp [hslot, lastInSlot]

/-- The highest number, and the lowest one that the ring has room for. -/
structure Bounds (ts : List (ReplayTick V)) (r : ReplayRing V) : Prop where
  max_mem : ∃ t ∈ ts, t.seq = r.maxSeq
  le_max : ∀ t ∈ ts, t.seq ≤ r.maxSeq
  min_far : REPLAY_RING_SIZE ≤ r.maxSeq.toNat → r.minSeq.toNat + REPLAY_RING_SIZE = r.maxSeq.toNat + 1
  min_near : r.maxSeq.toNat < REPLAY_RING_SIZE → ∀ t ∈ ts, r.minSeq ≤ t.seq

/-- The lowest number that there is room for, below a highest one that is beyond the size of the ring. -/
theorem toNat_floor {m : UInt64} (h : REPLAY_RING_SIZE ≤ m.toNat) :
    (m - .ofNat REPLAY_RING_SIZE + 1).toNat + REPLAY_RING_SIZE = m.toNat + 1 := by
  have hm := m.toNat_lt
  have hsize : (UInt64.ofNat REPLAY_RING_SIZE).toNat = REPLAY_RING_SIZE := by decide
  have hle : UInt64.ofNat REPLAY_RING_SIZE ≤ m := UInt64.le_iff_toNat_le.mpr (by rw [hsize]; exact h)
  have hpos : 0 < REPLAY_RING_SIZE := by decide
  rw [UInt64.toNat_add, UInt64.toNat_sub_of_le _ _ hle, hsize]
  simp only [UInt64.reduceToNat]
  omega

theorem Bounds.first (t : ReplayTick V) : Bounds [t] (ReplayRing.clear.record t) := by
  have hmax : (ReplayRing.clear.record t).maxSeq = t.seq := by simp [ReplayRing.record, ReplayRing.clear]
  refine ⟨⟨t, List.mem_singleton_self t, hmax.symm⟩, ?_, ?_, ?_⟩
  · intro u hu
    rw [List.mem_singleton.mp hu, hmax]
    exact UInt64.le_refl _
  · intro hfar
    rw [hmax] at hfar ⊢
    simpa [ReplayRing.record, ReplayRing.clear, hfar] using toNat_floor hfar
  · intro hnear u hu
    rw [hmax] at hnear
    rw [List.mem_singleton.mp hu]
    simp [ReplayRing.record, ReplayRing.clear, Nat.not_le.mpr hnear]

theorem Bounds.record {ts : List (ReplayTick V)} {r : ReplayRing V} (h : Bounds ts r) (htotal : r.totalRecorded ≠ 0)
    (t : ReplayTick V) : Bounds (ts ++ [t]) (r.record t) := by
  have hmax : (r.record t).maxSeq = if t.seq > r.maxSeq then t.seq else r.maxSeq := by simp [ReplayRing.record, htotal]
  have hle : ∀ u ∈ ts ++ [t], u.seq ≤ (r.record t).maxSeq := by
    intro u hu
    rw [hmax]
    rcases List.mem_append.mp hu with hu | hu
    · have hu := h.le_max u hu
      split
      · rename_i hgt
        exact UInt64.le_trans hu (UInt64.le_of_lt hgt)
      · exact hu
    · rw [List.mem_singleton.mp hu]
      split
      · exact UInt64.le_refl _
      · rename_i hle
        exact UInt64.not_lt.mp hle
  refine ⟨?_, hle, ?_, ?_⟩
  · rw [hmax]
    split
    · exact ⟨t, by simp, rfl⟩
    · obtain ⟨u, hu, hseq⟩ := h.max_mem
      exact ⟨u, List.mem_append_left _ hu, hseq⟩
  · intro hfar
    have hmin : (r.record t).minSeq = (r.record t).maxSeq - .ofNat REPLAY_RING_SIZE + 1 := if_pos hfar
    rw [hmin]
    exact toNat_floor hfar
  · intro hnear
    have hmin : (r.record t).minSeq = if r.totalRecorded = 0 ∨ t.seq < r.minSeq then t.seq else r.minSeq :=
      if_neg (Nat.not_le.mpr hnear)
    rw [if_congr (or_iff_right htotal) rfl rfl] at hmin
    have hold : r.maxSeq.toNat < REPLAY_RING_SIZE := by
      obtain ⟨u, hu, hseq⟩ := h.max_mem
      have hu := UInt64.le_iff_toNat_le.mp (hle u (List.mem_append_left _ hu))
      rw [hseq] at hu
      omega
    intro u hu
    rw [hmin]
    rcases List.mem_append.mp hu with hu | hu
    · have hu := h.min_near hold u hu
      split
      · rename_i hlt
        exact UInt64.le_trans (UInt64.le_of_lt hlt) hu
      · exact hu
    · rw [List.mem_singleton.mp hu]
      split
      · exact UInt64.le_refl _
      · rename_i hge
        exact UInt64.not_lt.mp hge

theorem replayed_bounds {ts : List (ReplayTick V)} (hts : ts ≠ []) : Bounds ts (replayed ts) := by
  induction ts using List.reverseRecOn with
  | nil => exact (hts rfl).elim
  | append_singleton ts t ih =>
    rw [replayed_append]
    rcases eq_or_ne ts [] with rfl | hne
    · exact Bounds.first t
    · refine (ih hne).record ?_ t
      rw [replayed_total]
      exact fun h => hne (List.length_eq_zero_iff.mp h)

/-- What has been recorded lies between the bounds exactly where it is recent. -/
theorem recent_iff {ts : List (ReplayTick V)} {s : UInt64} (hs : ∃ t ∈ ts, t.seq = s) :
    Recent ts s ↔ (replayed ts).minSeq ≤ s ∧ s ≤ (replayed ts).maxSeq := by
  obtain ⟨t, ht, rfl⟩ := hs
  have hbounds := replayed_bounds (List.ne_nil_of_mem ht)
  obtain ⟨top, htop, hmax⟩ := hbounds.max_mem
  have hle := UInt64.le_iff_toNat_le.mp (hbounds.le_max t ht)
  rcases Nat.lt_or_ge (replayed ts).maxSeq.toNat REPLAY_RING_SIZE with hnear | hfar
  · refine iff_of_true ⟨⟨t, ht, rfl⟩, fun u hu => ?_⟩ ⟨hbounds.min_near hnear t ht, hbounds.le_max t ht⟩
    have hu := UInt64.le_iff_toNat_le.mp (hbounds.le_max u hu)
    omega
  · have hmin := hbounds.min_far hfar
    constructor
    · rintro ⟨-, hwindow⟩
      have htop := hwindow top htop
      rw [hmax] at htop
      exact ⟨UInt64.le_iff_toNat_le.mpr (by omega), hbounds.le_max t ht⟩
    · rintro ⟨hge, -⟩
      have hge := UInt64.le_iff_toNat_le.mp hge
      refine ⟨⟨t, ht, rfl⟩, fun u hu => ?_⟩
      have hu := UInt64.le_iff_toNat_le.mp (hbounds.le_max u hu)
      omega

/-! ## A query -/

/-- The numbers from one to another, round the end of the range if need be. -/
def numbers (s toSeq : UInt64) : List UInt64 := (List.range ((toSeq - s).toNat + 1)).map (fun i => s + .ofNat i)

theorem numbers_succ {s toSeq : UInt64} (h : s ≠ toSeq) : numbers s toSeq = s :: numbers (s + 1) toSeq := by
  have hs := s.toNat_lt
  have hto := toSeq.toNat_lt
  have hne := UInt64.toNat_inj.not.mpr h
  have hsucc : (toSeq - s).toNat = (toSeq - (s + 1)).toNat + 1 := by
    rw [UInt64.toNat_sub, UInt64.toNat_sub, UInt64.toNat_add]
    simp only [UInt64.reduceToNat]
    omega
  rw [numbers, numbers, hsucc, List.range_succ_eq_map, List.map_cons, List.map_map]
  congr 1
  · exact UInt64.add_zero s
  · refine List.map_congr_left fun i _ => ?_
    show s + .ofNat (i + 1) = s + 1 + .ofNat i
    rw [UInt64.ofNat_add, UInt64.add_comm (.ofNat i), ← UInt64.add_assoc]
    rfl

theorem numbers_self (s : UInt64) : numbers s s = [s] := by
  rw [numbers, UInt64.sub_self]
  exact congrArg (fun x => [x]) (UInt64.add_zero s)

/-- Each number of a range is looked up, until there is no more room. -/
theorem sliceFrom_eq (r : ReplayRing V) (symbol : Option (List UInt8)) (toSeq : UInt64) (room : Nat) (s : UInt64) :
    r.sliceFrom symbol toSeq room s = ((numbers s toSeq).filterMap (r.hit symbol)).take room := by
  induction hn : (toSeq - s).toNat using Nat.strongRecOn generalizing s room with
  | ind n ih =>
    rw [ReplayRing.sliceFrom]
    rcases Nat.eq_zero_or_pos room with rfl | hroom
    · rw [if_pos rfl, List.take_zero]
    rw [if_neg (by omega)]
    have hfound : (r.hit symbol s).toList.length ≤ room := by
      cases r.hit symbol s
      · exact Nat.zero_le _
      · exact hroom
    have htake : (r.hit symbol s).toList.take room = (r.hit symbol s).toList := List.take_of_length_le hfound
    by_cases hs : s = toSeq
    · subst hs
      rw [dif_pos rfl, numbers_self]
      cases hhit : r.hit symbol s with
      | none => simp [hhit]
      | some rec =>
        rw [hhit] at htake
        simpa [hhit] using htake.symm
    · rw [dif_neg hs, ih _ (hn ▸ ReplayRing.distance_lt hs) _ _ rfl, numbers_succ hs]
      cases hhit : r.hit symbol s with
      | none => simp [hhit]
      | some rec =>
        obtain ⟨k, rfl⟩ : ∃ k, room = k + 1 := ⟨room - 1, by omega⟩
        simp [hhit]

theorem mem_numbers {s toSeq : UInt64} (h : s ≤ toSeq) (x : UInt64) : x ∈ numbers s toSeq ↔ s ≤ x ∧ x ≤ toSeq := by
  have hle := UInt64.le_iff_toNat_le.mp h
  have hto := toSeq.toNat_lt
  rw [numbers, List.mem_map, UInt64.toNat_sub_of_le _ _ h]
  constructor
  · rintro ⟨i, hi, rfl⟩
    have hi := List.mem_range.mp hi
    have hval : (s + .ofNat i).toNat = s.toNat + i := by
      rw [UInt64.toNat_add, UInt64.toNat_ofNat', Nat.mod_eq_of_lt (by omega), Nat.mod_eq_of_lt (by omega)]
    rw [UInt64.le_iff_toNat_le, UInt64.le_iff_toNat_le, hval]
    omega
  · rintro ⟨hge, hle'⟩
    have hge := UInt64.le_iff_toNat_le.mp hge
    have hle' := UInt64.le_iff_toNat_le.mp hle'
    refine ⟨x.toNat - s.toNat, List.mem_range.mpr (by omega), UInt64.toNat_inj.mp ?_⟩
    rw [UInt64.toNat_add, UInt64.toNat_ofNat', Nat.mod_eq_of_lt (by omega), Nat.mod_eq_of_lt (by omega)]
    omega

theorem numbers_sorted {s toSeq : UInt64} (h : s ≤ toSeq) : (numbers s toSeq).Pairwise (· < ·) := by
  have hle := UInt64.le_iff_toNat_le.mp h
  have hto := toSeq.toNat_lt
  rw [numbers, List.pairwise_map, UInt64.toNat_sub_of_le _ _ h]
  refine List.pairwise_lt_range.imp_of_mem fun {i j} hi hj hij => ?_
  have hj := List.mem_range.mp hj
  rw [UInt64.lt_iff_toNat_lt, UInt64.toNat_add, UInt64.toNat_add, UInt64.toNat_ofNat', UInt64.toNat_ofNat',
    Nat.mod_eq_of_lt (by omega : i < 2 ^ 64), Nat.mod_eq_of_lt (by omega : j < 2 ^ 64), Nat.mod_eq_of_lt (by omega),
    Nat.mod_eq_of_lt (by omega)]
  omega

theorem hit_eq_some {r : ReplayRing V} {s : UInt64} {rec : FastReplayRecord V} :
    r.hit none s = some rec ↔ r.ring (replaySlot s) = some rec ∧ rec.seq = s := by
  unfold ReplayRing.hit
  cases hring : r.ring (replaySlot s) with
  | none => simp
  | some found =>
    simp only [true_or, and_true, Option.some.injEq]
    split
    · rename_i hseq
      exact ⟨fun h => by cases h; exact ⟨rfl, hseq⟩, fun h => by rw [h.1]⟩
    · rename_i hseq
      exact ⟨nofun, fun ⟨h, h'⟩ => (hseq (h ▸ h')).elim⟩

/-- The records that the ring has between two numbers. -/
def found (r : ReplayRing V) (lo hi : UInt64) : List (FastReplayRecord V) := (numbers lo hi).filterMap (r.hit none)

theorem mem_found {r : ReplayRing V} {lo hi : UInt64} (h : lo ≤ hi) (rec : FastReplayRecord V) :
    rec ∈ found r lo hi ↔ lo ≤ rec.seq ∧ rec.seq ≤ hi ∧ r.ring (replaySlot rec.seq) = some rec := by
  simp only [found, List.mem_filterMap, mem_numbers h, hit_eq_some]
  constructor
  · rintro ⟨s, ⟨hlo, hhi⟩, hring, rfl⟩
    exact ⟨hlo, hhi, hring⟩
  · rintro ⟨hlo, hhi, hring⟩
    exact ⟨rec.seq, ⟨hlo, hhi⟩, hring, rfl⟩

theorem found_sorted {r : ReplayRing V} {lo hi : UInt64} (h : lo ≤ hi) : (found r lo hi).Pairwise (fun a b => a.seq < b.seq) := by
  refine List.pairwise_filterMap.mpr ((numbers_sorted h).imp fun {s t} hlt a ha b hb => ?_)
  rw [(hit_eq_some.mp ha).2, (hit_eq_some.mp hb).2]
  exact hlt

/-- The symbols that ask for all records. -/
def AllSymbols (symbol : Option (List UInt8)) : Prop := symbol = none ∨ symbol = some [] ∨ symbol = some (asciiBytes "ALL")

/-- A query gives what the ring has between the bounds of both. -/
theorem slice_eq {ts : List (ReplayTick V)} (hts : ts ≠ []) {fromSeq toSeq lo hi : UInt64} (h : fromSeq ≤ toSeq)
    (hlo : (if fromSeq < (replayed ts).minSeq then (replayed ts).minSeq else fromSeq) = lo)
    (hhi : (if toSeq > (replayed ts).maxSeq then (replayed ts).maxSeq else toSeq) = hi) {symbol : Option (List UInt8)}
    (hsymbol : AllSymbols symbol) (maxOut : Nat) :
    (replayed ts).slice fromSeq toSeq symbol maxOut = if hi < lo then [] else (found (replayed ts) lo hi).take maxOut := by
  have htotal : (replayed ts).totalRecorded ≠ 0 := by
    rw [replayed_total]
    exact fun h => hts (List.length_eq_zero_iff.mp h)
  have hfilter : (if symbol = some [] ∨ symbol = some (asciiBytes "ALL") then none else symbol) = none := by
    rcases hsymbol with rfl | rfl | rfl <;> simp
  have hnear : ¬hi < lo → ¬(hi - lo).toNat ≥ REPLAY_RING_SIZE := by
    intro hle
    have hbounds := replayed_bounds hts
    have hmin : (replayed ts).minSeq ≤ lo := by
      rw [← hlo]
      split
      · exact UInt64.le_refl _
      · rename_i hge
        exact UInt64.not_lt.mp hge
    have hmax : hi ≤ (replayed ts).maxSeq := by
      rw [← hhi]
      split
      · exact UInt64.le_refl _
      · rename_i hge
        exact UInt64.not_lt.mp hge
    have hmin := UInt64.le_iff_toNat_le.mp hmin
    have hmax := UInt64.le_iff_toNat_le.mp hmax
    have hlohi := UInt64.le_iff_toNat_le.mp (UInt64.not_lt.mp hle)
    rw [UInt64.toNat_sub_of_le _ _ (UInt64.not_lt.mp hle)]
    rcases Nat.lt_or_ge (replayed ts).maxSeq.toNat REPLAY_RING_SIZE with hnear | hfar
    · omega
    · have hmin := hbounds.min_far hfar
      omega
  unfold ReplayRing.slice ReplayRing.clamp
  rw [if_neg (UInt64.not_lt.mpr h), if_neg htotal]
  dsimp only
  rw [hlo, hhi]
  by_cases hle : hi < lo
  · rw [if_pos hle, if_pos hle]
  · rw [if_neg hle, if_neg hle, if_neg (hnear hle), hfilter]
    exact sliceFrom_eq _ _ _ _ _

/-! ## The newest records -/

theorem lastInSlot_mem {ts : List (ReplayTick V)} {slot : Nat} {t : ReplayTick V} (h : lastInSlot ts slot = some t) :
    t ∈ ts ∧ replaySlot t.seq = slot :=
  ⟨List.mem_reverse.mp (List.mem_of_find?_eq_some h), by simpa using List.find?_some h⟩

theorem lastWith_mem {ts : List (ReplayTick V)} {s : UInt64} {t : ReplayTick V} (h : lastWith ts s = some t) :
    t ∈ ts ∧ t.seq = s :=
  ⟨List.mem_reverse.mp (List.mem_of_find?_eq_some h), by simpa using List.find?_some h⟩

/-- The last call for its slot is the last one with its number. -/
theorem lastWith_of_lastInSlot {ts : List (ReplayTick V)} {t : ReplayTick V} (h : lastInSlot ts (replaySlot t.seq) = some t) :
    lastWith ts t.seq = some t := by
  obtain ⟨-, before, after, hsplit, hbefore⟩ := List.find?_eq_some_iff_append.mp h
  refine List.find?_eq_some_iff_append.mpr ⟨by simp, before, after, hsplit, fun u hu => ?_⟩
  have hslot := hbefore u hu
  simp only [Bool.not_eq_true', decide_eq_false_iff_not] at hslot ⊢
  exact fun heq => hslot (by rw [heq])

/-- Each recent number is that of the last call for its slot: no older number has come late into it. -/
def Intact (ts : List (ReplayTick V)) : Prop :=
  ∀ t ∈ ts, Recent ts t.seq → (lastInSlot ts (replaySlot t.seq)).map (·.seq) = some t.seq

instance (ts : List (ReplayTick V)) : Decidable (Intact ts) := inferInstanceAs (Decidable (∀ t ∈ ts, _ → _))

/-- The newest record of each recent number from one to another, in order. -/
structure Answers (ts : List (ReplayTick V)) (fromSeq toSeq : UInt64) (out : List (FastReplayRecord V)) : Prop where
  sorted : out.Pairwise (fun a b => a.seq < b.seq)
  mem : ∀ rec, rec ∈ out ↔
    ∃ s, fromSeq ≤ s ∧ s ≤ toSeq ∧ Recent ts s ∧ (lastWith ts s).map ReplayTick.toRecord = some rec

/-- How many recent numbers there are from one to another. -/
def asked (ts : List (ReplayTick V)) (fromSeq toSeq : UInt64) : Nat :=
  ((ts.map (·.seq)).dedup.filter (fun s => fromSeq ≤ s ∧ s ≤ toSeq ∧ Recent ts s)).length

/-- There are no more records than numbers that are asked for. -/
theorem Answers.length_le {ts : List (ReplayTick V)} {fromSeq toSeq : UInt64} {out : List (FastReplayRecord V)}
    (h : Answers ts fromSeq toSeq out) : out.length ≤ asked ts fromSeq toSeq := by
  have hnodup : (out.map (·.seq)).Nodup := by
    refine List.pairwise_map.mpr (h.sorted.imp fun {a b} hlt heq => ?_)
    rw [heq] at hlt
    exact UInt64.lt_irrefl _ hlt
  have hsub : out.map (·.seq) ⊆ (ts.map (·.seq)).dedup.filter (fun s => fromSeq ≤ s ∧ s ≤ toSeq ∧ Recent ts s) := by
    intro s hs
    obtain ⟨rec, hrec, rfl⟩ := List.mem_map.mp hs
    obtain ⟨s, hlo, hhi, hrecent, hlast⟩ := (h.mem rec).mp hrec
    obtain ⟨t, ht, rfl⟩ := Option.map_eq_some_iff.mp hlast
    obtain ⟨hmem, rfl⟩ := lastWith_mem ht
    refine List.mem_filter.mpr ⟨List.mem_dedup.mpr (List.mem_map_of_mem hmem), ?_⟩
    exact decide_eq_true ⟨hlo, hhi, hrecent⟩
  rw [← List.length_map (f := (·.seq))]
  exact (List.subperm_of_subset hnodup hsub).length_le

/-- What an intact ring has between the bounds is the answer. -/
theorem Intact.answers {ts : List (ReplayTick V)} (h : Intact ts) {fromSeq toSeq lo hi : UInt64}
    (hlo : (if fromSeq < (replayed ts).minSeq then (replayed ts).minSeq else fromSeq) = lo)
    (hhi : (if toSeq > (replayed ts).maxSeq then (replayed ts).maxSeq else toSeq) = hi) :
    Answers ts fromSeq toSeq (if hi < lo then [] else found (replayed ts) lo hi) := by
  have hbetween (s : UInt64) : lo ≤ s ∧ s ≤ hi ↔
      (fromSeq ≤ s ∧ s ≤ toSeq) ∧ (replayed ts).minSeq ≤ s ∧ s ≤ (replayed ts).maxSeq := by
    rw [← hlo, ← hhi]
    simp only [UInt64.le_iff_toNat_le, UInt64.lt_iff_toNat_lt, gt_iff_lt]
    split <;> split <;> omega
  split
  · rename_i hlt
    refine ⟨.nil, fun rec => ⟨nofun, ?_⟩⟩
    rintro ⟨s, hfrom, hto, hrecent, -⟩
    obtain ⟨hge, hle⟩ := (hbetween s).mpr ⟨⟨hfrom, hto⟩, (recent_iff hrecent.1).mp hrecent⟩
    exact (UInt64.lt_irrefl _ (UInt64.lt_of_lt_of_le hlt (UInt64.le_trans hge hle))).elim
  · rename_i hle
    have hle := UInt64.not_lt.mp hle
    refine ⟨found_sorted hle, fun rec => ?_⟩
    rw [mem_found hle, ← and_assoc, hbetween, replayed_ring]
    constructor
    · rintro ⟨⟨⟨hfrom, hto⟩, hbounds⟩, hring⟩
      obtain ⟨t, ht, rfl⟩ := Option.map_eq_some_iff.mp hring
      obtain ⟨hmem, -⟩ := lastInSlot_mem ht
      refine ⟨t.seq, hfrom, hto, (recent_iff ⟨t, hmem, rfl⟩).mpr hbounds, ?_⟩
      rw [lastWith_of_lastInSlot ht]
      rfl
    · rintro ⟨s, hfrom, hto, hrecent, hlast⟩
      obtain ⟨t, ht, rfl⟩ := Option.map_eq_some_iff.mp hlast
      obtain ⟨hmem, rfl⟩ := lastWith_mem ht
      obtain ⟨u, hu, hseq⟩ := Option.map_eq_some_iff.mp (h t hmem hrecent)
      have hsame : lastWith ts t.seq = some u := by
        rw [← hseq] at hu ⊢
        exact lastWith_of_lastInSlot hu
      cases ht.symm.trans hsame
      refine ⟨⟨⟨hfrom, hto⟩, (recent_iff ⟨t, hmem, rfl⟩).mp hrecent⟩, ?_⟩
      show (lastInSlot ts (replaySlot t.seq)).map ReplayTick.toRecord = _
      rw [hu]
      rfl

/-- Every query with room for its answer gives the newest record of each recent number that it asks for, in order. -/
def AnswersAll (ts : List (ReplayTick V)) : Prop :=
  ∀ fromSeq toSeq symbol maxOut, AllSymbols symbol → asked ts fromSeq toSeq ≤ maxOut →
    Answers ts fromSeq toSeq ((replayed ts).slice fromSeq toSeq symbol maxOut)

/-- A query for one number finds it in its slot. -/
theorem AnswersAll.intact {ts : List (ReplayTick V)} (h : AnswersAll ts) : Intact ts := by
  intro t ht hrecent
  have hts := List.ne_nil_of_mem ht
  obtain ⟨hge, hle⟩ := (recent_iff hrecent.1).mp hrecent
  have hanswers := h t.seq t.seq none _ (.inl rfl) (Nat.le_refl _)
  obtain ⟨u, hu⟩ : ∃ u, lastWith ts t.seq = some u :=
    Option.isSome_iff_exists.mp (List.find?_isSome.mpr ⟨t, List.mem_reverse.mpr ht, by simp⟩)
  have hout := (hanswers.mem u.toRecord).mpr ⟨t.seq, UInt64.le_refl _, UInt64.le_refl _, hrecent, by rw [hu]; rfl⟩
  rw [slice_eq hts (UInt64.le_refl _) (if_neg (UInt64.not_lt.mpr hge)) (if_neg (UInt64.not_lt.mpr hle)) (.inl rfl),
    if_neg (UInt64.lt_irrefl _)] at hout
  obtain ⟨-, -, hring⟩ := (mem_found (UInt64.le_refl _) _).mp (List.mem_of_mem_take hout)
  have hseq : u.toRecord.seq = t.seq := (lastWith_mem hu).2
  rw [replayed_ring, hseq] at hring
  obtain ⟨v, hv, heq⟩ := Option.map_eq_some_iff.mp hring
  rw [hv, Option.map_some, ← hseq, ← heq]
  rfl

theorem answers_nil {ts : List (ReplayTick V)} {fromSeq toSeq : UInt64}
    (h : ∀ s, ¬(fromSeq ≤ s ∧ s ≤ toSeq ∧ Recent ts s)) : Answers ts fromSeq toSeq [] :=
  ⟨.nil, fun _ => ⟨nofun, fun ⟨s, hfrom, hto, hrecent, _⟩ => (h s ⟨hfrom, hto, hrecent⟩).elim⟩⟩

/-- Every query is answered exactly where each recent number is that of the last call for its slot. -/
theorem replay_answers (ts : List (ReplayTick V)) : AnswersAll ts ↔ Intact ts := by
  refine ⟨AnswersAll.intact, ?_⟩
  intro h fromSeq toSeq symbol maxOut hsymbol hroom
  rcases eq_or_ne ts [] with rfl | hts
  · have hslice : (replayed ([] : List (ReplayTick V))).slice fromSeq toSeq symbol maxOut = [] := by
      unfold ReplayRing.slice
      split <;> rfl
    rw [hslice]
    exact answers_nil fun s ⟨_, _, ⟨t, ht, _⟩, _⟩ => nomatch ht
  by_cases hle : toSeq < fromSeq
  · have hslice : (replayed ts).slice fromSeq toSeq symbol maxOut = [] := if_pos hle
    rw [hslice]
    exact answers_nil fun s ⟨hfrom, hto, _⟩ => UInt64.lt_irrefl _ (UInt64.lt_of_lt_of_le hle (UInt64.le_trans hfrom hto))
  · obtain ⟨lo, hlo⟩ : ∃ lo, (if fromSeq < (replayed ts).minSeq then (replayed ts).minSeq else fromSeq) = lo := ⟨_, rfl⟩
    obtain ⟨hi, hhi⟩ : ∃ hi, (if toSeq > (replayed ts).maxSeq then (replayed ts).maxSeq else toSeq) = hi := ⟨_, rfl⟩
    have hanswers := h.answers hlo hhi
    rw [slice_eq hts (UInt64.not_lt.mp hle) hlo hhi hsymbol]
    split at hanswers
    · rename_i hlt
      rw [if_pos hlt]
      exact hanswers
    · rename_i hge
      rw [if_neg hge, List.take_of_length_le (Nat.le_trans hanswers.length_le hroom)]
      exact hanswers

/-! ## Two ticks -/

/-- A tick with a number, and nothing else. -/
def tickAt (seq : UInt64) : ReplayTick Unit := ⟨seq, none, none, none, (), (), (), (), (), (), 1, 0, (), (), (), ()⟩

/-- A number that comes late, but not into the slot of another one, is found as well. -/
example : Intact [tickAt 65536, tickAt 1] := by decide

/-- A late number takes the slot of the newest one, and a query for that one finds nothing. -/
theorem replay_answers_false : ¬∀ ts : List (ReplayTick Unit), AnswersAll ts := by
  intro h
  have hintact := (h [tickAt 65536, tickAt 0]).intact
  revert hintact
  decide

end Mdrap.ReplayRing
