import Mdrap.Partition.Sequencer

/-!
# Which symbols are routed

By a hash every symbol is routed. By ranges a chunk begins beyond the alphabet for most numbers of shards, and a symbol of white space
has no first letter.
-/

namespace Mdrap

open Lib

namespace SymbolPartitioner

/-- The numbers of shards whose chunks all begin within the alphabet. -/
def fewShards : List Int := [1, 2, 3, 4, 5, 6, 7, 9, 13, 26]

/-! ## Ranges -/

/-- There is a range for each shard, a letter for each range, and a later letter is in the same range or a later one. -/
structure CoversAlphabet (p : SymbolPartitioner) : Prop where
  ranges : (p.shardRanges.length : Int) = p.numShards
  hit : ∀ k < p.shardRanges.length, ∃ i < 26, p.rangeIndex (Char.ofNat (65 + i)) = k
  monotone : ∀ j < 26, ∀ i ≤ j, p.rangeIndex (Char.ofNat (65 + i)) ≤ p.rangeIndex (Char.ofNat (65 + j))

instance (p : SymbolPartitioner) : Decidable p.CoversAlphabet :=
  decidable_of_iff
    ((p.shardRanges.length : Int) = p.numShards ∧ (∀ k < p.shardRanges.length, ∃ i < 26, p.rangeIndex (Char.ofNat (65 + i)) = k) ∧
      ∀ j < 26, ∀ i ≤ j, p.rangeIndex (Char.ofNat (65 + i)) ≤ p.rangeIndex (Char.ofNat (65 + j)))
    ⟨fun h => ⟨h.1, h.2.1, h.2.2⟩, fun h => ⟨h.ranges, h.hit, h.monotone⟩⟩

/-- There is a partitioner of so many shards, and it covers the alphabet. -/
def covered (n : Int) : Bool :=
  match new n "range" none with
  | .ok p => p.numShards = n ∧ p.mode = "range" ∧ p.CoversAlphabet
  | .error _ => false

theorem covered_few : ∀ n ∈ fewShards, covered n = true := by decide +kernel

theorem exists_covers {n : Int} (hn : n ∈ fewShards) :
    ∃ ranges, new n "range" none = .ok ⟨n, "range", ranges⟩ ∧ CoversAlphabet ⟨n, "range", ranges⟩ := by
  have h := covered_few n hn
  unfold covered at h
  split at h
  · rename_i p hp
    obtain ⟨numShards, mode, ranges⟩ := p
    obtain ⟨rfl, rfl, hcovers⟩ := of_decide_eq_true h
    exact ⟨ranges, hp, hcovers⟩
  · cases h

/-- A list that is read through item by item. -/
theorem mapM_ok_of_mem {α β : Type} {f : α → Except PyError β} {xs : List α} {ys : List β} (h : xs.mapM f = .ok ys) {x : α} (hx : x ∈ xs) :
    ∃ y, f x = .ok y := by
  induction xs generalizing ys with
  | nil => cases hx
  | cons a xs ih =>
    rw [List.mapM_cons] at h
    rcases ha : f a with e | b
    · rw [ha] at h
      cases h
    · rcases hrest : xs.mapM f with e | bs
      · rw [ha, hrest] at h
        cases h
      · rcases List.mem_cons.mp hx with rfl | hmem
        · exact ⟨b, ha⟩
        · exact ih hrest hmem

theorem new_small : ∀ m : Nat, m < 27 → m ≠ 0 → (m : Int) ∉ fewShards → (new m "range" none).toBool = false := by decide +kernel

/-- For any other number of shards there is no partitioner by ranges. -/
theorem new_of_not_few {n : Int} (hn : 1 ≤ n) (hfew : n ∉ fewShards) (p : SymbolPartitioner) : new n "range" none ≠ .ok p := by
  intro hp
  obtain ⟨m, rfl⟩ := Int.eq_ofNat_of_zero_le (show 0 ≤ n by omega)
  by_cases hsmall : m < 27
  · have hnone := new_small m hsmall (by omega) hfew
    rw [hp] at hnone
    cases hnone
  · have hchunk : (alphabet.length + m - 1) / m = 1 := by
      have hlength : alphabet.length = 26 := rfl
      rw [hlength]
      exact Nat.div_eq_of_lt_le (by omega) (by omega)
    have hranges : ∃ ranges, defaultRanges m = .ok ranges := by
      rw [new, if_neg (by omega)] at hp
      rcases hr : defaultRanges m with e | ranges
      · simp [hr, Except.map] at hp
      · exact ⟨ranges, rfl⟩
    obtain ⟨ranges, hranges⟩ := hranges
    rw [defaultRanges, if_neg (by omega), if_neg (by omega)] at hranges
    obtain ⟨y, hy⟩ := mapM_ok_of_mem hranges (x := 26) (List.mem_range.mpr (by omega))
    rw [hchunk] at hy
    cases hy

/-! ## Routing -/

variable {upper : List Char → List Char}

/-- A first letter. -/
def StartsWith (upper : List Char → List Char) (s : String) (c : Char) : Prop := s ≠ "" ∧ (symbolOf upper s).head? = some c

/-- The ranges that hold a letter are hit by some letter, and a symbol with a later first letter is in the same shard or a later one. -/
structure Ordered (upper : List Char → List Char) (p : SymbolPartitioner) : Prop where
  hit : ∀ k < (p.shardRanges.filter (fun range => textLe range.1 range.2)).length,
    ∃ c, 'A' ≤ c ∧ c ≤ 'Z' ∧ ∀ s, StartsWith upper s c → p.getShardId upper s = .ok k
  monotone : ∀ s s' c c' k k', StartsWith upper s c → StartsWith upper s' c' → 'A' ≤ c → c ≤ c' → c' ≤ 'Z' →
    p.getShardId upper s = .ok k → p.getShardId upper s' = .ok k' → k ≤ k'

/-- A symbol is routed to a shard, by ranges in the order of the alphabet. -/
def Routes (upper : List Char → List Char) (numShards : Int) (mode : String) (s : String) : Prop :=
  ∃ p, new numShards mode none = .ok p ∧ (∃ k, p.getShardId upper s = .ok k ∧ 0 ≤ k ∧ k < numShards) ∧
    (mode = "range" → Ordered upper p)

theorem letter_eq {c : Char} (hlow : 'A' ≤ c) (hhigh : c ≤ 'Z') : ∃ i < 26, c = Char.ofNat (65 + i) := by
  have hlow' : 65 ≤ c.toNat := hlow
  have hhigh' : c.toNat ≤ 90 := hhigh
  refine ⟨c.toNat - 65, by omega, ?_⟩
  rw [Nat.add_sub_cancel' hlow']
  exact (Char.ofNat_toNat c).symm

theorem letter_le : ∀ i < 26, 'A' ≤ Char.ofNat (65 + i) ∧ Char.ofNat (65 + i) ≤ 'Z' := by decide

theorem letter_toNat : ∀ i < 26, (Char.ofNat (65 + i)).toNat = 65 + i := by decide

/-- By ranges the first letter counts. -/
theorem getShardId_range {p : SymbolPartitioner} (hmode : p.mode ≠ "hash") {s : String} {c : Char} (h : StartsWith upper s c) :
    p.getShardId upper s = .ok (p.rangeIndex c) := by
  obtain ⟨hs, hfirst⟩ := h
  obtain ⟨rest, hrest⟩ : ∃ rest, symbolOf upper s = c :: rest := by
    cases hsym : symbolOf upper s with
    | nil => simp [hsym] at hfirst
    | cons a rest => exact ⟨rest, by simpa [hsym] using hfirst⟩
  simp [getShardId, hs, hmode, hrest]

theorem rangeIndex_bounds {p : SymbolPartitioner} (hp : p.CoversAlphabet) (hpos : 1 ≤ p.numShards) (c : Char) :
    0 ≤ p.rangeIndex c ∧ p.rangeIndex c < p.numShards := by
  have hranges := hp.ranges
  unfold rangeIndex
  split
  · rename_i idx hidx
    have := (List.findIdx?_eq_some_iff_getElem.mp hidx).1
    omega
  · omega

theorem Ordered.of_covers {p : SymbolPartitioner} (hmode : p.mode ≠ "hash") (hp : p.CoversAlphabet) : Ordered upper p where
  hit k hk := by
    obtain ⟨i, hi, hindex⟩ := hp.hit k (hk.trans_le (List.length_filter_le ..))
    refine ⟨Char.ofNat (65 + i), (letter_le i hi).1, (letter_le i hi).2, ?_⟩
    intro s hs
    rw [getShardId_range hmode hs, hindex]
  monotone s s' c c' k k' hs hs' hlow hle hhigh hk hk' := by
    rw [getShardId_range hmode hs, Except.ok.injEq] at hk
    rw [getShardId_range hmode hs', Except.ok.injEq] at hk'
    obtain ⟨i, hi, rfl⟩ := letter_eq hlow (Char.le_trans hle hhigh)
    obtain ⟨j, hj, rfl⟩ := letter_eq (Char.le_trans hlow hle) hhigh
    have hij : i ≤ j := by
      have hnum : (Char.ofNat (65 + i)).toNat ≤ (Char.ofNat (65 + j)).toNat := hle
      rw [letter_toNat i hi, letter_toNat j hj] at hnum
      omega
    rw [← hk, ← hk']
    exact hp.monotone j hj i hij

end SymbolPartitioner

end Mdrap
