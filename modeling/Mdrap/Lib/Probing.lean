import Mathlib.Data.Set.Insert
import Mathlib.Logic.Function.Basic
import Mathlib.Tactic.Common

/-!
# Tables that are probed

A table of keys in which each key has a sequence of places. A key is looked for from its first place on, until it is found, until a
place is vacant, or until so many places were tried. As long as keys only go to the first vacant place, the search finds just the keys
that were inserted.
-/

namespace Lib

theorem findSome?_range_eq_some {β : Type*} {f : Nat → Option β} {n : Nat} {b : β}
    (h : (List.range n).findSome? f = some b) : ∃ i < n, f i = some b ∧ ∀ j < i, f j = none := by
  induction n with
  | zero => cases h
  | succ n ih =>
    rw [List.range_succ, List.findSome?_append] at h
    rcases hn : (List.range n).findSome? f with _ | b'
    · have hnone := List.findSome?_eq_none_iff.mp hn
      rw [hn] at h
      rcases hlast : f n with _ | b'
      · simp [hlast] at h
      · refine ⟨n, by omega, ?_, fun j hj => hnone j (List.mem_range.mpr hj)⟩
        simpa [hlast] using h
    · rw [hn] at h
      obtain ⟨i, hi, hfound, hbefore⟩ := ih (hn.trans h)
      exact ⟨i, by omega, hfound, hbefore⟩

section Probing

variable {κ : Type*} [DecidableEq κ]

/-- Where a key is, or the first vacant place for it. -/
def probe (vacant : κ) (place : κ → Nat → Nat) (limit : Nat) (table : Nat → κ) (key : κ) : Option (Bool × Nat) :=
  (List.range limit).findSome? (fun i =>
    if table (place key i) = key then some (true, place key i)
    else if table (place key i) = vacant then some (false, place key i) else none)

/-- A table has the keys of a set, each one where the search comes by. -/
structure Probed (vacant : κ) (place : κ → Nat → Nat) (limit : Nat) (table : Nat → κ) (s : Set κ) : Prop where
  within : ∀ a, table a ≠ vacant → table a ∈ s
  found : ∀ k ∈ s, k ≠ vacant ∧ ∃ i < limit, table (place k i) = k ∧ ∀ j < i, table (place k j) ≠ vacant

variable {vacant : κ} {place : κ → Nat → Nat} {limit : Nat} {table : Nat → κ} {s : Set κ} {key : κ} {a : Nat}

theorem probe_found (h : probe vacant place limit table key = some (true, a)) : table a = key := by
  obtain ⟨i, -, hfound, -⟩ := findSome?_range_eq_some h
  split at hfound
  · rename_i heq
    obtain rfl : place key i = a := by simpa using hfound
    exact heq
  · split at hfound
    · simp at hfound
    · cases hfound

theorem probe_vacant (h : probe vacant place limit table key = some (false, a)) :
    ∃ i < limit, place key i = a ∧ table a = vacant ∧ ∀ j < i, table (place key j) ≠ vacant ∧ table (place key j) ≠ key := by
  obtain ⟨i, hi, hfound, hbefore⟩ := findSome?_range_eq_some h
  split at hfound
  · simp at hfound
  · split at hfound
    · rename_i hvacant
      obtain rfl : place key i = a := by simpa using hfound
      refine ⟨i, hi, rfl, hvacant, ?_⟩
      intro j hj
      have hnone := hbefore j hj
      constructor
      · intro heq
        by_cases hkey : vacant = key
        · simp [heq, hkey] at hnone
        · simp [heq, hkey] at hnone
      · intro heq
        simp [heq] at hnone
    · cases hfound

namespace Probed

omit [DecidableEq κ] in
theorem empty (vacant : κ) (place : κ → Nat → Nat) (limit : Nat) : Probed vacant place limit (fun _ => vacant) ∅ :=
  ⟨fun _ h => absurd rfl h, fun _ h => h.elim⟩

/-- The search finds the keys that are in the table, and no others. -/
theorem probe_iff (h : Probed vacant place limit table s) (hkey : key ≠ vacant) :
    (∃ a, probe vacant place limit table key = some (true, a)) ↔ key ∈ s := by
  constructor
  · rintro ⟨a, hfound⟩
    have heq := probe_found hfound
    exact heq ▸ h.within a (heq ▸ hkey)
  · intro hmem
    obtain ⟨-, i, hi, heq, hbefore⟩ := h.found key hmem
    rcases hprobe : probe vacant place limit table key with _ | ⟨_ | _, a⟩
    · have hnone := List.findSome?_eq_none_iff.mp hprobe i (List.mem_range.mpr hi)
      simp [heq] at hnone
    · -- the search would have stopped before the key
      obtain ⟨j, -, hplace, hvacant, hclear⟩ := probe_vacant hprobe
      rcases lt_trichotomy j i with hlt | rfl | hgt
      · exact absurd (hplace ▸ hvacant) (hbefore j hlt)
      · rw [hplace, hvacant] at heq
        exact absurd heq.symm hkey
      · exact absurd heq (hclear i hgt).2
    · exact ⟨a, rfl⟩

/-- A key that goes to the first vacant place is in the table, and the others stay. -/
theorem insert (h : Probed vacant place limit table s) (hkey : key ≠ vacant)
    (hprobe : probe vacant place limit table key = some (false, a)) :
    Probed vacant place limit (Function.update table a key) (insert key s) := by
  obtain ⟨i, hi, hplace, hvacant, hclear⟩ := probe_vacant hprobe
  have hkept {b : Nat} (hb : table b ≠ vacant) : Function.update table a key b = table b :=
    Function.update_of_ne (by rintro rfl; exact hb hvacant) key table
  constructor
  · intro b hb
    rcases eq_or_ne b a with rfl | hne
    · rw [Function.update_self]
      exact Set.mem_insert key s
    · rw [Function.update_of_ne hne] at hb ⊢
      exact Set.mem_insert_of_mem key (h.within b hb)
  · rintro k (rfl | hmem)
    · refine ⟨hkey, i, hi, ?_, ?_⟩
      · rw [hplace, Function.update_self]
      · intro j hj
        rw [hkept (hclear j hj).1]
        exact (hclear j hj).1
    · obtain ⟨hk, j, hj, heq, hbefore⟩ := h.found k hmem
      refine ⟨hk, j, hj, ?_, ?_⟩
      · rw [hkept (by rw [heq]; exact hk), heq]
      · intro m hm
        rw [hkept (hbefore m hm)]
        exact hbefore m hm

end Probed

end Probing

end Lib
