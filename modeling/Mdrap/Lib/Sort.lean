import Mathlib.Tactic.Common
import Mathlib.Order.Lattice
import Mathlib.Data.List.Induction

/-!
# Sorting by a key

A stable sort: what has the same key stays in the order it came in. It is given by insertion, each element behind those whose key
is not greater.
-/

namespace Lib

variable {α κ : Type*} [LinearOrder κ] (key : α → κ)

/-- Put an element behind those whose key is not greater. -/
def insertBy (x : α) : List α → List α
  | [] => [x]
  | y :: ys => if key y ≤ key x then y :: insertBy x ys else x :: y :: ys

/-- The list in the order of its keys. -/
def sortBy (xs : List α) : List α := xs.foldl (fun acc x => insertBy key x acc) []

/-- The keys do not decrease. -/
def SortedBy (xs : List α) : Prop := xs.Pairwise (fun a b => key a ≤ key b)

variable {key}

@[simp] theorem mem_insertBy {x y : α} {xs : List α} : y ∈ insertBy key x xs ↔ y = x ∨ y ∈ xs := by
  induction xs with
  | nil => simp [insertBy]
  | cons z zs ih =>
    rw [insertBy]
    split
    · simp [ih, or_left_comm]
    · simp

@[simp] theorem mem_sortBy {y : α} {xs : List α} : y ∈ sortBy key xs ↔ y ∈ xs := by
  induction xs using List.reverseRecOn with
  | nil => rfl
  | append_singleton xs x ih =>
    have hstep : sortBy key (xs ++ [x]) = insertBy key x (sortBy key xs) := by
      rw [sortBy, List.foldl_append]
      rfl
    rw [hstep, mem_insertBy, ih, List.mem_append, List.mem_singleton, or_comm]

theorem insertBy_perm (x : α) (xs : List α) : (insertBy key x xs).Perm (x :: xs) := by
  induction xs with
  | nil => exact .refl _
  | cons y ys ih =>
    rw [insertBy]
    split
    · exact (ih.cons y).trans (.swap x y ys)
    · exact .refl _

/-- Sorting moves the elements only. -/
theorem sortBy_perm (xs : List α) : (sortBy key xs).Perm xs := by
  induction xs using List.reverseRecOn with
  | nil => exact .refl _
  | append_singleton xs x ih =>
    rw [sortBy, List.foldl_append]
    exact (insertBy_perm x _).trans ((ih.cons x).trans (List.perm_append_singleton x xs).symm)

/-- What stands before, with keys that are not greater, stays where it is. -/
theorem insertBy_append {x : α} {xs : List α} (h : ∀ y ∈ xs, key y ≤ key x) (ys : List α) :
    insertBy key x (xs ++ ys) = xs ++ insertBy key x ys := by
  induction xs with
  | nil => rfl
  | cons z zs ih =>
    rw [List.cons_append, insertBy, if_pos (h z (List.mem_cons_self ..)), ih (fun y hy => h y (List.mem_cons_of_mem _ hy))]
    rfl

theorem insertBy_of_le {x : α} {xs : List α} (h : ∀ y ∈ xs, key y ≤ key x) : insertBy key x xs = xs ++ [x] := by
  have := insertBy_append h []
  rwa [List.append_nil] at this

theorem SortedBy.insertBy {x : α} {xs : List α} (h : SortedBy key xs) : SortedBy key (insertBy key x xs) := by
  induction xs with
  | nil => exact List.pairwise_singleton _ _
  | cons y ys ih =>
    obtain ⟨hy, hys⟩ := List.pairwise_cons.mp h
    rw [Lib.insertBy]
    split
    · rename_i hle
      refine List.pairwise_cons.mpr ⟨?_, ih hys⟩
      intro z hz
      rcases mem_insertBy.mp hz with rfl | hz
      · exact hle
      · exact hy z hz
    · rename_i hlt
      refine List.pairwise_cons.mpr ⟨?_, h⟩
      intro z hz
      rcases List.mem_cons.mp hz with rfl | hz
      · exact (not_le.mp hlt).le
      · exact (not_le.mp hlt).le.trans (hy z hz)

theorem SortedBy.last {xs : List α} {x : α} (h : SortedBy key (xs ++ [x])) : ∀ y ∈ xs, key y ≤ key x :=
  fun y hy => (List.pairwise_append.mp h).2.2 y hy x (List.mem_singleton_self x)

theorem sortBy_sorted (xs : List α) : SortedBy key (sortBy key xs) := by
  induction xs using List.reverseRecOn with
  | nil => exact List.Pairwise.nil
  | append_singleton xs x ih =>
    rw [Lib.sortBy, List.foldl_append]
    exact ih.insertBy

/-- A sorted list is not changed. -/
theorem SortedBy.sortBy {xs : List α} (h : SortedBy key xs) : sortBy key xs = xs := by
  induction xs using List.reverseRecOn with
  | nil => rfl
  | append_singleton xs x ih =>
    rw [Lib.sortBy, List.foldl_append]
    change Lib.insertBy key x (Lib.sortBy key xs) = _
    rw [ih (List.pairwise_append.mp h).1, insertBy_of_le h.last]

/-- Sorting with one element more inserts it. -/
theorem SortedBy.sortBy_append {xs : List α} (h : SortedBy key xs) (x : α) : Lib.sortBy key (xs ++ [x]) = Lib.insertBy key x xs := by
  rw [Lib.sortBy, List.foldl_append]
  change Lib.insertBy key x (Lib.sortBy key xs) = _
  rw [h.sortBy]

/-- Where no two elements have one key, their order does not matter. -/
theorem sortBy_eq_of_perm {xs ys : List α} (h : xs.Perm ys) (hkey : ∀ x ∈ xs, ∀ y ∈ xs, key x = key y → x = y) :
    sortBy key xs = sortBy key ys := by
  refine List.Perm.eq_of_pairwise ?_ (sortBy_sorted xs) (sortBy_sorted ys) ((sortBy_perm xs).trans (h.trans (sortBy_perm ys).symm))
  intro x y hx hy hxy hyx
  exact hkey x (mem_sortBy.mp hx) y (h.mem_iff.mpr (mem_sortBy.mp hy)) (le_antisymm hxy hyx)

end Lib
