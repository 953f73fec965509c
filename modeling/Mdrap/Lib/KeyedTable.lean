import Mathlib.Data.List.Nodup
import Mathlib.Data.List.Perm.Subperm

/-!
# Tables with a primary key

A table is a list of rows of which no two have the same key. A row is inserted behind the others unless its key is taken, and then it is
passed over.
-/

namespace Lib

/-- Rows of which no two have the same key. -/
structure KeyedTable {R K : Type} (key : R → K) where
  rows : List R
  distinct : (rows.map key).Nodup

namespace KeyedTable

variable {R K : Type} {key : R → K}

/-- The keys that are taken. -/
def keys (t : KeyedTable key) : List K := t.rows.map key

/-- The number of rows. -/
def count (t : KeyedTable key) : Nat := t.rows.length

/-- A table without rows. -/
def empty : KeyedTable key := ⟨[], List.nodup_nil⟩

@[simp] theorem rows_empty : (empty : KeyedTable key).rows = [] := rfl

@[simp] theorem keys_empty : (empty : KeyedTable key).keys = [] := rfl

theorem mem_keys_of_mem {t : KeyedTable key} {r : R} (h : r ∈ t.rows) : key r ∈ t.keys := List.mem_map_of_mem h

theorem mem_keys {t : KeyedTable key} {k : K} : k ∈ t.keys ↔ ∃ r ∈ t.rows, key r = k := List.mem_map

/-- A row is known by its key. -/
theorem eq_of_key_eq {t : KeyedTable key} {r r' : R} (h : r ∈ t.rows) (h' : r' ∈ t.rows) (hkey : key r = key r') : r = r' :=
  List.inj_on_of_nodup_map t.distinct h h' hkey

/-- A table has at least as many rows as one whose keys it has. -/
theorem count_le {R' : Type} {key' : R' → K} {t : KeyedTable key} {u : KeyedTable key'} (h : ∀ k ∈ t.keys, k ∈ u.keys) :
    t.count ≤ u.count := by
  have hperm : t.keys.Subperm u.keys := t.distinct.subperm h
  simpa [keys, count] using hperm.length_le

variable [DecidableEq K]

/-- `INSERT OR IGNORE` of a row. -/
def insertOrIgnore (t : KeyedTable key) (r : R) : KeyedTable key :=
  if h : key r ∈ t.rows.map key then t
  else ⟨t.rows ++ [r], by
    rw [List.map_append, List.map_singleton, ← List.concat_eq_append]
    exact t.distinct.concat h⟩

/-- `INSERT OR IGNORE` of some rows. -/
def insertAll (t : KeyedTable key) (rs : List R) : KeyedTable key := rs.foldl insertOrIgnore t

@[simp] theorem insertAll_nil (t : KeyedTable key) : t.insertAll [] = t := rfl

@[simp] theorem insertAll_cons (t : KeyedTable key) (r : R) (rs : List R) :
    t.insertAll (r :: rs) = (t.insertOrIgnore r).insertAll rs := rfl

theorem mem_insertOrIgnore {t : KeyedTable key} {r x : R} :
    x ∈ (t.insertOrIgnore r).rows ↔ x ∈ t.rows ∨ (x = r ∧ key r ∉ t.keys) := by
  unfold insertOrIgnore
  split
  · rename_i htaken
    have htaken : key r ∈ t.keys := htaken
    simp [htaken]
  · rename_i hfree
    have hfree : key r ∉ t.keys := hfree
    simp [hfree]

theorem mem_keys_insertOrIgnore {t : KeyedTable key} {r : R} {k : K} :
    k ∈ (t.insertOrIgnore r).keys ↔ k ∈ t.keys ∨ k = key r := by
  unfold insertOrIgnore
  split
  · rename_i htaken
    constructor
    · exact .inl
    · rintro (h | rfl)
      · exact h
      · exact htaken
  · simp [keys]

theorem mem_keys_insertAll {rs : List R} {t : KeyedTable key} {k : K} :
    k ∈ (t.insertAll rs).keys ↔ k ∈ t.keys ∨ k ∈ rs.map key := by
  induction rs generalizing t with
  | nil => simp
  | cons r rs ih => rw [insertAll_cons, ih, mem_keys_insertOrIgnore, List.map_cons, List.mem_cons, or_assoc]

/-- Every row of the result was there, or was to be inserted and its key was not taken. -/
theorem of_mem_insertAll {rs : List R} {t : KeyedTable key} {x : R} (h : x ∈ (t.insertAll rs).rows) :
    x ∈ t.rows ∨ (x ∈ rs ∧ key x ∉ t.keys) := by
  induction rs generalizing t with
  | nil => exact .inl h
  | cons r rs ih =>
    rcases ih (t := t.insertOrIgnore r) h with hthere | ⟨hmem, hfree⟩
    · rcases mem_insertOrIgnore.mp hthere with hthere | ⟨rfl, hfree⟩
      · exact .inl hthere
      · exact .inr ⟨List.mem_cons_self, hfree⟩
    · exact .inr ⟨List.mem_cons_of_mem _ hmem, fun htaken => hfree (mem_keys_insertOrIgnore.mpr (.inl htaken))⟩

theorem mem_insertAll_of_mem (rs : List R) {t : KeyedTable key} {x : R} (h : x ∈ t.rows) : x ∈ (t.insertAll rs).rows := by
  induction rs generalizing t with
  | nil => exact h
  | cons r rs ih => exact ih (mem_insertOrIgnore.mpr (.inl h))

/-- A row is in the result of an insertion of rows with different keys where it was there, or where it is one of them and its key was
not taken. -/
theorem mem_insertAll {rs : List R} (hrs : (rs.map key).Nodup) {t : KeyedTable key} {x : R} :
    x ∈ (t.insertAll rs).rows ↔ x ∈ t.rows ∨ (x ∈ rs ∧ key x ∉ t.keys) := by
  refine ⟨of_mem_insertAll, ?_⟩
  rintro (h | ⟨hmem, hfree⟩)
  · exact mem_insertAll_of_mem rs h
  · -- some row of the result has the key; it was not there before, so it is this one
    obtain ⟨y, hy, hkey⟩ := mem_keys.mp (mem_keys_insertAll.mpr (.inr (List.mem_map_of_mem hmem)) : key x ∈ (t.insertAll rs).keys)
    rcases of_mem_insertAll hy with hold | ⟨hnew, -⟩
    · exact absurd (hkey ▸ mem_keys_of_mem hold) hfree
    · rw [← List.inj_on_of_nodup_map hrs hnew hmem hkey]
      exact hy

end KeyedTable

end Lib
