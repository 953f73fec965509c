import Mathlib.Data.Finset.Card
import Mdrap.Lib.Dict

/-!
# The key set of a dictionary

Where only the keys count, a dictionary is the finite set of its keys: giving a key a value inserts it, removing it erases it, and a
dictionary with distinct keys has as many items as its set has elements.
-/

namespace Lib.Dict

variable {κ α : Type*} [DecidableEq κ]

/-- The keys of a dictionary. -/
def keySet (d : Dict κ α) : Finset κ := (d.items.map (·.1)).toFinset

@[simp] theorem keySet_empty : (empty : Dict κ α).keySet = ∅ := rfl

theorem mem_keySet {d : Dict κ α} {k : κ} : k ∈ d.keySet ↔ d.contains k = true := by
  rw [keySet, List.mem_toFinset, contains, ← not_iff_not, Bool.not_eq_true, Option.isSome_eq_false_iff, Option.isNone_iff_eq_none,
    get?_eq_none_iff]

theorem notMem_keySet {d : Dict κ α} {k : κ} : k ∉ d.keySet ↔ d.get? k = none := by
  rw [mem_keySet, contains, Bool.not_eq_true, Option.isSome_eq_false_iff, Option.isNone_iff_eq_none]

theorem keySet_set (d : Dict κ α) (k : κ) (v : α) : (d.set k v).keySet = insert k d.keySet := by
  ext j
  rw [Finset.mem_insert, mem_keySet, mem_keySet, contains_set, Bool.or_eq_true, decide_eq_true_eq]

theorem keySet_erase (d : Dict κ α) (k : κ) : (d.erase k).keySet = d.keySet.erase k := by
  ext j
  rw [Finset.mem_erase, mem_keySet, mem_keySet, contains_erase, Bool.and_eq_true, Bool.not_eq_true', decide_eq_false_iff_not]

theorem Distinct.card_keySet {d : Dict κ α} (hd : d.Distinct) : d.keySet.card = d.size := by
  rw [keySet, List.toFinset_card_of_nodup hd, List.length_map, size]

/-- What holds of every item, by its key and its value. -/
theorem Distinct.forall_values {d : Dict κ α} (hd : d.Distinct) {p : α → Prop} :
    (∀ v ∈ d.values, p v) ↔ ∀ k v, d.get? k = some v → p v := by
  constructor
  · intro h k v hget
    exact h v (List.mem_map_of_mem (mem_of_get? hget))
  · intro h v hv
    obtain ⟨⟨k, v'⟩, hmem, rfl⟩ := List.mem_map.mp hv
    exact h k v' (hd.get?_of_mem hmem)

end Lib.Dict
