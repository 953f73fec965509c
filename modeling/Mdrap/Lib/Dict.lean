import Mathlib.Algebra.GroupWithZero.Nat
import Mathlib.Tactic.Common
import Mathlib.Data.List.Basic

/-!
# Dictionaries

A dictionary lists its items in the order in which their keys came in. A key that is given a new value keeps its place; a key that
was removed comes in at the end.
-/

namespace Lib

/-- A dictionary. -/
structure Dict (κ α : Type*) where
  items : List (κ × α)
  deriving DecidableEq

namespace Dict

variable {κ α : Type*} [DecidableEq κ]

def empty : Dict κ α := ⟨[]⟩

/-- The value of a key. -/
def get? (d : Dict κ α) (k : κ) : Option α := (d.items.find? (fun kv => kv.1 = k)).map (·.2)

def contains (d : Dict κ α) (k : κ) : Bool := (d.get? k).isSome

/-- Give a key a value. -/
def set (d : Dict κ α) (k : κ) (v : α) : Dict κ α :=
  if d.contains k then ⟨d.items.map (fun kv => if kv.1 = k then (k, v) else kv)⟩ else ⟨d.items ++ [(k, v)]⟩

/-- Remove a key. -/
def erase (d : Dict κ α) (k : κ) : Dict κ α := ⟨d.items.filter (fun kv => kv.1 ≠ k)⟩

/-- Give a key the value it had, or remove it where it had none. -/
def restore (d : Dict κ α) (k : κ) : Option α → Dict κ α
  | none => d.erase k
  | some v => d.set k v

def values (d : Dict κ α) : List α := d.items.map (·.2)

def size (d : Dict κ α) : Nat := d.items.length

@[simp] theorem get?_empty (k : κ) : (empty : Dict κ α).get? k = none := rfl

theorem find?_replace (items : List (κ × α)) (k j : κ) (v : α) :
    ((items.map (fun kv => if kv.1 = k then (k, v) else kv)).find? (fun kv => kv.1 = j)).map (·.2) =
      if j = k then (items.find? (fun kv => kv.1 = k)).map (fun _ => v) else (items.find? (fun kv => kv.1 = j)).map (·.2) := by
  induction items with
  | nil => split <;> rfl
  | cons kv items ih =>
    by_cases hj : j = k
    · subst hj
      by_cases hkv : kv.1 = j
      · simp [hkv]
      · simpa [hkv] using ih
    · by_cases hkv : kv.1 = k
      · have hne : ¬k = j := fun h => hj h.symm
        have hne' : ¬kv.1 = j := fun h => hj (h.symm.trans hkv)
        simpa [hkv, hne, hj] using ih
      · by_cases hkj : kv.1 = j
        · subst hkj
          simp [hkv]
        · simpa [hkv, hkj, hj] using ih

theorem get?_set (d : Dict κ α) (k j : κ) (v : α) : (d.set k v).get? j = if j = k then some v else d.get? j := by
  rw [set]
  split
  · rename_i hcontains
    rw [get?, find?_replace]
    split
    · rw [contains, get?] at hcontains
      obtain ⟨w, hw⟩ := Option.isSome_iff_exists.mp hcontains
      obtain ⟨kv, hkv, -⟩ := Option.map_eq_some_iff.mp hw
      rw [hkv]
      rfl
    · rfl
  · rename_i hcontains
    rw [contains, Bool.not_eq_true, Option.isSome_eq_false_iff, Option.isNone_iff_eq_none, get?, Option.map_eq_none_iff] at hcontains
    rw [get?, List.find?_append]
    by_cases hj : j = k
    · subst hj
      simp [hcontains]
    · have hne : ¬k = j := fun h => hj h.symm
      simp [hj, hne, get?]

@[simp] theorem get?_set_self (d : Dict κ α) (k : κ) (v : α) : (d.set k v).get? k = some v := by rw [get?_set, if_pos rfl]

theorem get?_set_ne (d : Dict κ α) {k j : κ} (h : j ≠ k) (v : α) : (d.set k v).get? j = d.get? j := by rw [get?_set, if_neg h]

theorem get?_erase (d : Dict κ α) (k j : κ) : (d.erase k).get? j = if j = k then none else d.get? j := by
  rw [get?, erase, List.find?_filter, get?]
  by_cases hj : j = k
  · subst hj
    rw [if_pos rfl, Option.map_eq_none_iff, List.find?_eq_none]
    simp
  · rw [if_neg hj]
    congr 1
    congr 1
    funext kv
    by_cases hkv : kv.1 = j <;> simp [hkv, hj]

theorem get?_foldl_erase (ks : List κ) (d : Dict κ α) (j : κ) : (ks.foldl erase d).get? j = if j ∈ ks then none else d.get? j := by
  induction ks generalizing d with
  | nil => simp
  | cons k ks ih =>
    rw [List.foldl_cons, ih, get?_erase]
    by_cases hj : j = k
    · simp [hj]
    · simp [hj]

/-- A key that is removed has left nothing behind. -/
theorem erase_set (d : Dict κ α) (k : κ) (v : α) : (d.set k v).erase k = d.erase k := by
  unfold set
  split
  · unfold erase
    simp only [mk.injEq]
    induction d.items with
    | nil => rfl
    | cons kv items ih => by_cases hk : kv.1 = k <;> simp_all
  · simp [erase]

theorem get?_set_eq_update (d : Dict κ α) (k : κ) (v : α) : (d.set k v).get? = Function.update d.get? k (some v) := by
  funext j
  rw [get?_set, Function.update_apply]

theorem get?_erase_eq_update (d : Dict κ α) (k : κ) : (d.erase k).get? = Function.update d.get? k none := by
  funext j
  rw [get?_erase, Function.update_apply]

theorem get?_restore (d : Dict κ α) (k j : κ) (v : Option α) : (d.restore k v).get? j = if j = k then v else d.get? j := by
  cases v with
  | none => exact d.get?_erase k j
  | some v => exact d.get?_set k j v

theorem get?_restore_ne (d : Dict κ α) {k j : κ} (h : j ≠ k) (v : Option α) : (d.restore k v).get? j = d.get? j := by
  rw [get?_restore, if_neg h]

theorem mem_of_get? {d : Dict κ α} {k : κ} {v : α} (h : d.get? k = some v) : (k, v) ∈ d.items := by
  obtain ⟨kv, hkv, rfl⟩ := Option.map_eq_some_iff.mp h
  have hk := List.find?_some hkv
  have hmem := List.mem_of_find?_eq_some hkv
  simp only [decide_eq_true_eq] at hk
  rwa [← hk]

/-- A dictionary without keys is empty. -/
theorem items_eq_nil {d : Dict κ α} (h : ∀ k, d.get? k = none) : d.items = [] := by
  rcases hitems : d.items with _ | ⟨kv, rest⟩
  · rfl
  · have := h kv.1
    simp [get?, hitems] at this

/-! ## Distinct keys -/

/-- No key has two items. -/
def Distinct (d : Dict κ α) : Prop := (d.items.map (·.1)).Nodup

omit [DecidableEq κ] in
theorem distinct_empty : (empty : Dict κ α).Distinct := List.nodup_nil

/-- A key that is not there. -/
theorem get?_eq_none_iff {d : Dict κ α} {k : κ} : d.get? k = none ↔ k ∉ d.items.map (·.1) := by
  rw [get?, Option.map_eq_none_iff, List.find?_eq_none]
  simp only [decide_eq_true_eq, List.mem_map, not_exists, not_and]

theorem items_set_of_none {d : Dict κ α} {k : κ} (h : d.get? k = none) (v : α) : (d.set k v).items = d.items ++ [(k, v)] := by
  rw [set, if_neg (by simp [contains, h])]

/-- Where the item of a key stands, when keys are distinct. -/
theorem Distinct.split {d : Dict κ α} (hd : d.Distinct) {k : κ} {v : α} (h : d.get? k = some v) :
    ∃ l r, d.items = l ++ (k, v) :: r ∧ (∀ w, (d.set k w).items = l ++ (k, w) :: r) ∧ (d.erase k).items = l ++ r := by
  obtain ⟨kv, hkv, hv⟩ := Option.map_eq_some_iff.mp h
  obtain ⟨hk, l, r, hitems, -⟩ := List.find?_eq_some_iff_append.mp hkv
  obtain ⟨k', v'⟩ := kv
  simp only [decide_eq_true_eq] at hk hv
  subst hk hv
  have hnodup : k' ∉ l.map (·.1) ∧ k' ∉ r.map (·.1) := by
    rw [Distinct, hitems, List.map_append, List.map_cons] at hd
    obtain ⟨-, hr, hdisjoint⟩ := List.nodup_append.mp hd
    exact ⟨fun hl => hdisjoint _ hl _ List.mem_cons_self rfl, (List.nodup_cons.mp hr).1⟩
  have hleft : ∀ x ∈ l, x.1 ≠ k' := fun x hx heq => hnodup.1 (heq ▸ List.mem_map_of_mem hx)
  have hright : ∀ x ∈ r, x.1 ≠ k' := fun x hx heq => hnodup.2 (heq ▸ List.mem_map_of_mem hx)
  refine ⟨l, r, hitems, ?_, ?_⟩
  · intro w
    have hmap : ∀ xs : List (κ × α), (∀ x ∈ xs, x.1 ≠ k') → xs.map (fun kv => if kv.1 = k' then (k', w) else kv) = xs := by
      intro xs hxs
      conv => rhs; rw [← List.map_id xs]
      exact List.map_congr_left (fun x hx => if_neg (hxs x hx))
    rw [set, if_pos (by simp [contains, h]), hitems, List.map_append, List.map_cons, if_pos rfl, hmap l hleft, hmap r hright]
  · have hfilter : ∀ xs : List (κ × α), (∀ x ∈ xs, x.1 ≠ k') → xs.filter (fun kv => kv.1 ≠ k') = xs :=
      fun xs hxs => List.filter_eq_self.mpr (fun x hx => decide_eq_true (hxs x hx))
    rw [erase, hitems, List.filter_append, List.filter_cons, hfilter l hleft, hfilter r hright]
    simp

theorem Distinct.get?_of_mem {d : Dict κ α} (hd : d.Distinct) {k : κ} {v : α} (h : (k, v) ∈ d.items) : d.get? k = some v := by
  rcases hget : d.get? k with _ | w
  · exact absurd (List.mem_map_of_mem h) (get?_eq_none_iff.mp hget)
  · obtain ⟨l, r, hitems, -, -⟩ := hd.split hget
    rw [Distinct, hitems, List.map_append, List.map_cons, List.nodup_append] at hd
    obtain ⟨-, hr, hdisjoint⟩ := hd
    rw [hitems] at h
    rcases List.mem_append.mp h with hl | hcons
    · exact absurd rfl (hdisjoint k (List.mem_map_of_mem hl) k List.mem_cons_self)
    · rcases List.mem_cons.mp hcons with heq | hmem
      · rw [Prod.mk.injEq] at heq
        rw [heq.2]
      · exact absurd (List.mem_map_of_mem hmem) (List.nodup_cons.mp hr).1

/-- An item is the one that was given, or another one under another key. -/
theorem eq_or_mem_of_mem_set {d : Dict κ α} {k : κ} {v : α} {kv : κ × α} (h : kv ∈ (d.set k v).items) :
    kv = (k, v) ∨ kv ∈ d.items ∧ kv.1 ≠ k := by
  unfold set at h
  split at h
  · obtain ⟨x, hx, rfl⟩ := List.mem_map.mp h
    by_cases hk : x.1 = k
    · exact .inl (by simp [hk])
    · exact .inr (by simpa [hk] using hx)
  · rename_i hcontains
    rcases List.mem_append.mp h with hmem | hmem
    · refine .inr ⟨hmem, ?_⟩
      rintro rfl
      simp only [contains, Bool.not_eq_true, Option.isSome_eq_false_iff, Option.isNone_iff_eq_none] at hcontains
      exact get?_eq_none_iff.mp hcontains (List.mem_map_of_mem hmem)
    · exact .inl (List.mem_singleton.mp hmem)

theorem mem_of_mem_set {d : Dict κ α} {k : κ} {v : α} {kv : κ × α} (h : kv ∈ (d.set k v).items) : kv = (k, v) ∨ kv ∈ d.items :=
  (eq_or_mem_of_mem_set h).imp_right And.left

theorem mem_of_mem_erase {d : Dict κ α} {k : κ} {kv : κ × α} (h : kv ∈ (d.erase k).items) : kv ∈ d.items :=
  List.mem_of_mem_filter h

theorem contains_of_mem {d : Dict κ α} {kv : κ × α} (h : kv ∈ d.items) : d.contains kv.1 = true := by
  rw [contains, Option.isSome_iff_ne_none]
  exact fun hnone => get?_eq_none_iff.mp hnone (List.mem_map_of_mem h)

theorem Distinct.erase {d : Dict κ α} (hd : d.Distinct) (k : κ) : (d.erase k).Distinct :=
  hd.sublist (List.filter_sublist.map _)

theorem Distinct.foldl_erase {d : Dict κ α} (hd : d.Distinct) (ks : List κ) : (ks.foldl Dict.erase d).Distinct := by
  induction ks generalizing d with
  | nil => exact hd
  | cons k ks ih => exact ih (hd.erase k)

theorem keys_set_of_some {d : Dict κ α} {k : κ} {v : α} (h : d.get? k = some v) (w : α) :
    (d.set k w).items.map (·.1) = d.items.map (·.1) := by
  rw [set, if_pos (by simp [contains, h]), List.map_map]
  refine List.map_congr_left (fun x _ => ?_)
  by_cases hx : x.1 = k
  · simp [hx]
  · simp [hx]

theorem Distinct.set {d : Dict κ α} (hd : d.Distinct) (k : κ) (v : α) : (d.set k v).Distinct := by
  rcases h : d.get? k with _ | w
  · rw [Distinct, items_set_of_none h, List.map_append, List.map_singleton]
    have hnew := get?_eq_none_iff.mp h
    refine List.nodup_append.mpr ⟨hd, by simp, ?_⟩
    intro a ha b hb
    rw [List.mem_singleton] at hb
    subst hb
    exact fun heq => hnew (heq ▸ ha)
  · rw [Distinct, keys_set_of_some h]
    exact hd

/-! ## Sizes -/

theorem contains_eq_true_iff {d : Dict κ α} {k : κ} : d.contains k = true ↔ ∃ v, d.get? k = some v := Option.isSome_iff_exists

@[simp] theorem contains_empty (k : κ) : (empty : Dict κ α).contains k = false := rfl

theorem contains_set (d : Dict κ α) (k j : κ) (v : α) : (d.set k v).contains j = (decide (j = k) || d.contains j) := by
  rw [contains, contains, get?_set]
  by_cases h : j = k
  · simp [h]
  · simp [h]

theorem contains_erase (d : Dict κ α) (k j : κ) : (d.erase k).contains j = (!decide (j = k) && d.contains j) := by
  rw [contains, contains, get?_erase]
  by_cases h : j = k
  · simp [h]
  · simp [h]

theorem size_set_le (d : Dict κ α) (k : κ) (v : α) : (d.set k v).size ≤ d.size + 1 := by
  unfold set size
  split
  · rw [List.length_map]
    exact Nat.le_succ _
  · exact Nat.le_of_eq (List.length_append ..)

theorem size_erase_lt {d : Dict κ α} {k : κ} (h : d.contains k = true) : (d.erase k).size < d.size := by
  obtain ⟨v, hv⟩ := contains_eq_true_iff.mp h
  refine List.length_filter_lt_length_iff_exists.mpr ⟨(k, v), mem_of_get? hv, ?_⟩
  simp

theorem size_set_of_none {d : Dict κ α} {k : κ} (h : d.get? k = none) (v : α) : (d.set k v).size = d.size + 1 := by
  rw [size, items_set_of_none h, List.length_append]
  rfl

theorem Distinct.size_set_of_some {d : Dict κ α} (hd : d.Distinct) {k : κ} {v : α} (h : d.get? k = some v) (w : α) :
    (d.set k w).size = d.size := by
  obtain ⟨l, r, hitems, hset, -⟩ := hd.split h
  rw [size, size, hset w, hitems, List.length_append, List.length_append]
  rfl

theorem Distinct.size_erase {d : Dict κ α} (hd : d.Distinct) {k : κ} {v : α} (h : d.get? k = some v) :
    (d.erase k).size + 1 = d.size := by
  obtain ⟨l, r, hitems, -, herase⟩ := hd.split h
  rw [size, size, herase, hitems, List.length_append, List.length_append]
  rfl

theorem size_erase_le (d : Dict κ α) (k : κ) : (d.erase k).size ≤ d.size := List.length_filter_le ..

theorem Distinct.size_le_erase {d : Dict κ α} (hd : d.Distinct) (k : κ) : d.size ≤ (d.erase k).size + 1 := by
  rcases h : d.get? k with _ | v
  · have hkept : (d.erase k).items = d.items :=
      List.filter_eq_self.mpr (fun kv hkv => decide_eq_true (fun heq => get?_eq_none_iff.mp h (List.mem_map.mpr ⟨kv, hkv, heq⟩)))
    rw [size, size, hkept]
    exact Nat.le_succ _
  · exact Nat.le_of_eq (hd.size_erase h).symm

/-- A key that has a value counts for as much with another one. -/
theorem size_erase_set_of_some {d : Dict κ α} {k : κ} {v : α} (h : d.get? k = some v) (w : α) (j : κ) :
    ((d.set k w).erase j).size = (d.erase j).size := by
  have hkeys : ∀ d' : Dict κ α, (d'.erase j).size = ((d'.items.map (·.1)).filter (fun k' => k' ≠ j)).length := by
    intro d'
    rw [List.filter_map, List.length_map]
    rfl
  rw [hkeys, hkeys, keys_set_of_some h]

theorem size_erase_foldl_erase_le (ks : List κ) (d : Dict κ α) (j : κ) : ((ks.foldl erase d).erase j).size ≤ (d.erase j).size := by
  induction ks generalizing d with
  | nil => exact Nat.le_refl _
  | cons k ks ih => exact Nat.le_trans (ih (d.erase k)) (List.filter_sublist.filter _).length_le

theorem size_pos {d : Dict κ α} {k : κ} (h : d.contains k = true) : 0 < d.size := Nat.zero_lt_of_lt (size_erase_lt h)

theorem items_eq_nil_iff {d : Dict κ α} : d.items = [] ↔ ∀ k, d.contains k = false := by
  constructor
  · intro h k
    rw [contains, get?_eq_none_iff.mpr (by simp [h])]
    rfl
  · intro h
    refine items_eq_nil ?_
    intro k
    rw [← Option.isNone_iff_eq_none, ← Option.not_isSome, Bool.not_eq_true']
    exact h k

/-! ## Sums -/

/-- What the values weigh together. -/
def weight (w : α → Nat) (d : Dict κ α) : Nat := (d.items.map (fun kv => w kv.2)).sum

variable {w : α → Nat}

omit [DecidableEq κ] in
theorem weight_empty : (empty : Dict κ α).weight w = 0 := rfl

theorem weight_set_of_none {d : Dict κ α} {k : κ} (h : d.get? k = none) (v : α) : (d.set k v).weight w = d.weight w + w v := by
  simp [weight, items_set_of_none h]

theorem Distinct.weight_set {d : Dict κ α} (hd : d.Distinct) {k : κ} {v : α} (h : d.get? k = some v) (v' : α) :
    (d.set k v').weight w + w v = d.weight w + w v' := by
  obtain ⟨l, r, hitems, hset, -⟩ := hd.split h
  simp only [weight, hset v', hitems, List.map_append, List.map_cons, List.sum_append, List.sum_cons]
  omega

theorem Distinct.weight_erase {d : Dict κ α} (hd : d.Distinct) {k : κ} {v : α} (h : d.get? k = some v) :
    (d.erase k).weight w + w v = d.weight w := by
  obtain ⟨l, r, hitems, -, herase⟩ := hd.split h
  simp only [weight, herase, hitems, List.map_append, List.map_cons, List.sum_append, List.sum_cons]
  omega

theorem Distinct.le_weight {d : Dict κ α} (hd : d.Distinct) {k : κ} {v : α} (h : d.get? k = some v) : w v ≤ d.weight w :=
  Nat.le.intro ((Nat.add_comm ..).trans (hd.weight_erase h))

theorem Distinct.exists_of_weight_pos {d : Dict κ α} (hd : d.Distinct) (h : 0 < d.weight w) : ∃ k v, d.get? k = some v ∧ 0 < w v := by
  obtain ⟨x, hx, hpos⟩ := List.sum_pos_iff_exists_pos_nat.mp h
  obtain ⟨⟨k, v⟩, hmem, rfl⟩ := List.mem_map.mp hx
  exact ⟨k, v, hd.get?_of_mem hmem, hpos⟩

/-! ## The items that meet a condition -/

/-- The items that meet a condition. -/
def filter (p : κ × α → Bool) (d : Dict κ α) : Dict κ α := ⟨d.items.filter p⟩

omit [DecidableEq κ] in
theorem Distinct.filter {d : Dict κ α} (hd : d.Distinct) (p : κ × α → Bool) : (d.filter p).Distinct :=
  hd.sublist (List.filter_sublist.map _)

theorem Distinct.get?_filter {d : Dict κ α} (hd : d.Distinct) {p : κ × α → Bool} {k : κ} {v : α} :
    (d.filter p).get? k = some v ↔ d.get? k = some v ∧ p (k, v) = true := by
  constructor
  · intro h
    obtain ⟨hmem, hp⟩ := List.mem_filter.mp (mem_of_get? h)
    exact ⟨hd.get?_of_mem hmem, hp⟩
  · rintro ⟨h, hp⟩
    exact (hd.filter p).get?_of_mem (List.mem_filter.mpr ⟨mem_of_get? h, hp⟩)

omit [DecidableEq κ] in
theorem weight_filter (d : Dict κ α) (p : κ × α → Bool) (h : ∀ kv ∈ d.items, p kv = false → w kv.2 = 0) :
    (d.filter p).weight w = d.weight w := by
  obtain ⟨items⟩ := d
  induction items with
  | nil => rfl
  | cons kv items ih =>
    have htail := ih (fun x hx => h x (List.mem_cons_of_mem _ hx))
    simp only [filter, weight] at htail ⊢
    rcases hp : p kv with _ | _
    · have hzero := h kv List.mem_cons_self hp
      rw [List.filter_cons_of_neg (by simp [hp]), htail, List.map_cons, List.sum_cons, hzero, Nat.zero_add]
    · rw [List.filter_cons_of_pos hp, List.map_cons, List.sum_cons, List.map_cons, List.sum_cons, htail]

end Dict

end Lib
