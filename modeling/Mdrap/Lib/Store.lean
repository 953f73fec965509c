import Mathlib.Tactic.Common

/-!
# A store of files named by numbers

The entries of a store are kept in the order of their names, and no name occurs twice. Listing a store gives its entries in
that order.
-/

namespace Lib

universe u

/-- A finite map from numbers, listed in increasing order. -/
structure Store (α : Type u) where
  entries : List (Nat × α)
  sorted : entries.Pairwise (fun a b => a.1 < b.1)

/-- Put an entry in its place in a list in order, over the one of the same name. -/
@[grind =] def putEntry {α : Type u} (k : Nat) (v : α) : List (Nat × α) → List (Nat × α)
  | [] => [(k, v)]
  | (k', v') :: rest =>
    if k < k' then (k, v) :: (k', v') :: rest
    else if k = k' then (k, v) :: rest
    else (k', v') :: putEntry k v rest

/-- The value of a name in a list. -/
@[grind =] def lookupEntry {α : Type u} (k : Nat) : List (Nat × α) → Option α
  | [] => none
  | (k', v) :: rest => if k = k' then some v else lookupEntry k rest

section PutEntry

variable {α : Type u} {k : Nat} {v : α}

theorem mem_putEntry {l : List (Nat × α)} {e : Nat × α} (h : e ∈ putEntry k v l) : e = (k, v) ∨ e ∈ l := by
  induction l with
  | nil => simpa [putEntry] using h
  | cons e' rest ih =>
    rw [putEntry] at h
    split at h
    · simpa using h
    · split at h
      · rcases List.mem_cons.mp h with h | h
        · exact Or.inl h
        · exact Or.inr (List.mem_cons_of_mem _ h)
      · rcases List.mem_cons.mp h with rfl | h
        · exact Or.inr List.mem_cons_self
        · rcases ih h with h | h
          · exact Or.inl h
          · exact Or.inr (List.mem_cons_of_mem _ h)

/-- Putting an entry keeps the order. -/
theorem pairwise_putEntry {l : List (Nat × α)} (h : l.Pairwise (fun a b => a.1 < b.1)) :
    (putEntry k v l).Pairwise (fun a b => a.1 < b.1) := by
  induction l with
  | nil => simp [putEntry]
  | cons e rest ih =>
    obtain ⟨hhead, hrest⟩ := List.pairwise_cons.mp h
    rw [putEntry]
    split
    · rename_i hlt
      refine List.pairwise_cons.mpr ⟨?_, h⟩
      intro e' he'
      rcases List.mem_cons.mp he' with rfl | he'
      · exact hlt
      · exact Nat.lt_trans hlt (hhead e' he')
    · split
      · rename_i heq
        refine List.pairwise_cons.mpr ⟨?_, hrest⟩
        intro e' he'
        rw [heq]
        exact hhead e' he'
      · refine List.pairwise_cons.mpr ⟨?_, ih hrest⟩
        intro e' he'
        rcases mem_putEntry he' with rfl | he'
        · show e.1 < k
          omega
        · exact hhead e' he'

/-- An entry beyond all names goes to the end. -/
theorem putEntry_last {l : List (Nat × α)} (h : ∀ e ∈ l, e.1 < k) : putEntry k v l = l ++ [(k, v)] := by
  induction l with
  | nil => rfl
  | cons e rest ih =>
    have hk := h e List.mem_cons_self
    rw [putEntry, if_neg (by omega), if_neg (by omega), ih (fun e' he' => h e' (List.mem_cons_of_mem _ he'))]
    rfl

/-- An entry of a name that is there replaces the one of that name. -/
theorem putEntry_replace {l r : List (Nat × α)} {v' : α} (h : ∀ e ∈ l, e.1 < k) :
    putEntry k v (l ++ (k, v') :: r) = l ++ (k, v) :: r := by
  induction l with
  | nil => simp [putEntry]
  | cons e rest ih =>
    have hk := h e List.mem_cons_self
    rw [List.cons_append, putEntry, if_neg (by omega), if_neg (by omega),
      ih (fun e' he' => h e' (List.mem_cons_of_mem _ he'))]
    rfl

theorem lookupEntry_putEntry (l : List (Nat × α)) (j : Nat) :
    lookupEntry j (putEntry k v l) = if j = k then some v else lookupEntry j l := by
  induction l with
  | nil => rfl
  | cons e rest ih =>
    obtain ⟨k', v'⟩ := e
    rw [putEntry]
    split
    · rfl
    · split
      · rename_i heq
        by_cases hj : j = k <;> simp [lookupEntry, hj, ← heq]
      · rename_i hne
        by_cases hj : j = k <;> by_cases hj' : j = k' <;> simp_all [lookupEntry]

theorem putEntry_putEntry (v' : α) (l : List (Nat × α)) : putEntry k v (putEntry k v' l) = putEntry k v l := by
  induction l with
  | nil => simp [putEntry]
  | cons e rest ih =>
    obtain ⟨k', w⟩ := e
    by_cases hlt : k < k'
    · simp [putEntry, hlt]
    · by_cases heq : k = k'
      · simp [putEntry, heq]
      · simp [putEntry, hlt, heq, ih]

/-- A name and value are an entry of a list in order exactly when the value is the one of the name. -/
theorem lookupEntry_eq_some_iff {l : List (Nat × α)} (hl : l.Pairwise (fun a b => a.1 < b.1)) :
    lookupEntry k l = some v ↔ (k, v) ∈ l := by
  induction l with
  | nil => simp [lookupEntry]
  | cons e rest ih =>
    obtain ⟨k', v'⟩ := e
    obtain ⟨hhead, hrest⟩ := List.pairwise_cons.mp hl
    by_cases hk : k = k'
    · subst hk
      have hnot : (k, v) ∉ rest := fun hmem => Nat.lt_irrefl k (hhead (k, v) hmem)
      simp [lookupEntry, hnot, eq_comm]
    · simp [lookupEntry, ih hrest, hk]

end PutEntry

namespace Store

variable {α : Type u}

/-- No entries. -/
def empty : Store α := ⟨[], List.Pairwise.nil⟩

instance : Inhabited (Store α) := ⟨empty⟩

/-- The value of a name. -/
def get? (s : Store α) (k : Nat) : Option α := lookupEntry k s.entries

/-- Give a name a value, in place of the one it has. -/
def put (s : Store α) (k : Nat) (v : α) : Store α := ⟨putEntry k v s.entries, pairwise_putEntry s.sorted⟩

/-- Keep the entries that pass a test. -/
def filter (s : Store α) (p : Nat × α → Bool) : Store α := ⟨s.entries.filter p, s.sorted.filter p⟩

/-- Remove a name. -/
def erase (s : Store α) (k : Nat) : Store α := s.filter (fun e => e.1 != k)

/-- The store of the entries of a list; of two entries of one name the later one counts. -/
def ofList (l : List (Nat × α)) : Store α := l.foldl (fun s e => s.put e.1 e.2) empty

@[ext] theorem ext {s t : Store α} (h : s.entries = t.entries) : s = t := by
  cases s
  cases t
  cases h
  rfl

@[simp] theorem get?_put (s : Store α) (k : Nat) (v : α) (j : Nat) :
    (s.put k v).get? j = if j = k then some v else s.get? j := lookupEntry_putEntry s.entries j

/-- A name and value are an entry exactly when the value is the one of the name. -/
theorem get?_eq_some_iff (s : Store α) (k : Nat) (v : α) : s.get? k = some v ↔ (k, v) ∈ s.entries :=
  lookupEntry_eq_some_iff s.sorted

/-- Of two values for one name the later counts. -/
theorem put_put (s : Store α) (k : Nat) (v v' : α) : (s.put k v').put k v = s.put k v :=
  ext (putEntry_putEntry v' s.entries)

/-- A name given the value it has. -/
theorem put_self {s : Store α} {k : Nat} {v : α} (h : (k, v) ∈ s.entries) : s.put k v = s := by
  obtain ⟨l, r, hlr⟩ := List.append_of_mem h
  refine ext ?_
  show putEntry k v s.entries = s.entries
  have hs := s.sorted
  rw [hlr, List.pairwise_append] at hs
  rw [hlr, putEntry_replace (fun e he => hs.2.2 e he (k, v) List.mem_cons_self)]

theorem entries_put_last {s : Store α} {k : Nat} {v : α} (h : ∀ e ∈ s.entries, e.1 < k) :
    (s.put k v).entries = s.entries ++ [(k, v)] := putEntry_last h

section Middle

variable {s : Store α} {l r : List (Nat × α)} {k : Nat} {v' : α} (h : s.entries = l ++ (k, v') :: r)

include h

theorem lt_of_mem_left : ∀ e ∈ l, e.1 < k := by
  have hs := s.sorted
  rw [h, List.pairwise_append] at hs
  exact fun e he => hs.2.2 e he (k, v') List.mem_cons_self

theorem lt_of_mem_right : ∀ e ∈ r, k < e.1 := by
  have hs := s.sorted
  rw [h, List.pairwise_append, List.pairwise_cons] at hs
  exact hs.2.1.1

/-- A name in the middle of the list is given a new value. -/
theorem entries_put_middle (v : α) : (s.put k v).entries = l ++ (k, v) :: r := by
  show putEntry k v s.entries = _
  rw [h, putEntry_replace (lt_of_mem_left h)]

/-- A name in the middle of the list is removed. -/
theorem entries_erase_middle : (s.erase k).entries = l ++ r := by
  have hl : l.filter (fun e => e.1 != k) = l :=
    List.filter_eq_self.mpr (fun e he => by simpa using Nat.ne_of_lt (lt_of_mem_left h e he))
  have hr : r.filter (fun e => e.1 != k) = r :=
    List.filter_eq_self.mpr (fun e he => by simpa using Nat.ne_of_gt (lt_of_mem_right h e he))
  show s.entries.filter (fun e => e.1 != k) = _
  rw [h, List.filter_append, List.filter_cons_of_neg (by simp), hl, hr]

end Middle

theorem get?_of_mem {s : Store α} {k : Nat} {v : α} (h : (k, v) ∈ s.entries) : s.get? k = some v :=
  (s.get?_eq_some_iff k v).mpr h

/-- Listing the entries of a list in order gives the list. -/
theorem entries_ofList {l : List (Nat × α)} (h : l.Pairwise (fun a b => a.1 < b.1)) : (ofList l).entries = l := by
  have key : ∀ (l : List (Nat × α)) (s : Store α), l.Pairwise (fun a b => a.1 < b.1) →
      (∀ e ∈ s.entries, ∀ e' ∈ l, e.1 < e'.1) →
      (l.foldl (fun s e => s.put e.1 e.2) s).entries = s.entries ++ l := by
    intro l
    induction l with
    | nil =>
      intro s _ _
      simp
    | cons e rest ih =>
      intro s hl hs
      obtain ⟨hhead, hrest⟩ := List.pairwise_cons.mp hl
      have hput : (s.put e.1 e.2).entries = s.entries ++ [e] :=
        putEntry_last (fun e' he' => hs e' he' e List.mem_cons_self)
      rw [List.foldl_cons, ih (s.put e.1 e.2) hrest, hput, List.append_assoc]
      · rfl
      · intro e' he' e'' he''
        rw [hput] at he'
        rcases List.mem_append.mp he' with he' | he'
        · exact hs e' he' e'' (List.mem_cons_of_mem _ he'')
        · rw [List.mem_singleton.mp he']
          exact hhead e'' he''
  rw [ofList, key l empty h (by simp [empty])]
  rfl

end Store

end Lib
