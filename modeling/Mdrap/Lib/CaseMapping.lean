import Mathlib.Data.List.Basic
import Mathlib.Data.List.DropRight

/-!
# Texts without white space around them, in upper case

A text is a list of code points. `upper` takes a code point to those of its upper case, whatever stands around it. The table is left
open; what is asked of it are properties that Unicode promises.
-/

namespace Lib

/-- A white space. -/
def isWhite (c : Nat) : Bool :=
  c ∈ [0x20, 0x85, 0xa0, 0x1680, 0x2028, 0x2029, 0x202f, 0x205f, 0x3000] ∨ (0x9 ≤ c ∧ c ≤ 0xd) ∨ (0x1c ≤ c ∧ c ≤ 0x1f) ∨
    (0x2000 ≤ c ∧ c ≤ 0x200a)

/-- A text without the white spaces at both its ends. -/
def trim (s : List Nat) : List Nat := ((s.dropWhile isWhite).reverse.dropWhile isWhite).reverse

/-- There is no white space at an end. -/
structure Trimmed (s : List Nat) : Prop where
  first : ∀ c ∈ s.head?, isWhite c = false
  last : ∀ c ∈ s.getLast?, isWhite c = false

theorem head?_dropWhile {p : Nat → Bool} {s : List Nat} {c : Nat} (h : c ∈ (s.dropWhile p).head?) : p c = false := by
  induction s with
  | nil => cases h
  | cons a s ih =>
    rw [List.dropWhile_cons] at h
    split at h
    · exact ih h
    · rename_i ha
      obtain rfl : a = c := by simpa using h
      simpa using ha

theorem dropWhile_eq_self {p : Nat → Bool} {s : List Nat} (h : ∀ c ∈ s.head?, p c = false) : s.dropWhile p = s := by
  cases s with
  | nil => rfl
  | cons a s => rw [List.dropWhile_cons, h a rfl, if_neg Bool.false_ne_true]

theorem Trimmed.trim {s : List Nat} (h : Trimmed s) : trim s = s := by
  have hlast : ∀ c ∈ s.reverse.head?, isWhite c = false := by
    intro c hc
    rw [List.head?_reverse] at hc
    exact h.last c hc
  rw [Lib.trim, dropWhile_eq_self h.first, dropWhile_eq_self hlast, List.reverse_reverse]

theorem trimmed_trim (s : List Nat) : Trimmed (trim s) := by
  constructor
  · intro c hc
    -- what is left of a text when its end goes begins as the text does
    have hprefix : trim s <+: s.dropWhile isWhite := by
      have hsuffix := List.dropWhile_suffix isWhite (l := (s.dropWhile isWhite).reverse)
      simpa [trim] using List.reverse_prefix.mpr hsuffix
    obtain ⟨t, ht⟩ := hprefix
    have hhead : c ∈ (s.dropWhile isWhite).head? := by
      rw [← ht]
      cases htrim : trim s with
      | nil => rw [htrim] at hc; cases hc
      | cons a s => rw [htrim] at hc; exact hc
    exact head?_dropWhile hhead
  · intro c hc
    rw [trim, List.getLast?_reverse] at hc
    exact head?_dropWhile hc

/-- A table of upper cases. -/
structure CaseTable where
  upper : Nat → List Nat
  upper_ne_nil : ∀ c, upper c ≠ []
  upper_upper : ∀ c, ∀ d ∈ upper c, upper d = [d]
  isWhite_upper : ∀ c, ∀ d ∈ upper c, isWhite d = isWhite c
  upper_ascii : ∀ c < 128, upper c = [if 97 ≤ c ∧ c ≤ 122 then c - 32 else c]

namespace CaseTable

variable (U : CaseTable)

/-- The upper case of a text. -/
def toUpper (s : List Nat) : List Nat := s.flatMap U.upper

theorem toUpper_append (s t : List Nat) : U.toUpper (s ++ t) = U.toUpper s ++ U.toUpper t := List.flatMap_append

theorem toUpper_eq_self {s : List Nat} (h : ∀ c ∈ s, U.upper c = [c]) : U.toUpper s = s := by
  induction s with
  | nil => rfl
  | cons a s ih =>
    have htail := ih (fun c hc => h c (List.mem_cons_of_mem _ hc))
    rw [toUpper] at htail ⊢
    rw [List.flatMap_cons, h a List.mem_cons_self, htail, List.singleton_append]

theorem toUpper_toUpper (s : List Nat) : U.toUpper (U.toUpper s) = U.toUpper s := by
  apply U.toUpper_eq_self
  intro d hd
  obtain ⟨c, -, hdc⟩ := List.mem_flatMap.mp hd
  exact U.upper_upper c d hdc

/-- Capitals, digits and signs stay as they are. -/
theorem toUpper_ascii {s : List Nat} (h : ∀ c ∈ s, c < 128 ∧ ¬(97 ≤ c ∧ c ≤ 122)) : U.toUpper s = s := by
  apply U.toUpper_eq_self
  intro c hc
  obtain ⟨hlt, hcap⟩ := h c hc
  rw [U.upper_ascii c hlt, if_neg hcap]

/-- The upper case of a text has white space at an end only where the text has. -/
theorem trimmed_toUpper {s : List Nat} (h : Trimmed s) : Trimmed (U.toUpper s) := by
  constructor
  · intro d hd
    cases s with
    | nil => cases hd
    | cons c s =>
      obtain ⟨e, es, he⟩ := List.exists_cons_of_ne_nil (U.upper_ne_nil c)
      rw [toUpper, List.flatMap_cons, he] at hd
      obtain rfl : e = d := by simpa using hd
      rw [U.isWhite_upper c e (by rw [he]; exact List.mem_cons_self)]
      exact h.first c rfl
  · intro d hd
    rcases List.eq_nil_or_concat s with rfl | ⟨s, c, rfl⟩
    · cases hd
    · rw [List.concat_eq_append] at h hd
      have hc : U.toUpper (s ++ [c]) = U.toUpper s ++ U.upper c := by simp [toUpper]
      rw [hc, List.getLast?_append_of_ne_nil _ (U.upper_ne_nil c)] at hd
      rw [U.isWhite_upper c d (List.mem_of_getLast? hd)]
      exact h.last c (by simp)

end CaseTable

/-! ## ASCII -/

/-- The table that knows the letters of ASCII. -/
def asciiCase : CaseTable where
  upper c := [if 97 ≤ c ∧ c ≤ 122 then c - 32 else c]
  upper_ne_nil _ := List.cons_ne_nil _ _
  upper_upper := by
    intro c d hd
    obtain rfl := List.mem_singleton.mp hd
    split
    · rw [if_neg (by omega)]
    · rfl
  isWhite_upper := by
    intro c d hd
    obtain rfl := List.mem_singleton.mp hd
    split
    · simp only [isWhite, List.mem_cons, List.not_mem_nil]
      grind
    · rfl
  upper_ascii _ _ := rfl

end Lib
