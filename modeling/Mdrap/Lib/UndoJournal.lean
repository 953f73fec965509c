import Mathlib.Tactic.Common

/-!
# Undo journals

A program that changes a state writes down how to undo each change. What has been written since a mark, undone with the newest entry
first, takes the state back to what it was at the mark, up to an equivalence that undoing respects. Two stretches of a program that
can be taken back make one that can.
-/

namespace Lib

variable {S A : Type*}

/-- States that cannot be told apart stay so when an entry is undone. -/
structure UndoLaws (undo : A → S → S) (E : S → S → Prop) : Prop where
  refl : ∀ s, E s s
  trans : ∀ s t u, E s t → E t u → E s u
  congr : ∀ a s t, E s t → E (undo a s) (undo a t)

/-- Undo entries, the first one first. -/
def undoAll (undo : A → S → S) (js : List A) (s : S) : S := js.foldl (fun s a => undo a s) s

@[simp] theorem undoAll_nil (undo : A → S → S) (s : S) : undoAll undo [] s = s := rfl

@[simp] theorem undoAll_cons (undo : A → S → S) (a : A) (js : List A) (s : S) : undoAll undo (a :: js) s = undoAll undo js (undo a s) := rfl

theorem undoAll_append (undo : A → S → S) (js js' : List A) (s : S) :
    undoAll undo (js ++ js') s = undoAll undo js' (undoAll undo js s) := List.foldl_append ..

/-- What none of the entries changes is not changed by all of them. -/
theorem undoAll_keeps {B : Type*} {undo : A → S → S} {f : S → B} (h : ∀ a s, f (undo a s) = f s) (js : List A) (s : S) :
    f (undoAll undo js s) = f s := by
  induction js generalizing s with
  | nil => rfl
  | cons a js ih => rw [undoAll_cons, ih, h]

/-- The entries take a state back to an earlier one. -/
def TakesBack (undo : A → S → S) (E : S → S → Prop) (js : List A) (s' s : S) : Prop := E (undoAll undo js s') s

namespace UndoLaws

variable {undo : A → S → S} {E : S → S → Prop}

theorem congr_all (h : UndoLaws undo E) (js : List A) {s t : S} (hst : E s t) : E (undoAll undo js s) (undoAll undo js t) := by
  induction js generalizing s t with
  | nil => exact hst
  | cons a js ih => exact ih (h.congr a s t hst)

/-- Nothing was written and nothing has changed. -/
theorem takesBack_nil (h : UndoLaws undo E) (s : S) : TakesBack undo E [] s s := h.refl s

/-- One stretch after another. -/
theorem takesBack_append (h : UndoLaws undo E) {js js' : List A} {s t u : S} (hst : TakesBack undo E js t s)
    (htu : TakesBack undo E js' u t) : TakesBack undo E (js' ++ js) u s := by
  rw [TakesBack, undoAll_append]
  exact h.trans _ _ _ (h.congr_all js htu) hst

end UndoLaws

end Lib
