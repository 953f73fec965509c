import Mathlib.Tactic.Common
import Mathlib.Data.List.Basic

/-!
# Scanners

A scanner looks at the beginning of a buffer: it waits for more, drops an item, or takes some items and gives a result. What it does
does not depend on what comes after the items it has looked at, so that it does not matter in which pieces the items come.
-/

namespace Lib

/-- What a scanner does next. -/
inductive ScanStep (β : Type*) where
  | wait
  | skip
  | take (n : Nat) (result : β)

/-- A scanner. It takes at least one item, and does not change its mind when more items come. -/
structure Scanner (α β : Type*) where
  next : List α → ScanStep β
  skip_ne : ∀ {b}, next b = .skip → b ≠ []
  take_le : ∀ {b n r}, next b = .take n r → 0 < n ∧ n ≤ b.length
  stable : ∀ {b c}, next b ≠ .wait → next (b ++ c) = next b

namespace Scanner

variable {α β : Type*} (S : Scanner α β)

/-- The loop of a scanner over its buffer: the results, and what is left. -/
@[grind =] def loop : Nat → List α → List β × List α
  | 0, b => ([], b)
  | n + 1, b =>
    match S.next b with
    | .wait => ([], b)
    | .skip => loop n (b.drop 1)
    | .take k r => (r :: (loop n (b.drop k)).1, (loop n (b.drop k)).2)

/-- Every turn of the loop takes an item at least. -/
@[grind =] def scan (b : List α) : List β × List α := S.loop b.length b

theorem loop_eq_scan {n : Nat} {b : List α} (h : b.length ≤ n) : S.loop n b = S.scan b := by
  have hkey : ∀ (m n : Nat) (b : List α), b.length ≤ m → b.length ≤ n → S.loop m b = S.loop n b := by
    intro m
    induction m with
    | zero =>
      intro n b hm hn
      have hnil : b = [] := List.eq_nil_of_length_eq_zero (Nat.le_zero.mp hm)
      cases n with
      | zero => rfl
      | succ n =>
        rw [hnil, loop, loop]
        rcases hnext : S.next [] with _ | _ | ⟨k, r⟩
        · rfl
        · exact absurd rfl (S.skip_ne hnext)
        · have hle := S.take_le hnext
          simp only [List.length_nil] at hle
          omega
    | succ m ih =>
      intro n b hm hn
      cases n with
      | zero =>
        have hnil : b = [] := List.eq_nil_of_length_eq_zero (Nat.le_zero.mp hn)
        rw [hnil, loop, loop]
        rcases hnext : S.next [] with _ | _ | ⟨k, r⟩
        · rfl
        · exact absurd rfl (S.skip_ne hnext)
        · have hle := S.take_le hnext
          simp only [List.length_nil] at hle
          omega
      | succ n =>
        rw [loop, loop]
        rcases hnext : S.next b with _ | _ | ⟨k, r⟩
        · rfl
        · have hpos := List.length_pos_iff.mpr (S.skip_ne hnext)
          exact ih n (b.drop 1) (by rw [List.length_drop]; omega) (by rw [List.length_drop]; omega)
        · have hle := S.take_le hnext
          simp only
          rw [ih n (b.drop k) (by rw [List.length_drop]; omega) (by rw [List.length_drop]; omega)]
  exact hkey n b.length b h (Nat.le_refl _)

theorem scan_wait {b : List α} (h : S.next b = .wait) : S.scan b = ([], b) := by
  rw [scan]
  cases hlen : b.length with
  | zero => rfl
  | succ n => rw [loop, h]

theorem scan_skip {b : List α} (h : S.next b = .skip) : S.scan b = S.scan (b.drop 1) := by
  have hpos := List.length_pos_iff.mpr (S.skip_ne h)
  rw [scan]
  obtain ⟨n, hn⟩ : ∃ n, b.length = n + 1 := ⟨b.length - 1, by omega⟩
  rw [hn, loop, h]
  exact S.loop_eq_scan (by rw [List.length_drop]; omega)

theorem scan_take {b : List α} {k : Nat} {r : β} (h : S.next b = .take k r) :
    S.scan b = (r :: (S.scan (b.drop k)).1, (S.scan (b.drop k)).2) := by
  have hle := S.take_le h
  rw [scan]
  obtain ⟨n, hn⟩ : ∃ n, b.length = n + 1 := ⟨b.length - 1, by omega⟩
  rw [hn, loop, h]
  simp only
  rw [S.loop_eq_scan (by rw [List.length_drop]; omega)]

/-- What is scanned first gives its results first, and what it leaves is scanned together with what comes. -/
theorem scan_append (b c : List α) :
    S.scan (b ++ c) = ((S.scan b).1 ++ (S.scan ((S.scan b).2 ++ c)).1, (S.scan ((S.scan b).2 ++ c)).2) := by
  induction hn : b.length using Nat.strongRecOn generalizing b with
  | ind n ih =>
    rcases hnext : S.next b with _ | _ | ⟨k, r⟩
    · rw [S.scan_wait hnext]
      simp
    · have hpos := List.length_pos_iff.mpr (S.skip_ne hnext)
      have happ : S.next (b ++ c) = .skip := by rw [S.stable (by rw [hnext]; simp), hnext]
      rw [S.scan_skip hnext, S.scan_skip happ, List.drop_append_of_le_length hpos]
      exact ih (b.drop 1).length (by rw [List.length_drop]; omega) (b.drop 1) rfl
    · have hle := S.take_le hnext
      have happ : S.next (b ++ c) = .take k r := by rw [S.stable (by rw [hnext]; simp), hnext]
      rw [S.scan_take hnext, S.scan_take happ, List.drop_append_of_le_length hle.2,
        ih (b.drop k).length (by rw [List.length_drop]; omega) (b.drop k) rfl]
      rfl

/-- The pieces of a stream are scanned one after the other, each behind what was left of those before. -/
@[grind =] def feedAll : List α → List (List α) → List β × List α
  | buf, [] => ([], buf)
  | buf, c :: cs => ((S.scan (buf ++ c)).1 ++ (feedAll (S.scan (buf ++ c)).2 cs).1, (feedAll (S.scan (buf ++ c)).2 cs).2)

/-- The pieces give what the whole gives. -/
theorem feedAll_eq {buf : List α} (hbuf : S.scan buf = ([], buf)) (cs : List (List α)) :
    S.feedAll buf cs = S.scan (buf ++ cs.flatten) := by
  induction cs generalizing buf with
  | nil => rw [List.flatten_nil, List.append_nil, hbuf, feedAll]
  | cons c cs ih =>
    have hrest : S.scan (S.scan (buf ++ c)).2 = ([], (S.scan (buf ++ c)).2) := by
      have happ := S.scan_append (buf ++ c) []
      rw [List.append_nil, List.append_nil] at happ
      have hfst := congrArg Prod.fst happ
      have hsnd := congrArg Prod.snd happ
      simp only at hfst hsnd
      have hnil : (S.scan (S.scan (buf ++ c)).2).1 = [] := by
        have hlen := congrArg List.length hfst
        rw [List.length_append] at hlen
        exact List.eq_nil_of_length_eq_zero (by omega)
      exact Prod.ext hnil hsnd.symm
    rw [feedAll, ih hrest, List.flatten_cons, ← List.append_assoc, S.scan_append (buf ++ c)]

end Scanner

end Lib
