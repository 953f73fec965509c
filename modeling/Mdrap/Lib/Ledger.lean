import Mathlib.Algebra.Order.Group.Multiset
import Mathlib.Tactic.Abel
import Mdrap.Lib.Proc

/-!
# Conservation

A procedure takes some things in hand, and its state holds others. It conserves them when, in the end, each is in the result or in
the state; where it raises, what it had in hand is lost, and the state holds less than there was. A procedure that keeps an account
balances when, in the end, the account has grown by what the result is worth. The rules follow the shape of a program.
-/

namespace Lib

namespace Proc

variable {σ ε α β ι : Type} {I : σ → Prop} {μ : σ → Multiset ι} {g g' : Multiset ι} {ρ : α → Multiset ι} {ρ' : β → Multiset ι} {s : σ}

/-- From a state, with some things in hand. -/
structure Conserves (I : σ → Prop) (μ : σ → Multiset ι) (g : Multiset ι) (ρ : α → Multiset ι) (m : Proc σ ε α) (s : σ) : Prop where
  inv : I (m s).2
  ok : ∀ a, (m s).1 = .ok a → g + μ s = ρ a + μ (m s).2
  error : ∀ e, (m s).1 = .error e → μ (m s).2 < g + μ s

namespace Conserves

theorem pure {a : α} (hI : I s) (h : g = ρ a) : Conserves I μ g ρ (pure a : Proc σ ε α) s := by
  refine ⟨hI, ?_, nofun⟩
  intro b hb
  cases hb
  rw [h]
  rfl

theorem bind {m : Proc σ ε α} {f : α → Proc σ ε β} (hm : Conserves I μ g ρ m s)
    (hf : ∀ a t, I t → (m s).1 = .ok a → t = (m s).2 → Conserves I μ (ρ a) ρ' (f a) t) : Conserves I μ g ρ' (m >>= f) s := by
  rcases hms : m s with ⟨x | a, t⟩
  · have hbind : (m >>= f) s = (.error x, t) := by rw [bind_apply, hms]
    refine ⟨by rw [hbind]; simpa [hms] using hm.inv, ?_, ?_⟩
    · intro b hb
      rw [hbind] at hb
      cases hb
    · intro e he
      rw [hbind]
      simpa [hms] using hm.error x (by rw [hms])
  · have hbind : (m >>= f) s = f a t := by rw [bind_apply, hms]
    have ha := hm.ok a (by rw [hms])
    have hnext := hf a t (by simpa [hms] using hm.inv) (by rw [hms]) (by rw [hms])
    rw [hms] at ha
    refine ⟨by rw [hbind]; exact hnext.inv, ?_, ?_⟩
    · intro b hb
      rw [hbind] at hb ⊢
      rw [ha]
      exact hnext.ok b hb
    · intro e he
      rw [hbind] at he ⊢
      rw [ha]
      exact hnext.error e he

theorem read_bind {γ : Type} {f : σ → γ} {k : γ → Proc σ ε α} (h : Conserves I μ g ρ (k (f s)) s) :
    Conserves I μ g ρ (read f >>= k) s := ⟨h.inv, h.ok, h.error⟩

/-- A change moves things between the hand and the state. -/
theorem modify_bind {f : σ → σ} {k : Unit → Proc σ ε α} (hmove : g + μ s = g' + μ (f s))
    (h : Conserves I μ g' ρ (k ()) (f s)) : Conserves I μ g ρ (modify f >>= k) s := by
  refine ⟨h.inv, ?_, ?_⟩
  · intro a ha
    rw [hmove]
    exact h.ok a ha
  · intro e he
    rw [hmove]
    exact h.error e he

/-- The procedure goes on as another one does from another state. -/
theorem of_apply {m n : Proc σ ε α} {t : σ} (happly : m s = n t) (hmove : g + μ s = g' + μ t) (h : Conserves I μ g' ρ n t) :
    Conserves I μ g ρ m s := by
  refine ⟨?_, ?_, ?_⟩
  · rw [happly]
    exact h.inv
  · intro a ha
    rw [happly] at ha ⊢
    rw [hmove]
    exact h.ok a ha
  · intro e he
    rw [happly] at he ⊢
    rw [hmove]
    exact h.error e he

/-- What else is in hand stays there. -/
theorem frame {m : Proc σ ε α} (h : Conserves I μ g ρ m s) (r : Multiset ι) :
    Conserves I μ (g + r) (fun a => ρ a + r) m s := by
  refine ⟨h.inv, ?_, ?_⟩
  · intro a ha
    have heq := h.ok a ha
    calc g + r + μ s = (g + μ s) + r := by abel
      _ = (ρ a + μ (m s).2) + r := by rw [heq]
      _ = ρ a + r + μ (m s).2 := by abel
  · intro e he
    calc μ (m s).2 < g + μ s := h.error e he
      _ ≤ g + r + μ s := by
        rw [show g + r + μ s = (g + μ s) + r by abel]
        exact Multiset.le_add_right _ _

theorem of_eq {m : Proc σ ε α} {ρ₂ : α → Multiset ι} (h : Conserves I μ g ρ m s) (hg : g = g') (hρ : ∀ a, ρ a = ρ₂ a) :
    Conserves I μ g' ρ₂ m s := by
  subst hg
  obtain rfl : ρ = ρ₂ := funext hρ
  exact h

end Conserves

/-! ## Accounts -/

/-- From a state, with something on account that is not in hand yet: what returns is worth what the account has grown by. -/
def Balances (φ : σ → Int) (owed : Int) (ρ : α → Int) (m : Proc σ ε α) (s : σ) : Prop :=
  ∀ a, (m s).1 = .ok a → φ (m s).2 + owed = φ s + ρ a

namespace Balances

variable {φ : σ → Int} {owed owed' : Int} {ρ : α → Int} {ρ' : β → Int}

theorem pure {a : α} (h : owed = ρ a) : Balances φ owed ρ (pure a : Proc σ ε α) s := by
  intro b hb
  cases hb
  rw [h]
  rfl

theorem bind {m : Proc σ ε α} {f : α → Proc σ ε β} (hm : Balances φ owed ρ m s)
    (hf : ∀ a, (m s).1 = .ok a → Balances φ (ρ a) ρ' (f a) (m s).2) : Balances φ owed ρ' (m >>= f) s := by
  intro b hb
  obtain ⟨a, ha, happly⟩ := bind_ok hb
  rw [happly] at hb ⊢
  have hfirst := hm a ha
  have hrest := hf a ha b hb
  omega

theorem read_bind {γ : Type} {f : σ → γ} {k : γ → Proc σ ε α} (h : Balances φ owed ρ (k (f s)) s) :
    Balances φ owed ρ (read f >>= k) s := h

/-- A change of the state changes the account. -/
theorem modify_bind {f : σ → σ} {k : Unit → Proc σ ε α} (hmove : φ (f s) + owed = φ s + owed')
    (h : Balances φ owed' ρ (k ()) (f s)) : Balances φ owed ρ (modify f >>= k) s := by
  intro a ha
  have hrest : φ ((modify f >>= k) s).2 + owed' = φ (f s) + ρ a := h a ha
  omega

/-- What else is owed stays so. -/
theorem frame {m : Proc σ ε α} (h : Balances φ owed ρ m s) (r : Int) : Balances φ (owed + r) (fun a => ρ a + r) m s := by
  intro a ha
  have heq := h a ha
  dsimp only
  omega

theorem of_eq {m : Proc σ ε α} {ρ₂ : α → Int} (h : Balances φ owed ρ m s) (howed : owed = owed') (hρ : ∀ a, ρ a = ρ₂ a) :
    Balances φ owed' ρ₂ m s := by
  subst howed
  obtain rfl : ρ = ρ₂ := funext hρ
  exact h

end Balances

end Proc

end Lib
