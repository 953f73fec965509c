import Mathlib.Tactic.Common

/-!
# Procedures

A procedure reads and changes a state and may raise an error. What it has changed by then stays changed.

Two procedures that run side by side keep a relation between their states (`Sim`) when they give the same results from related
states and leave related states behind. The rules below follow the shape of a program, so that such a relation is shown for
each statement once. A procedure that runs alone keeps a relation between the state before and the state after (`Frame`).
-/

namespace Lib

/-- A procedure over a state. -/
def Proc (σ ε α : Type) : Type := σ → Except ε α × σ

namespace Proc

variable {σ τ ε α β : Type}

instance : Monad (Proc σ ε) where
  pure a := fun s => (.ok a, s)
  bind m f := fun s =>
    match m s with
    | (.ok a, t) => f a t
    | (.error e, t) => (.error e, t)

/-- Look at the state. -/
def read (f : σ → α) : Proc σ ε α := fun s => (.ok (f s), s)

/-- Change the state. -/
def modify (f : σ → σ) : Proc σ ε Unit := fun s => (.ok (), f s)

/-- A computation that may fail. -/
def lift (x : Except ε α) : Proc σ ε α := fun s => (x, s)

@[simp] theorem pure_apply (a : α) (s : σ) : (pure a : Proc σ ε α) s = (.ok a, s) := rfl

@[simp] theorem read_apply (f : σ → α) (s : σ) : (read f : Proc σ ε α) s = (.ok (f s), s) := rfl

@[simp] theorem modify_apply (f : σ → σ) (s : σ) : (modify f : Proc σ ε Unit) s = (.ok (), f s) := rfl

@[simp] theorem lift_apply (x : Except ε α) (s : σ) : (lift x : Proc σ ε α) s = (x, s) := rfl

theorem bind_apply (m : Proc σ ε α) (f : α → Proc σ ε β) (s : σ) :
    (m >>= f) s = match m s with
      | (.ok a, t) => f a t
      | (.error e, t) => (.error e, t) := rfl

theorem bind_of_ok {m : Proc σ ε α} {f : α → Proc σ ε β} {s t : σ} {a : α} (h : m s = (.ok a, t)) : (m >>= f) s = f a t := by
  rw [bind_apply, h]

theorem bind_error {m : Proc σ ε α} {f : α → Proc σ ε β} {s : σ} {e : ε} (h : (m s).1 = .error e) :
    ((m >>= f) s).1 = .error e := by
  rw [bind_apply]
  rcases hms : m s with ⟨x | a, t⟩
  · rw [hms] at h
    cases h
    rfl
  · rw [hms] at h
    cases h

/-- A procedure that returns has returned from each of its parts. -/
theorem bind_ok {m : Proc σ ε α} {f : α → Proc σ ε β} {s : σ} {b : β} (h : ((m >>= f) s).1 = .ok b) :
    ∃ a, (m s).1 = .ok a ∧ (m >>= f) s = f a (m s).2 := by
  rw [bind_apply] at h ⊢
  rcases hms : m s with ⟨x | a, t⟩
  · rw [hms] at h
    cases h
  · exact ⟨a, rfl, rfl⟩

/-! ## Two procedures side by side -/

/-- From related states the procedures give the same result and leave related states. -/
def Sim (R : σ → τ → Prop) (m : Proc σ ε α) (n : Proc τ ε α) : Prop := ∀ s t, R s t → (m s).1 = (n t).1 ∧ R (m s).2 (n t).2

namespace Sim

variable {R : σ → τ → Prop}

theorem pure (a : α) : Sim R (pure a : Proc σ ε α) (pure a) := fun _ _ h => ⟨rfl, h⟩

theorem bind {m : Proc σ ε α} {n : Proc τ ε α} {f : α → Proc σ ε β} {g : α → Proc τ ε β} (hm : Sim R m n)
    (hf : ∀ a, Sim R (f a) (g a)) : Sim R (m >>= f) (n >>= g) := by
  intro s t hst
  obtain ⟨heq, hrel⟩ := hm s t hst
  rw [bind_apply, bind_apply]
  rcases hms : m s with ⟨x | a, s'⟩
  · rcases hnt : n t with ⟨y | b, t'⟩
    · rw [hms, hnt] at heq hrel
      cases heq
      exact ⟨rfl, hrel⟩
    · rw [hms, hnt] at heq
      cases heq
  · rcases hnt : n t with ⟨y | b, t'⟩
    · rw [hms, hnt] at heq
      cases heq
    · rw [hms, hnt] at heq hrel
      cases heq
      exact hf a s' t' hrel

theorem read {f : σ → α} {g : τ → α} (h : ∀ s t, R s t → f s = g t) : Sim R (read f : Proc σ ε α) (read g) :=
  fun s t hst => ⟨congrArg Except.ok (h s t hst), hst⟩

theorem modify {f : σ → σ} {g : τ → τ} (h : ∀ s t, R s t → R (f s) (g t)) : Sim R (modify f : Proc σ ε Unit) (modify g) :=
  fun s t hst => ⟨rfl, h s t hst⟩

theorem lift (x : Except ε α) : Sim R (lift x : Proc σ ε α) (lift x) := fun _ _ h => ⟨rfl, h⟩

end Sim

/-! ## Two procedures that do not give the same -/

/-- Both return, and what they return is related; or both raise. -/
def Matches (Q : α → β → Prop) : Except ε α → Except ε β → Prop
  | .ok a, .ok b => Q a b
  | .error _, .error _ => True
  | _, _ => False

/-- From states related in one way the procedures give results that match, and leave states related in another way. -/
def SimTo (R S : σ → τ → Prop) (Q : α → β → Prop) (m : Proc σ ε α) (n : Proc τ ε β) : Prop :=
  ∀ s t, R s t → Matches Q (m s).1 (n t).1 ∧ S (m s).2 (n t).2

theorem Sim.simTo {R : σ → τ → Prop} {m : Proc σ ε α} {n : Proc τ ε α} (h : Sim R m n) : SimTo R R Eq m n := by
  intro s t hst
  obtain ⟨heq, hrel⟩ := h s t hst
  refine ⟨?_, hrel⟩
  rw [heq]
  cases (n t).1 with
  | ok a => exact rfl
  | error e => trivial

namespace SimTo

variable {γ δ : Type} {R S T : σ → τ → Prop} {Q : α → β → Prop} {U : γ → δ → Prop}

theorem bind {m : Proc σ ε α} {n : Proc τ ε β} {f : α → Proc σ ε γ} {g : β → Proc τ ε δ} (hm : SimTo R S Q m n)
    (hST : ∀ s t, S s t → T s t) (hf : ∀ a b, Q a b → SimTo S T U (f a) (g b)) : SimTo R T U (m >>= f) (n >>= g) := by
  intro s t hst
  obtain ⟨hmatch, hrel⟩ := hm s t hst
  rw [bind_apply, bind_apply]
  rcases hms : m s with ⟨x | a, s'⟩
  · rcases hnt : n t with ⟨y | b, t'⟩
    · rw [hms, hnt] at hrel
      exact ⟨trivial, hST _ _ hrel⟩
    · rw [hms, hnt] at hmatch
      exact hmatch.elim
  · rcases hnt : n t with ⟨y | b, t'⟩
    · rw [hms, hnt] at hmatch
      exact hmatch.elim
    · rw [hms, hnt] at hmatch hrel
      exact hf a b hmatch s' t' hrel

theorem pure {a : α} {b : β} (h : Q a b) : SimTo R R Q (pure a : Proc σ ε α) (pure b) := fun _ _ hst => ⟨h, hst⟩

theorem lift {x : Except ε α} {y : Except ε β} (h : Matches Q x y) : SimTo R R Q (lift x) (lift y) := fun _ _ hst => ⟨h, hst⟩

/-- More may be known of the states before, and less be asked of those after. -/
theorem mono {R' S' : σ → τ → Prop} {m : Proc σ ε α} {n : Proc τ ε β} (h : SimTo R S Q m n) (hR : ∀ s t, R' s t → R s t)
    (hS : ∀ s t, S s t → S' s t) : SimTo R' S' Q m n := by
  intro s t hst
  obtain ⟨hmatch, hrel⟩ := h s t (hR s t hst)
  exact ⟨hmatch, hS _ _ hrel⟩

end SimTo

/-! ## A procedure alone -/

/-- The procedure leaves a state that is related to the one it started from. -/
def Frame (R : σ → σ → Prop) (m : Proc σ ε α) : Prop := ∀ s, R s (m s).2

namespace Frame

variable {R : σ → σ → Prop}

theorem pure (hrefl : ∀ s, R s s) (a : α) : Frame R (pure a : Proc σ ε α) := fun s => hrefl s

theorem bind (htrans : ∀ s t u, R s t → R t u → R s u) {m : Proc σ ε α} {f : α → Proc σ ε β} (hm : Frame R m)
    (hf : ∀ a, Frame R (f a)) : Frame R (m >>= f) := by
  intro s
  have hs := hm s
  rw [bind_apply]
  rcases hms : m s with ⟨x | a, s'⟩
  · rw [hms] at hs
    exact hs
  · rw [hms] at hs
    exact htrans _ _ _ hs (hf a s')

theorem read (hrefl : ∀ s, R s s) (f : σ → α) : Frame R (read f : Proc σ ε α) := fun s => hrefl s

theorem modify {f : σ → σ} (h : ∀ s, R s (f s)) : Frame R (modify f : Proc σ ε Unit) := h

theorem lift (hrefl : ∀ s, R s s) (x : Except ε α) : Frame R (lift x : Proc σ ε α) := fun s => hrefl s

end Frame

/-- From a state with one property the procedure leaves a state with another, also where it raises. -/
def Leads (p q : σ → Prop) (m : Proc σ ε α) : Prop := ∀ s, p s → q (m s).2

namespace Leads

variable {p q r : σ → Prop}

theorem bind {m : Proc σ ε α} {f : α → Proc σ ε β} {Q : α → Prop} (hm : Leads p q m) (hQ : ∀ s a, (m s).1 = .ok a → Q a)
    (hqr : ∀ s, q s → r s) (hf : ∀ a, Q a → Leads q r (f a)) : Leads p r (m >>= f) := by
  intro s hs
  have hq := hm s hs
  rw [bind_apply]
  rcases hms : m s with ⟨x | a, s'⟩
  · rw [hms] at hq
    exact hqr _ hq
  · rw [hms] at hq
    exact hf a (hQ s a (by rw [hms])) s' hq

theorem pure (h : ∀ s, p s → q s) (a : α) : Leads p q (pure a : Proc σ ε α) := h

/-- Each part keeps the property. -/
theorem seq {m : Proc σ ε α} {f : α → Proc σ ε β} (hm : Leads p p m) (hf : ∀ a, Leads p p (f a)) : Leads p p (m >>= f) :=
  bind (Q := fun _ => True) hm (fun _ _ _ => trivial) (fun _ h => h) (fun a _ => hf a)

theorem read_bind {f : σ → β} {k : β → Proc σ ε α} (h : ∀ b, Leads p q (k b)) : Leads p q (read f >>= k) :=
  fun s hs => h (f s) s hs

theorem ite {c : Prop} [Decidable c] {m n : Proc σ ε α} (hm : Leads p q m) (hn : Leads p q n) : Leads p q (if c then m else n) := by
  split
  · exact hm
  · exact hn

theorem modify_bind {f : σ → σ} {k : Unit → Proc σ ε α} (hf : ∀ s, p s → r (f s)) (h : Leads r q (k ())) :
    Leads p q (modify f >>= k) := fun s hs => h (f s) (hf s hs)

end Leads

/-- From a state, the procedure leaves one with a property, and what it returns has another. -/
structure Yields (p : σ → Prop) (q : α → Prop) (m : Proc σ ε α) (s : σ) : Prop where
  state : p (m s).2
  result : ∀ a, (m s).1 = .ok a → q a

namespace Yields

variable {p : σ → Prop} {q : α → Prop} {r : β → Prop} {s : σ}

theorem pure {a : α} (hs : p s) (ha : q a) : Yields p q (pure a : Proc σ ε α) s := by
  refine ⟨hs, ?_⟩
  intro b hb
  cases hb
  exact ha

theorem bind_at {m : Proc σ ε α} {f : α → Proc σ ε β} (hs : p (m s).2)
    (hf : ∀ a, (m s).1 = .ok a → Yields p r (f a) (m s).2) : Yields p r (m >>= f) s := by
  rcases hms : m s with ⟨x | a, t⟩
  · have hbind : (m >>= f) s = (.error x, t) := by rw [bind_apply, hms]
    rw [hms] at hs
    refine ⟨hbind ▸ hs, ?_⟩
    intro b hb
    rw [hbind] at hb
    cases hb
  · have hbind : (m >>= f) s = f a t := by rw [bind_apply, hms]
    have hnext := hf a (by rw [hms])
    rw [hms] at hnext
    exact ⟨hbind ▸ hnext.state, hbind ▸ hnext.result⟩

theorem bind {m : Proc σ ε α} {f : α → Proc σ ε β} (hm : Yields p q m s) (hf : ∀ a t, p t → q a → Yields p r (f a) t) :
    Yields p r (m >>= f) s :=
  bind_at hm.state (fun a ha => hf a _ hm.state (hm.result a ha))

theorem read_bind {f : σ → β} {k : β → Proc σ ε α} (h : Yields p q (k (f s)) s) : Yields p q (read f >>= k) s :=
  ⟨h.state, h.result⟩

theorem modify_bind {f : σ → σ} {k : Unit → Proc σ ε α} (h : Yields p q (k ()) (f s)) : Yields p q (modify f >>= k) s :=
  ⟨h.state, h.result⟩

end Yields

/-- From a state, what the procedure returns and the state it leaves behind are related. -/
def Post (Q : α → σ → Prop) (m : Proc σ ε α) (s : σ) : Prop := ∀ a, (m s).1 = .ok a → Q a (m s).2

namespace Post

variable {Q : α → σ → Prop} {R : β → σ → Prop} {s : σ}

theorem pure {a : α} (h : Q a s) : Post Q (pure a : Proc σ ε α) s := by
  intro b hb
  cases hb
  exact h

theorem bind {m : Proc σ ε α} {f : α → Proc σ ε β} (h : ∀ a, (m s).1 = .ok a → Post R (f a) (m s).2) : Post R (m >>= f) s := by
  intro b hb
  obtain ⟨a, ha, happly⟩ := bind_ok hb
  rw [happly] at hb ⊢
  exact h a ha b hb

theorem read_bind {f : σ → β} {k : β → Proc σ ε α} (h : Post Q (k (f s)) s) : Post Q (read f >>= k) s := h

theorem modify_bind {f : σ → σ} {k : Unit → Proc σ ε α} (h : Post Q (k ()) (f s)) : Post Q (modify f >>= k) s := h

end Post

/-- From a state with a property the procedure returns, and it keeps the property. -/
def Succeeds (p : σ → Prop) (m : Proc σ ε α) : Prop := ∀ s, p s → (∃ a, (m s).1 = .ok a) ∧ p (m s).2

namespace Succeeds

variable {p : σ → Prop}

theorem pure (a : α) : Succeeds p (pure a : Proc σ ε α) := fun _ hs => ⟨⟨a, rfl⟩, hs⟩

theorem bind {m : Proc σ ε α} {f : α → Proc σ ε β} (hm : Succeeds p m) (hf : ∀ a, Succeeds p (f a)) : Succeeds p (m >>= f) := by
  intro s hs
  obtain ⟨⟨a, ha⟩, hnext⟩ := hm s hs
  rw [bind_apply]
  rcases hms : m s with ⟨x | b, t⟩
  · rw [hms] at ha
    cases ha
  · rw [hms] at hnext
    exact hf b t hnext

theorem read_bind {f : σ → β} {k : β → Proc σ ε α} (h : ∀ s, p s → Succeeds p (k (f s))) : Succeeds p (read f >>= k) :=
  fun s hs => h s hs s hs

theorem modify_bind {f : σ → σ} {k : Unit → Proc σ ε α} (hf : ∀ s, p s → p (f s)) (h : Succeeds p (k ())) :
    Succeeds p (modify f >>= k) := fun s hs => h (f s) (hf s hs)

end Succeeds

/-- From a state with one property the procedure returns, and leaves a state with another. -/
def Ensures (p q : σ → Prop) (m : Proc σ ε α) : Prop := ∀ s, p s → (∃ a, (m s).1 = .ok a) ∧ q (m s).2

namespace Ensures

variable {p q r : σ → Prop}

theorem pure (h : ∀ s, p s → q s) (a : α) : Ensures p q (pure a : Proc σ ε α) := fun s hs => ⟨⟨a, rfl⟩, h s hs⟩

theorem modify {f : σ → σ} (h : ∀ s, p s → q (f s)) : Ensures p q (modify f : Proc σ ε Unit) := fun s hs => ⟨⟨(), rfl⟩, h s hs⟩

theorem bind {m : Proc σ ε α} {f : α → Proc σ ε β} (hm : Ensures p q m) (hf : ∀ a, Ensures q r (f a)) : Ensures p r (m >>= f) := by
  intro s hs
  obtain ⟨⟨a, ha⟩, hnext⟩ := hm s hs
  rw [bind_apply]
  rcases hms : m s with ⟨x | b, t⟩
  · rw [hms] at ha
    cases ha
  · rw [hms] at hnext
    exact hf b t hnext

theorem mono {p' q' : σ → Prop} {m : Proc σ ε α} (h : Ensures p q m) (hp : ∀ s, p' s → p s) (hq : ∀ s, q s → q' s) :
    Ensures p' q' m := fun s hs => ⟨(h s (hp s hs)).1, hq _ (h s (hp s hs)).2⟩

theorem leads {m : Proc σ ε α} (h : Ensures p q m) : Leads p q m := fun s hs => (h s hs).2

/-- What comes behind a procedure that returns. -/
theorem leads_bind {m : Proc σ ε α} {f : α → Proc σ ε β} (hm : Ensures p q m) (hf : ∀ a, Leads q r (f a)) : Leads p r (m >>= f) := by
  intro s hs
  obtain ⟨⟨a, ha⟩, hnext⟩ := hm s hs
  rw [bind_apply]
  rcases hms : m s with ⟨x | b, t⟩
  · rw [hms] at ha
    cases ha
  · rw [hms] at hnext
    exact hf b t hnext

end Ensures

theorem Frame.leads {R : σ → σ → Prop} (htrans : ∀ s t u, R s t → R t u → R s u) {m : Proc σ ε α} (h : Frame R m) (s : σ) :
    Leads (R s) (R s) m := fun t hst => htrans s t _ hst (h t)

/-- Side by side with another procedure, the first one still leads where it leads alone. -/
theorem SimTo.and_leads {R S : σ → τ → Prop} {Q : α → β → Prop} {m : Proc σ ε α} {n : Proc τ ε β} {p q : σ → Prop}
    (h : SimTo R S Q m n) (hm : Leads p q m) :
    SimTo (fun s t => R s t ∧ p s) (fun s t => S s t ∧ q s) Q m n := by
  rintro s t ⟨hst, hs⟩
  obtain ⟨hmatch, hrel⟩ := h s t hst
  exact ⟨hmatch, hrel, hm s hs⟩

/-! ## Results -/

/-- What the procedure returns has the property. -/
def Returns (Q : α → Prop) (m : Proc σ ε α) : Prop := ∀ s a, (m s).1 = .ok a → Q a

namespace Returns

variable {Q : α → Prop} {S : β → Prop}

theorem pure {a : α} (h : Q a) : Returns Q (pure a : Proc σ ε α) := by
  intro s b hb
  cases hb
  exact h

theorem lift {x : Except ε α} (h : ∀ a, x = .ok a → Q a) : Returns Q (lift x : Proc σ ε α) := fun _ a ha => h a ha

theorem bind {m : Proc σ ε β} {f : β → Proc σ ε α} (hm : Returns S m) (hf : ∀ b, S b → Returns Q (f b)) :
    Returns Q (m >>= f) := by
  intro s a ha
  rw [bind_apply] at ha
  rcases hs : m s with ⟨x | b, t⟩
  · rw [hs] at ha
    cases ha
  · rw [hs] at ha
    exact hf b (hm s b (by rw [hs])) t a ha

theorem any (m : Proc σ ε β) : Returns (fun _ => True) m := fun _ _ _ => trivial

end Returns

/-- The procedure always returns, and what it returns has the property. -/
def Gives (Q : α → Prop) (m : Proc σ ε α) : Prop := ∀ s, ∃ a, (m s).1 = .ok a ∧ Q a

namespace Gives

variable {Q : α → Prop}

theorem pure {a : α} (h : Q a) : Gives Q (pure a : Proc σ ε α) := fun _ => ⟨a, rfl, h⟩

theorem read (f : σ → α) : Gives (fun _ => True) (read f : Proc σ ε α) := fun s => ⟨f s, rfl, trivial⟩

theorem modify (f : σ → σ) : Gives (fun _ => True) (modify f : Proc σ ε Unit) := fun _ => ⟨(), rfl, trivial⟩

theorem bind_at {m : Proc σ ε β} {f : β → Proc σ ε α} {s : σ} (hm : ∃ b, (m s).1 = .ok b) (hf : ∀ b, Gives Q (f b)) :
    ∃ a, ((m >>= f) s).1 = .ok a ∧ Q a := by
  obtain ⟨b, hb⟩ := hm
  rw [bind_apply]
  rcases hs : m s with ⟨x | b', t⟩
  · rw [hs] at hb
    cases hb
  · exact hf b' t

theorem bind {S : β → Prop} {m : Proc σ ε β} {f : β → Proc σ ε α} (hm : Gives S m) (hf : ∀ b, Gives Q (f b)) :
    Gives Q (m >>= f) := fun s => bind_at ((hm s).imp fun _ h => h.1) hf

theorem ite {c : Prop} [Decidable c] {m n : Proc σ ε α} (hm : Gives Q m) (hn : Gives Q n) : Gives Q (if c then m else n) := by
  split
  · exact hm
  · exact hn

end Gives

/-- What the first procedure returns has its property also side by side with another. -/
theorem SimTo.and_returns {R S : σ → τ → Prop} {Q : α → β → Prop} {p : α → Prop} {m : Proc σ ε α} {n : Proc τ ε β}
    (h : SimTo R S Q m n) (hm : Returns p m) : SimTo R S (fun a b => Q a b ∧ p a) m n := by
  intro s t hst
  obtain ⟨hmatch, hrel⟩ := h s t hst
  refine ⟨?_, hrel⟩
  rcases hms : m s with ⟨x | a, s'⟩
  · rcases hnt : n t with ⟨y | b, t'⟩
    · trivial
    · rw [hms, hnt] at hmatch
      exact hmatch.elim
  · rcases hnt : n t with ⟨y | b, t'⟩
    · rw [hms, hnt] at hmatch
      exact hmatch.elim
    · rw [hms, hnt] at hmatch
      exact ⟨hmatch, hm s a (by rw [hms])⟩

end Proc

end Lib

/-!
## Loops that may not end

A loop is what one round of it does: it goes on from another state, or is left with a result. It ends when some number of rounds
gives a result.
-/

namespace Lib

/-- What a round of a loop gives. -/
inductive Turn (σ β : Type*) where
  | next (s : σ)
  | done (r : β)

variable {σ β : Type*} (round : σ → Turn σ β)

/-- So many rounds of a loop. -/
def loop : Nat → σ → Option β
  | 0, _ => none
  | n + 1, s =>
    match round s with
    | .next s => loop n s
    | .done r => some r

/-- The loop ends from a state. -/
def Ends (s : σ) : Prop := ∃ n r, loop round n s = some r

variable {round}

theorem loop_next {s t : σ} (h : round s = .next t) (n : Nat) : loop round (n + 1) s = loop round n t := by
  rw [loop, h]

/-- More rounds do not change the result. -/
theorem loop_mono {n m : Nat} {s : σ} {r : β} (hnm : n ≤ m) (h : loop round n s = some r) : loop round m s = some r := by
  induction n generalizing m s with
  | zero => nomatch h
  | succ n ih =>
    obtain ⟨m, rfl⟩ : ∃ k, m = k + 1 := ⟨m - 1, by omega⟩
    rw [loop] at h ⊢
    cases hround : round s with
    | next t =>
      rw [hround] at h
      exact ih (by omega) h
    | done r' =>
      rw [hround] at h
      exact h

/-- The loop ends from a state with a result. -/
def Gives (round : σ → Turn σ β) (s : σ) (r : β) : Prop := ∃ n, loop round n s = some r

theorem ends_iff_gives {s : σ} : Ends round s ↔ ∃ r, Gives round s r := exists_comm

theorem gives_iff_of_done {s : σ} {r : β} (h : round s = .done r) (r' : β) : Gives round s r' ↔ r' = r := by
  constructor
  · rintro ⟨n, hn⟩
    cases n with
    | zero => nomatch hn
    | succ n =>
      rw [loop, h] at hn
      exact (Option.some.inj hn).symm
  · rintro rfl
    exact ⟨1, by rw [loop, h]⟩

theorem gives_iff_of_next {s t : σ} (h : round s = .next t) (r : β) : Gives round s r ↔ Gives round t r := by
  constructor
  · rintro ⟨n, hn⟩
    cases n with
    | zero => nomatch hn
    | succ n => exact ⟨n, by rwa [loop_next h] at hn⟩
  · rintro ⟨n, hn⟩
    exact ⟨n + 1, by rwa [loop_next h]⟩

theorem ends_of_done {s : σ} {r : β} (h : round s = .done r) : Ends round s :=
  ends_iff_gives.mpr ⟨r, (gives_iff_of_done h r).mpr rfl⟩

theorem ends_iff_of_gives {s t : σ} (h : ∀ r, Gives round s r ↔ Gives round t r) : Ends round s ↔ Ends round t := by
  rw [ends_iff_gives, ends_iff_gives]
  exact exists_congr h

theorem ends_iff_of_next {s t : σ} (h : round s = .next t) : Ends round s ↔ Ends round t :=
  ends_iff_of_gives (gives_iff_of_next h)

/-- A round that comes back to where it began is never the last. -/
theorem not_ends_of_next_self {s : σ} (h : round s = .next s) : ¬Ends round s := by
  rintro ⟨n, r, hn⟩
  induction n with
  | zero => nomatch hn
  | succ n ih => exact ih (by rwa [loop_next h] at hn)

end Lib
