import Mathlib.Tactic.Common
import Mathlib.Data.List.Basic
import Mathlib.Order.Defs.PartialOrder

/-!
# Runs

A system with a step function takes a list of events from a state. A run keeps to a condition when every event meets it in the
state it is taken in; what each step keeps under the condition then holds wherever the run is cut.
-/

namespace Lib

variable {S E : Type*}

/-- The state after the events. -/
def runFrom (step : S → E → S) (s : S) (es : List E) : S := es.foldl step s

@[simp] theorem runFrom_nil (step : S → E → S) (s : S) : runFrom step s [] = s := rfl

@[simp] theorem runFrom_cons (step : S → E → S) (s : S) (e : E) (es : List E) :
    runFrom step s (e :: es) = runFrom step (step s e) es := rfl

theorem runFrom_append (step : S → E → S) (s : S) (es fs : List E) :
    runFrom step s (es ++ fs) = runFrom step (runFrom step s es) fs := List.foldl_append ..

/-- Every event of a run meets the condition in the state it is taken in. -/
def Along (step : S → E → S) (ok : S → E → Prop) : S → List E → Prop
  | _, [] => True
  | s, e :: es => ok s e ∧ Along step ok (step s e) es

instance Along.decidable (step : S → E → S) (ok : S → E → Prop) [∀ s e, Decidable (ok s e)] :
    (s : S) → (es : List E) → Decidable (Along step ok s es)
  | _, [] => isTrue trivial
  | s, e :: es =>
    have := Along.decidable step ok (step s e) es
    inferInstanceAs (Decidable (_ ∧ _))

namespace Along

variable {step : S → E → S} {ok : S → E → Prop}

theorem of_append {s : S} {es fs : List E} (h : Along step ok s (es ++ fs)) : Along step ok s es := by
  induction es generalizing s with
  | nil => trivial
  | cons e es ih => exact ⟨h.1, ih h.2⟩

theorem of_append_right {s : S} {es fs : List E} (h : Along step ok s (es ++ fs)) : Along step ok (runFrom step s es) fs := by
  induction es generalizing s with
  | nil => exact h
  | cons e es ih => exact ih h.2

theorem last {s : S} {es : List E} {e : E} (h : Along step ok s (es ++ [e])) : ok (runFrom step s es) e := by
  induction es generalizing s with
  | nil => exact h.1
  | cons e' es ih => exact ih h.2

theorem of_forall {es : List E} (h : ∀ e ∈ es, ∀ s, ok s e) (s : S) : Along step ok s es := by
  induction es generalizing s with
  | nil => trivial
  | cons e es ih => exact ⟨h e List.mem_cons_self s, ih (fun e he => h e (List.mem_cons_of_mem _ he)) _⟩

theorem and {ok' : S → E → Prop} {s : S} {es : List E} (h : Along step ok s es) (h' : Along step ok' s es) :
    Along step (fun s e => ok s e ∧ ok' s e) s es := by
  induction es generalizing s with
  | nil => trivial
  | cons e es ih => exact ⟨⟨h.1, h'.1⟩, ih h.2 h'.2⟩

/-- What a step keeps under the condition, the run keeps. -/
theorem inv {I : S → Prop} (hstep : ∀ s e, I s → ok s e → I (step s e)) {s : S} {es : List E} (h : Along step ok s es)
    (hs : I s) : I (runFrom step s es) := by
  induction es generalizing s with
  | nil => exact hs
  | cons e es ih => exact ih h.2 (hstep s e hs h.1)

/-- What a step keeps under the condition holds wherever the run is cut. -/
theorem inv_prefix {I : S → Prop} (hstep : ∀ s e, I s → ok s e → I (step s e)) {s : S} {es : List E}
    (h : Along step ok s es) (hs : I s) {fs : List E} (hf : fs <+: es) : I (runFrom step s fs) := by
  obtain ⟨gs, rfl⟩ := hf
  exact h.of_append.inv hstep hs

/-- A step keeps a property exactly where it meets the condition: the property holds wherever the run is cut exactly when the run
keeps to the condition. -/
theorem iff_prefixes {I J : S → Prop} (hJ : ∀ s e, J s → I s → J (step s e))
    (hI : ∀ s e, J s → I s → (I (step s e) ↔ ok s e)) {s : S} (hs : J s) (hi : I s) (es : List E) : (∀ fs, fs <+: es → I (runFrom step s fs)) ↔ Along step ok s es := by
  induction es generalizing s with
  | nil =>
    refine ⟨fun _ => trivial, ?_⟩
    intro _ fs hfs
    rw [List.prefix_nil.mp hfs]
    exact hi
  | cons e es ih =>
    constructor
    · intro h
      have hnext : I (step s e) := h [e] (List.prefix_iff_eq_take.mpr rfl)
      refine ⟨(hI s e hs hi).mp hnext, (ih (hJ s e hs hi) hnext).mp ?_⟩
      intro fs hfs
      exact h (e :: fs) (List.cons_prefix_cons.mpr ⟨rfl, hfs⟩)
    · rintro ⟨he, hes⟩ fs hfs
      cases fs with
      | nil => exact hi
      | cons e' fs =>
        obtain ⟨rfl, htail⟩ := List.cons_prefix_cons.mp hfs
        exact (ih (hJ s e' hs hi) ((hI s e' hs hi).mpr he)).mpr hes fs htail

/-- A run keeps to a condition exactly when each of its events meets it where the events before it lead to. -/
theorem iff_forall {s : S} {es : List E} :
    Along step ok s es ↔ ∀ fs e, fs ++ [e] <+: es → ok (runFrom step s fs) e := by
  constructor
  · rintro h fs e ⟨gs, rfl⟩
    exact h.of_append.last
  · intro h
    induction es generalizing s with
    | nil => trivial
    | cons e es ih =>
      refine ⟨h [] e (List.cons_prefix_cons.mpr ⟨rfl, List.nil_prefix⟩), ih ?_⟩
      intro fs e' hfs
      exact h (e :: fs) e' (List.cons_prefix_cons.mpr ⟨rfl, hfs⟩)

/-- Two conditions that agree wherever an invariant holds: a run keeps to the one exactly when it keeps to the other. -/
theorem congr_inv {ok' : S → E → Prop} {J : S → Prop} (hJ : ∀ s e, J s → J (step s e))
    (h : ∀ s e, J s → (ok s e ↔ ok' s e)) {s : S} (hs : J s) (es : List E) : Along step ok s es ↔ Along step ok' s es := by
  induction es generalizing s with
  | nil => exact Iff.rfl
  | cons e es ih => exact and_congr (h s e hs) (ih (hJ s e hs))

/-- A quantity never falls in a run exactly when it falls in none of the steps. -/
theorem monotone_iff {A : Type*} [Preorder A] (f : S → A) (s : S) (es : List E) :
    (∀ fs gs, fs <+: gs → gs <+: es → f (runFrom step s fs) ≤ f (runFrom step s gs)) ↔
      Along step (fun s e => f s ≤ f (step s e)) s es := by
  induction es generalizing s with
  | nil =>
    refine ⟨fun _ => trivial, ?_⟩
    intro _ fs gs hfs hgs
    obtain rfl := List.prefix_nil.mp hgs
    obtain rfl := List.prefix_nil.mp hfs
    exact le_refl _
  | cons e es ih =>
    constructor
    · intro h
      refine ⟨h [] [e] List.nil_prefix (List.prefix_iff_eq_take.mpr rfl), (ih (step s e)).mp ?_⟩
      intro fs gs hfs hgs
      exact h (e :: fs) (e :: gs) (List.cons_prefix_cons.mpr ⟨rfl, hfs⟩) (List.cons_prefix_cons.mpr ⟨rfl, hgs⟩)
    · rintro ⟨he, hes⟩ fs gs hfs hgs
      have htail := (ih (step s e)).mpr hes
      cases gs with
      | nil =>
        obtain rfl := List.prefix_nil.mp hfs
        exact le_refl _
      | cons e' gs =>
        obtain ⟨rfl, hlater⟩ := List.cons_prefix_cons.mp hgs
        cases fs with
        | nil => exact le_trans he (htail [] gs List.nil_prefix hlater)
        | cons e'' fs =>
          obtain ⟨rfl, hearlier⟩ := List.cons_prefix_cons.mp hfs
          exact htail fs gs hearlier hlater

end Along

/-! ## Outcomes -/

variable {T O : Type*}

/-- What a system answers to each of the events. -/
def outcomes (step : S → E → O × S) : S → List E → List O
  | _, [] => []
  | s, e :: es => (step s e).1 :: outcomes step (step s e).2 es

/-- Two systems in related states, which give the same answer exactly where the condition holds and are related again where it
does: they give the same answers throughout exactly in the runs that keep to the condition. -/
theorem outcomes_eq_iff {f : S → E → O × S} {g : T → E → O × T} {R : S → T → Prop} {ok : S → E → Prop}
    (hok : ∀ s t e, R s t → ok s e → (f s e).1 = (g t e).1 ∧ R (f s e).2 (g t e).2)
    (hne : ∀ s t e, R s t → (f s e).1 = (g t e).1 → ok s e) {s : S} {t : T} (h : R s t) (es : List E) :
    outcomes f s es = outcomes g t es ↔ Along (fun s e => (f s e).2) ok s es := by
  induction es generalizing s t with
  | nil => exact ⟨fun _ => trivial, fun _ => rfl⟩
  | cons e es ih =>
    constructor
    · intro heq
      obtain ⟨hhead, htail⟩ := List.cons.inj heq
      have he := hne s t e h hhead
      exact ⟨he, (ih (hok s t e h he).2).mp htail⟩
    · rintro ⟨he, hes⟩
      obtain ⟨hhead, hrel⟩ := hok s t e h he
      exact List.cons_eq_cons.mpr ⟨hhead, (ih hrel).mpr hes⟩

/-- Two systems in related states always give the same answer, and are related again where the condition holds; where it does not,
the next event can tell them apart. They answer a run alike, and whatever could come next at any point of it, exactly when the run
keeps to the condition. -/
theorem outcomes_eq_ahead_iff {f : S → E → O × S} {g : T → E → O × T} {R : S → T → Prop} {ok : S × T → E → Prop}
    (hsame : ∀ s t e, R s t → (f s e).1 = (g t e).1) (hok : ∀ s t e, R s t → ok (s, t) e → R (f s e).2 (g t e).2)
    (hne : ∀ s t e, R s t → ¬ok (s, t) e → ∃ e', (f (f s e).2 e').1 ≠ (g (g t e).2 e').1) {s : S} {t : T} (h : R s t)
    (es : List E) :
    (∀ fs, fs <+: es → ∀ e, outcomes f s (fs ++ [e]) = outcomes g t (fs ++ [e])) ↔
      Along (fun st e => ((f st.1 e).2, (g st.2 e).2)) ok (s, t) es := by
  induction es generalizing s t with
  | nil =>
    refine ⟨fun _ => trivial, ?_⟩
    intro _ fs hfs e
    rw [List.prefix_nil.mp hfs]
    exact List.cons_eq_cons.mpr ⟨hsame s t e h, rfl⟩
  | cons e es ih =>
    constructor
    · intro heq
      have he : ok (s, t) e := by
        by_contra hnot
        obtain ⟨e', he'⟩ := hne s t e h hnot
        have htwo := heq [e] (List.prefix_iff_eq_take.mpr rfl) e'
        exact he' (List.cons.inj (List.cons.inj htwo).2).1
      refine ⟨he, (ih (hok s t e h he)).mp ?_⟩
      intro fs hfs e'
      exact (List.cons.inj (heq (e :: fs) (List.cons_prefix_cons.mpr ⟨rfl, hfs⟩) e')).2
    · rintro ⟨he, hes⟩ fs hfs e'
      cases fs with
      | nil => exact List.cons_eq_cons.mpr ⟨hsame s t e' h, rfl⟩
      | cons e'' fs =>
        obtain ⟨rfl, htail⟩ := List.cons_prefix_cons.mp hfs
        exact List.cons_eq_cons.mpr ⟨hsame s t e'' h, (ih (hok s t e'' h he)).mpr hes fs htail e'⟩

/-- What a system answers to some of the events of a run. -/
def outcomesOf (own : E → Bool) (step : S → E → O × S) : S → List E → List O
  | _, [] => []
  | s, e :: es => if own e then (step s e).1 :: outcomesOf own step (step s e).2 es else outcomesOf own step (step s e).2 es

/-- Two systems in related states, of which the second one takes only some of the events: they answer these alike when the answers
to such an event are alike and both steps keep the relation, and the first system keeps it alone when it takes another event. -/
theorem outcomesOf_eq {A : Type*} {own : E → Bool} {f : S → E → O × S} {g : T → E → O × T} {view : O → A} {R : S → T → Prop}
    {ok : S → E → Prop}
    (hown : ∀ s t e, R s t → ok s e → own e = true → view (f s e).1 = view (g t e).1 ∧ R (f s e).2 (g t e).2)
    (hother : ∀ s t e, R s t → ok s e → own e = false → R (f s e).2 t) {s : S} {t : T} (h : R s t) {es : List E}
    (hes : Along (fun s e => (f s e).2) ok s es) :
    (outcomesOf own f s es).map view = (outcomes g t (es.filter own)).map view := by
  induction es generalizing s t with
  | nil => rfl
  | cons e es ih =>
    obtain ⟨he, hes⟩ := hes
    rcases hownE : own e with _ | _
    · have hrel := hother s t e h he hownE
      simpa [outcomesOf, hownE] using ih hrel hes
    · obtain ⟨hview, hrel⟩ := hown s t e h he hownE
      simp [outcomesOf, outcomes, hownE, hview, ih hrel hes]

end Lib
