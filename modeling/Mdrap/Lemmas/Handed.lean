import Mdrap.Lemmas.Held

/-!
# Where the events are in the engine

The slots of the engine together hold the events that are held back or ready. A call conserves them but for those it gives up, and
draining by force empties every slot.
-/

namespace Mdrap

open Lib

variable {V : Type}

namespace QualityEngine

open SlotWork

/-- The events in the slots. -/
def objects (e : QualityEngine V) : Multiset Nat := (e.slots.items.map (·.2.objects)).sum

/-- A source and an instrument have one slot, and a slot holds no number twice. -/
structure Whole (e : QualityEngine V) : Prop where
  distinct : e.slots.Distinct
  slots : ∀ kv ∈ e.slots.items, kv.2.pending.Distinct

theorem Whole.new : (new : QualityEngine V).Whole := ⟨Dict.distinct_empty, nofun⟩

theorem onSlot_conserves {α : Type} {key : String × String} {m : SlotM V α} {g : Multiset Nat} {ρ : α → Multiset Nat}
    {e : QualityEngine V} (he : e.Whole) {sl : QualitySlot V} (hget : e.slots.get? key = some sl)
    (hm : Proc.Conserves SlotWork.Whole SlotWork.objects g ρ m ⟨sl, e.tally⟩) :
    Proc.Conserves Whole objects g ρ (onSlot key m) e := by
  obtain ⟨l, r, hitems, hset, -⟩ := he.distinct.split hget
  have happly : onSlot key m e =
      ((m ⟨sl, e.tally⟩).1, { e with slots := e.slots.set key (m ⟨sl, e.tally⟩).2.slot, tally := (m ⟨sl, e.tally⟩).2.tally }) := by
    simp only [onSlot, hget]
  have hbefore : e.objects = sl.objects + ((l.map (·.2.objects)).sum + (r.map (·.2.objects)).sum) := by
    simp only [objects, hitems, List.map_append, List.map_cons, List.sum_append, List.sum_cons]
    abel
  have hafter : ∀ (sl' : QualitySlot V) (t : Tally), QualityEngine.objects { e with slots := e.slots.set key sl', tally := t } =
      sl'.objects + ((l.map (·.2.objects)).sum + (r.map (·.2.objects)).sum) := by
    intro sl' t
    simp only [objects, hset, List.map_append, List.map_cons, List.sum_append, List.sum_cons]
    abel
  generalize (l.map (·.2.objects)).sum + (r.map (·.2.objects)).sum = others at hbefore hafter
  refine ⟨?_, ?_, ?_⟩
  · rw [happly]
    refine ⟨he.distinct.set key _, ?_⟩
    intro kv hkv
    rw [hset] at hkv
    rcases List.mem_append.mp hkv with hl | hr
    · exact he.slots kv (by rw [hitems]; exact List.mem_append_left _ hl)
    · rcases List.mem_cons.mp hr with rfl | hr
      · exact hm.inv
      · exact he.slots kv (by rw [hitems]; exact List.mem_append_right _ (List.mem_cons_of_mem _ hr))
  · intro a ha
    rw [happly] at ha ⊢
    have hok : g + sl.objects = ρ a + (m ⟨sl, e.tally⟩).2.slot.objects := hm.ok a ha
    rw [hbefore, hafter, ← add_assoc, hok, add_assoc]
  · intro x hx
    rw [happly] at hx ⊢
    have herror : (m ⟨sl, e.tally⟩).2.slot.objects < g + sl.objects := hm.error x hx
    rw [hbefore, hafter, ← add_assoc]
    exact add_lt_add_of_lt_of_le herror (le_refl others)

variable (F : Floats V) (s : QualitySetup V)

/-- The events of the slot that goes to make room for a new one. -/
def evicted (e : QualityEngine V) (key : String × String) : Multiset Nat :=
  if (e.slots.get? key).isNone ∧ e.slots.size ≥ s.maxTrackedInstruments then (e.slots.items.head?.map (·.2.objects)).getD 0 else 0

theorem objects_add (e : QualityEngine V) {items : List ((String × String) × QualitySlot V)} {key : String × String}
    (hnew : (Dict.mk items).get? key = none) (window : Int) :
    QualityEngine.objects { e with slots := (Dict.mk items).set key (.new F window) } = (items.map (·.2.objects)).sum := by
  simp only [objects, Dict.items_set_of_none hnew, List.map_append, List.sum_append]
  simp [QualitySlot.new, QualitySlot.objects, QualitySlot.pendingObjects, Dict.empty]

theorem whole_add {e : QualityEngine V} {items : List ((String × String) × QualitySlot V)} (hd : (Dict.mk items).Distinct)
    (hslots : ∀ kv ∈ items, kv.2.pending.Distinct) {key : String × String} (hnew : (Dict.mk items).get? key = none) (window : Int) :
    Whole { e with slots := (Dict.mk items).set key (.new F window) } := by
  refine ⟨hd.set key _, ?_⟩
  intro kv hkv
  simp only [Dict.items_set_of_none hnew, List.mem_append, List.mem_singleton] at hkv
  rcases hkv with hkv | rfl
  · exact hslots kv hkv
  · exact Dict.distinct_empty

/-- What `_get_slot` does: the slot is there, or a new one is added, for which the oldest one may have to go. -/
theorem getSlot_cases (key : String × String) (window : Int) (e : QualityEngine V) :
    (∃ sl, e.slots.get? key = some sl ∧ getSlot F s key window e = (.ok (), e)) ∨
      (e.slots.get? key = none ∧ e.slots.size ≥ s.maxTrackedInstruments ∧ e.slots.items = [] ∧
        ∃ x, getSlot F s key window e = (.error x, e)) ∨
      ∃ items, getSlot F s key window e = (.ok (), { e with slots := (Dict.mk items).set key (.new F window) }) ∧
        e.slots.get? key = none ∧ (Dict.mk items).get? key = none ∧ items <:+ e.slots.items ∧
          (e.slots.items.map (·.2.objects)).sum = e.evicted s key + (items.map (·.2.objects)).sum := by
  unfold getSlot evicted
  rcases hget : e.slots.get? key with _ | sl
  · right
    by_cases hsize : e.slots.size ≥ s.maxTrackedInstruments
    · rcases hitems : e.slots.items with _ | ⟨kv, rest⟩
      · exact .inl ⟨rfl, hsize, rfl, ⟨"StopIteration", ""⟩, by simp [hsize]⟩
      · refine .inr ⟨rest, by simp [hsize], rfl, ?_, List.suffix_cons kv rest, ?_⟩
        · rw [Dict.get?_eq_none_iff] at hget ⊢
          rw [hitems] at hget
          exact fun hmem => hget (List.mem_cons_of_mem _ hmem)
        · simp [hsize]
    · exact .inr ⟨e.slots.items, by simp [hsize], rfl, hget, List.suffix_rfl, by simp [hsize]⟩
  · exact .inl ⟨sl, rfl, rfl⟩

theorem getSlot_conserves (o : Nat) (key : String × String) (window : Int) {e : QualityEngine V} (he : e.Whole) :
    Proc.Conserves Whole objects {o} (fun _ => {o} + e.evicted s key) (getSlot F s key window) e := by
  rcases getSlot_cases F s key window e with ⟨sl, hget, happly⟩ | ⟨hget, hsize, hitems, x, happly⟩ | ⟨items, happly, hget, hnew, hsuffix, hsum⟩
  · refine ⟨by rw [happly]; exact he, ?_, ?_⟩
    · intro u hu
      rw [happly, evicted, hget]
      simp
    · intro x hx
      rw [happly] at hx
      cases hx
  · refine ⟨by rw [happly]; exact he, ?_, ?_⟩
    · intro u hu
      rw [happly] at hu
      cases hu
    · intro y hy
      rw [happly, Multiset.singleton_add]
      exact Multiset.lt_cons_self _ _
  · have hd : (Dict.mk items).Distinct := he.distinct.sublist (hsuffix.sublist.map _)
    refine ⟨?_, ?_, ?_⟩
    · rw [happly]
      exact whole_add F hd (fun kv hkv => he.slots kv (hsuffix.subset hkv)) hnew window
    · intro u hu
      rw [happly, objects_add F e hnew window, objects, hsum, add_assoc]
    · intro y hy
      rw [happly] at hy
      cases hy

/-- The slot of a source and an instrument, once it is there. -/
def slotFor (e : QualityEngine V) (ev : MarketEvent V) : QualitySlot V :=
  (e.slots.get? (ev.source, ev.instrumentId)).getD (.new F (s.limits ev.instrumentId).priceWindow)

theorem getSlot_get? (e : QualityEngine V) (ev : MarketEvent V)
    (hok : (getSlot F s (ev.source, ev.instrumentId) (s.limits ev.instrumentId).priceWindow e).1 = .ok ()) :
    (getSlot F s (ev.source, ev.instrumentId) (s.limits ev.instrumentId).priceWindow e).2.slots.get? (ev.source, ev.instrumentId) =
      some (e.slotFor F s ev) := by
  rcases getSlot_cases F s (ev.source, ev.instrumentId) (s.limits ev.instrumentId).priceWindow e with
    ⟨sl, hget, happly⟩ | ⟨hget, hsize, hitems, x, happly⟩ | ⟨items, happly, hget, hnew, hsuffix, hsum⟩
  · rw [happly, slotFor, hget]
    rfl
  · rw [happly] at hok
    cases hok
  · rw [happly, slotFor, hget]
    exact Dict.get?_set_self _ _ _

/-- The events that a call of `evaluate` gives up: those of a slot that makes room, those held before a new epoch, and the one that
is held under the same number. -/
def givenUp (e : QualityEngine V) (now : V) (ev : MarketEvent V) : Multiset Nat :=
  e.evicted s (ev.source, ev.instrumentId) +
    match ev.eventType, ev.sequenceNumber with
    | some _, some seq =>
      if 0 ≤ seq then
        ((e.slotFor F s ev).givenUp F (s.limits ev.instrumentId) (checked F (s.limits ev.instrumentId) now ev).event seq : List Nat)
      else 0
    | _, _ => 0

theorem checked_unmarked (cfg : QualityLimits V) (now : V) (ev : MarketEvent V) :
    (checked F cfg now ev).event.unmarked = ev.unmarked := by
  unfold checked
  dsimp only
  split
  · rfl
  · rfl

theorem evaluateUnsequenced_conserves (cfg : QualityLimits V) (h : Held V) {e : QualityEngine V} (he : e.Whole) {sl : QualitySlot V}
    (hget : e.slots.get? (h.event.source, h.event.instrumentId) = some sl) :
    Proc.Conserves Whole objects {h.event.object} (fun r => objectsOf r.toList) (evaluateUnsequenced F s cfg h) e := by
  have hwhole : SlotWork.Whole ⟨sl, e.tally⟩ := he.slots _ (Dict.mem_of_get? hget)
  unfold evaluateUnsequenced
  dsimp only
  split
  · refine .read_bind ?_
    refine .modify_bind rfl ?_
    refine .bind (onSlot_conserves ⟨he.distinct, he.slots⟩ hget (complete_conserves F cfg s.userRules h _ hwhole)) ?_
    intro ev t ht _ _
    exact .pure ht (by simp)
  · refine .bind (onSlot_conserves he hget (complete_conserves F cfg s.userRules h _ hwhole)) ?_
    intro ev t ht _ _
    exact .pure ht (by simp)

theorem evaluate_conserves (now : V) (ev : MarketEvent V) {e : QualityEngine V} (he : e.Whole) :
    Proc.Conserves Whole objects {ev.object} (fun r => objectsOf r.toList + e.givenUp F s now ev) (evaluate F s now ev) e := by
  rw [evaluate]
  refine .bind (getSlot_conserves F s ev.object (ev.source, ev.instrumentId) (s.limits ev.instrumentId).priceWindow he) ?_
  intro u t ht hok hstate
  have hget := getSlot_get? F s e ev (by rw [hok])
  rw [← hstate] at hget
  have hwhole : ∀ tally, SlotWork.Whole ⟨e.slotFor F s ev, tally⟩ := fun _ => ht.slots _ (Dict.mem_of_get? hget)
  have hunmarked := checked_unmarked F (s.limits ev.instrumentId) now ev
  have hobject := object_eq_of_unmarked hunmarked
  split
  · rename_i htype
    refine .modify_bind rfl ?_
    refine .pure ⟨ht.distinct, ht.slots⟩ ?_
    simp [givenUp, htype]
    rfl
  · rename_i htype
    obtain ⟨type, htype'⟩ := Option.ne_none_iff_exists'.mp htype
    refine .modify_bind rfl ?_
    have hunsequenced : ∀ (e' : QualityEngine V), e'.Whole →
        e'.slots.get? (ev.source, ev.instrumentId) = some (e.slotFor F s ev) →
        e.givenUp F s now ev = e.evicted s (ev.source, ev.instrumentId) →
        Proc.Conserves Whole objects ({ev.object} + e.evicted s (ev.source, ev.instrumentId))
          (fun r => objectsOf r.toList + e.givenUp F s now ev)
          (evaluateUnsequenced F s (s.limits ev.instrumentId) (checked F (s.limits ev.instrumentId) now ev)) e' := by
      intro e' he' hget' hgiven
      have hsource := congrArg MarketEvent.source hunmarked
      have hinstrument := congrArg MarketEvent.instrumentId hunmarked
      simp only [MarketEvent.unmarked] at hsource hinstrument
      have hunseq := evaluateUnsequenced_conserves F s (s.limits ev.instrumentId) (checked F (s.limits ev.instrumentId) now ev) he'
        (by rw [hsource, hinstrument]; exact hget')
      exact (hunseq.frame (e.evicted s (ev.source, ev.instrumentId))).of_eq (by rw [hobject]) (fun _ => by rw [hgiven])
    rcases hseq : ev.sequenceNumber with _ | seq
    · exact hunsequenced _ ⟨ht.distinct, ht.slots⟩ hget (by simp [givenUp, hseq])
    · dsimp only
      split
      · rename_i hnonneg
        have hsequenced : ∀ tally : Tally, Proc.Conserves Whole objects _ _ _ { t with tally := tally } := fun tally =>
          onSlot_conserves ⟨ht.distinct, ht.slots⟩ hget
            (evaluateSequenced_conserves F (s.limits ev.instrumentId) s.userRules (checked F (s.limits ev.instrumentId) now ev) seq
              (hwhole tally))
        refine ((hsequenced _).frame (e.evicted s (ev.source, ev.instrumentId))).of_eq ?_ ?_
        · rw [hobject]
        · intro r
          simp only [givenUp, htype', hseq, if_pos hnonneg]
          abel
      · rename_i hneg
        exact hunsequenced _ ⟨ht.distinct, ht.slots⟩ hget (by simp [givenUp, hseq, htype', hneg])

/-! ## The event a call returns -/

theorem onSlot_ok {α : Type} {key : String × String} {m : SlotM V α} {e : QualityEngine V} {a : α}
    (hok : (onSlot key m e).1 = .ok a) : ∃ w, (m w).1 = .ok a := by
  unfold onSlot at hok
  split at hok
  · cases hok
  · exact ⟨_, hok⟩

theorem evaluateUnsequenced_unmarked {cfg : QualityLimits V} {h : Held V} {e : QualityEngine V} {r : Option (MarketEvent V)}
    (hok : (evaluateUnsequenced F s cfg h e).1 = .ok r) : ∀ ev ∈ r, ev.unmarked = h.event.unmarked := by
  have hcomplete : ∀ (ms : List Mark) (e : QualityEngine V),
      ((onSlot (h.event.source, h.event.instrumentId) (complete F cfg s.userRules h ms) >>= fun ev => pure (some ev) :
        QualityM V (Option (MarketEvent V))) e).1 = .ok r → ∀ ev ∈ r, ev.unmarked = h.event.unmarked := by
    intro ms e hok ev hev
    obtain ⟨ev', hev', happly⟩ := Proc.bind_ok hok
    rw [happly] at hok
    obtain ⟨w, hw⟩ := onSlot_ok hev'
    cases hok
    cases hev
    exact complete_unmarked F cfg s.userRules hw
  unfold evaluateUnsequenced at hok
  split at hok
  · exact hcomplete _ _ hok
  · exact hcomplete _ _ hok

theorem placed_unmarked {cfg : QualityLimits V} {rules : List (UserRule V)} {h : Held V} {p : Placement} {w : SlotWork V}
    {r : Option (MarketEvent V)} (hok : (placed F cfg rules h p w).1 = .ok r) : ∀ ev ∈ r, ev.unmarked = h.event.unmarked := by
  intro ev hev
  cases p with
  | held =>
    cases hok
    cases hev
  | done ms =>
    cases hok
    cases hev
    exact h.event.unmarked_markAll ms
  | goesOn ms =>
    obtain ⟨ev', hev', happly⟩ := Proc.bind_ok hok
    rw [placed, happly] at hok
    cases hok
    cases hev
    exact complete_unmarked F cfg rules hev'

/-- A call returns the event it was given, with other marks, or nothing. -/
theorem evaluate_unmarked {now : V} {ev : MarketEvent V} {e : QualityEngine V} {r : Option (MarketEvent V)}
    (hok : (evaluate F s now ev e).1 = .ok r) : ∀ ev' ∈ r, ev'.unmarked = ev.unmarked := by
  have hchecked := checked_unmarked F (s.limits ev.instrumentId) now ev
  rw [evaluate] at hok
  obtain ⟨u, -, happly⟩ := Proc.bind_ok hok
  rw [happly] at hok
  intro ev' hev'
  split at hok
  · cases hok
    cases hev'
    rfl
  · rw [Proc.bind_apply, Proc.modify_apply] at hok
    dsimp only at hok
    rcases hseq : ev.sequenceNumber with _ | seq
    · rw [hseq] at hok
      rw [evaluateUnsequenced_unmarked F s hok ev' hev', hchecked]
    · rw [hseq] at hok
      dsimp only at hok
      split at hok
      · obtain ⟨w, hw⟩ := onSlot_ok hok
        rw [evaluateSequenced_apply] at hw
        rw [placed_unmarked F hw ev' hev', ← hchecked]
        exact MarketEvent.unmarked_markAll _ _
      · rw [evaluateUnsequenced_unmarked F s hok ev' hev', hchecked]

/-! ## Draining -/

theorem onSlot_apply {α : Type} {key : String × String} (m : SlotM V α) {e : QualityEngine V} {sl : QualitySlot V}
    (hget : e.slots.get? key = some sl) :
    onSlot key m e =
      ((m ⟨sl, e.tally⟩).1, { e with slots := e.slots.set key (m ⟨sl, e.tally⟩).2.slot, tally := (m ⟨sl, e.tally⟩).2.tally }) := by
  simp only [onSlot, hget]

theorem onSlot_keys {α : Type} {key : String × String} (m : SlotM V α) {e : QualityEngine V} {sl : QualitySlot V}
    (hget : e.slots.get? key = some sl) : (onSlot key m e).2.slots.items.map (·.1) = e.slots.items.map (·.1) := by
  rw [onSlot_apply m hget]
  exact Dict.keys_set_of_some hget _

/-- Every key has a slot. -/
def HasSlots (e : QualityEngine V) (keys : List (String × String)) : Prop := ∀ key ∈ keys, key ∈ e.slots.items.map (·.1)

theorem HasSlots.get? {e : QualityEngine V} {keys : List (String × String)} (h : e.HasSlots keys) {key : String × String}
    (hkey : key ∈ keys) : ∃ sl, e.slots.get? key = some sl := by
  rcases hget : e.slots.get? key with _ | sl
  · exact absurd (h key hkey) (Dict.get?_eq_none_iff.mp hget)
  · exact ⟨sl, rfl⟩

theorem drainSlots_conserves (now : V) (force : Bool) (keys : List (String × String)) {e : QualityEngine V} (he : e.Whole)
    (hkeys : e.HasSlots keys) : Proc.Conserves Whole objects 0 objectsOf (drainSlots F s now force keys) e := by
  induction keys generalizing e with
  | nil => exact .pure he rfl
  | cons key keys ih =>
    obtain ⟨sl, hget⟩ := hkeys.get? List.mem_cons_self
    have hwhole : SlotWork.Whole ⟨sl, e.tally⟩ := he.slots _ (Dict.mem_of_get? hget)
    rw [drainSlots]
    refine .bind (onSlot_conserves he hget (drainSlot_conserves F (s.limits key.2) s.userRules now force hwhole)) ?_
    intro evs t ht _ hstate
    have hkeys' : t.HasSlots keys := by
      intro key' hkey'
      rw [hstate, onSlot_keys _ hget]
      exact hkeys key' (List.mem_cons_of_mem _ hkey')
    refine .bind (((ih ht hkeys').frame (objectsOf evs)).of_eq (zero_add _) (fun _ => rfl)) ?_
    intro rest u hu _ _
    refine .pure hu ?_
    rw [objectsOf_append]
    abel

theorem drainExpired_conserves (now : V) (force : Bool) {e : QualityEngine V} (he : e.Whole) :
    Proc.Conserves Whole objects 0 objectsOf (drainExpired F s now force) e := by
  rw [drainExpired]
  exact .read_bind (drainSlots_conserves F s now force _ he (fun _ h => h))

/-- The slot of a key is empty. -/
def Emptied (e : QualityEngine V) (key : String × String) : Prop := ∀ sl, e.slots.get? key = some sl → sl.objects = 0

theorem drainSlots_emptied (now : V) (keys : List (String × String)) {e : QualityEngine V} (hkeys : e.HasSlots keys)
    {evs : List (MarketEvent V)} (hok : (drainSlots F s now true keys e).1 = .ok evs) {key : String × String}
    (hkey : key ∈ keys ∨ e.Emptied key) : (drainSlots F s now true keys e).2.Emptied key := by
  induction keys generalizing e evs with
  | nil => exact hkey.resolve_left (List.not_mem_nil)
  | cons key' keys ih =>
    obtain ⟨sl, hget⟩ := hkeys.get? List.mem_cons_self
    rw [drainSlots] at hok ⊢
    obtain ⟨evs', hevs', happly⟩ := Proc.bind_ok hok
    rw [happly] at hok ⊢
    obtain ⟨rest, hrest, happly'⟩ := Proc.bind_ok hok
    rw [happly']
    have hkeys' : (onSlot key' (drainSlot F (s.limits key'.2) s.userRules now true) e).2.HasSlots keys := by
      intro k hk
      rw [onSlot_keys _ hget]
      exact hkeys k (List.mem_cons_of_mem _ hk)
    refine ih hkeys' hrest ?_
    rw [onSlot_apply _ hget] at hevs' ⊢
    by_cases heq : key = key'
    · right
      subst heq
      intro sl' hsl'
      rw [Dict.get?_set_self, Option.some.injEq] at hsl'
      subst hsl'
      exact drainSlot_emptied F _ _ now hevs'
    · rcases hkey with hmem | hempty
      · exact .inl ((List.mem_cons.mp hmem).resolve_left heq)
      · right
        intro sl' hsl'
        rw [Dict.get?_set_ne _ heq] at hsl'
        exact hempty sl' hsl'

/-- By force, all slots are emptied. -/
theorem drainExpired_emptied (now : V) {e : QualityEngine V} (he : e.Whole) {evs : List (MarketEvent V)}
    (hok : (drainExpired F s now true e).1 = .ok evs) : (drainExpired F s now true e).2.objects = 0 := by
  have hwhole := (drainExpired_conserves F s now true he).inv
  have hempty : ∀ key, (drainExpired F s now true e).2.Emptied key := by
    intro key
    refine drainSlots_emptied F s now _ (fun _ h => h) hok ?_
    rcases hget : e.slots.get? key with _ | sl
    · right
      intro sl hsl
      rw [hget] at hsl
      cases hsl
    · exact .inl (List.mem_map_of_mem (Dict.mem_of_get? hget))
  refine List.sum_eq_zero ?_
  intro o ho
  obtain ⟨kv, hkv, rfl⟩ := List.mem_map.mp ho
  exact hempty kv.1 kv.2 (hwhole.distinct.get?_of_mem hkv)

end QualityEngine

end Mdrap
