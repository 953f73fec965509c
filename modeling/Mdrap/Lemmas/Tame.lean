import Mdrap.Lemmas.Handed

/-!
# Prices that raise nothing

A call of the quality engine raises where a window for prices has no room, where there may be no slot at all, and where the squares
of the deviations are out of the range of a number. With room for prices and slots, and prices whose squares are in range, it returns.
-/

namespace Mdrap

open Lib

variable {V : Type}

namespace Prices

/-- Whatever prices of a kind are in a window, their squares are in range. -/
def Tame (F : Floats V) (window : Int) (P : V → Prop) : Prop :=
  0 < window ∧ ∀ vs : List V, (vs.length : Int) ≤ window → (∀ v ∈ vs, P v) →
    (sumSquares F (F.div (F.sum vs) (F.int vs.length)) vs).isSome

/-- Where no square is out of range, all prices will do. -/
theorem Tame.of_square {F : Floats V} (hsquare : ∀ v, (F.square v).isSome) {window : Int} (hwindow : 0 < window) (P : V → Prop) :
    Tame F window P := by
  have hsum : ∀ (mean : V) (vs : List V) (acc : V),
      (vs.foldl (fun acc v => do return F.add (← acc) (← F.square (F.sub v mean))) (some acc)).isSome := by
    intro mean vs
    induction vs with
    | nil => exact fun _ => rfl
    | cons v vs ih =>
      intro acc
      obtain ⟨sq, hsq⟩ := Option.isSome_iff_exists.mp (hsquare (F.sub v mean))
      rw [List.foldl_cons, hsq]
      exact ih _
  exact ⟨hwindow, fun vs _ _ => hsum _ vs _⟩

/-- The ring has the size of the window, and the prices in it are of a kind. -/
structure Whole (window : Int) (P : V → Prop) (p : Prices V) : Prop where
  length : p.ring.length = window
  used : p.n ≤ window
  head : p.head < window
  within : ∀ v ∈ p.ring.take p.n, P v

variable {F : Floats V} {window : Int} {P : V → Prop}

theorem Whole.new (hwindow : 0 < window) : (Prices.new F window).Whole window P := by
  refine ⟨?_, ?_, hwindow, ?_⟩
  · simp only [Prices.new, List.length_replicate]
    omega
  · exact hwindow.le
  · intro v hv
    simp [Prices.new] at hv

theorem take_set_succ {ring : List V} {n : Nat} (h : n < ring.length) (x : V) :
    (ring.set n x).take (n + 1) = ring.take n ++ [x] := by
  rw [List.take_add_one, List.getElem?_set_self h, List.take_set_of_le (le_refl n)]
  rfl

theorem insert_whole (hwindow : 0 < window) {x : V} (hx : P x) {p : Prices V} (hp : p.Whole window P) :
    ∃ p', p.insert F window x = .ok p' ∧ p'.Whole window P := by
  have hlength := hp.length
  have hused := hp.used
  have hhead := hp.head
  unfold insert
  by_cases hfull : p.n ≥ window
  · rw [if_pos hfull]
    obtain ⟨old, hold⟩ : ∃ old, p.ring[p.head]? = some old := ⟨_, List.getElem?_eq_getElem (by omega)⟩
    rw [hold]
    refine ⟨_, rfl, ?_, hused, ?_, ?_⟩
    · rw [List.length_set]
      exact hlength
    · dsimp only
      split <;> omega
    · -- the window is full: what is used is the whole ring
      intro v hv
      rw [List.take_of_length_le (by rw [List.length_set]; dsimp only; omega)] at hv
      rcases List.mem_or_eq_of_mem_set hv with hmem | rfl
      · exact hp.within v (by rw [List.take_of_length_le (by omega)]; exact hmem)
      · exact hx
  · rw [if_neg hfull]
    refine ⟨_, rfl, ?_, ?_, ?_, ?_⟩
    · rw [List.length_set]
      exact hlength
    · dsimp only
      omega
    · dsimp only
      split <;> omega
    · intro v hv
      rw [take_set_succ (by omega)] at hv
      rcases List.mem_append.mp hv with hmem | hmem
      · exact hp.within v hmem
      · rw [List.mem_singleton.mp hmem]
        exact hx

theorem foldPrice_whole (hF : Tame F window P) {x : V} (hx : P x) {p : Prices V} (hp : p.Whole window P) :
    (p.foldPrice F window x).1 = .ok () ∧ (p.foldPrice F window x).2.Whole window P := by
  obtain ⟨p', hinsert, hp'⟩ := insert_whole (F := F) hF.1 hx hp
  have hlength := hp'.length
  have hused := hp'.used
  unfold foldPrice
  rw [hinsert]
  dsimp only
  split
  · have htake : ((p'.ring.take p'.n).length : Int) = p'.n := by
      rw [List.length_take]
      omega
    obtain ⟨m2, hm2⟩ := Option.isSome_iff_exists.mp (hF.2 (p'.ring.take p'.n) (by omega) hp'.within)
    rw [htake] at hm2
    simp only [recenter, hm2]
    exact ⟨trivial, hp'.length, hp'.used, hp'.head, hp'.within⟩
  · exact ⟨rfl, hp'.length, hp'.used, hp'.head, hp'.within⟩

theorem stage_whole {cfg : QualityLimits V} (hF : Tame F cfg.priceWindow P) (venue : String) {px : V} (hpx : P px) {p : Prices V}
    (hp : p.Whole cfg.priceWindow P) :
    (p.stage F cfg venue px).2.1 = .ok () ∧ (p.stage F cfg venue px).2.2.Whole cfg.priceWindow P := by
  unfold stage
  split
  · unfold outlier
    dsimp only
    generalize (if p.anomCount > 0 ∧ F.le (F.abs (F.sub px p.anomLast)) (p.clusterTol F cfg px) then p.anomCount + 1 else 1) = count
    split
    · refine foldPrice_whole hF hpx ⟨hp.length, hF.1.le, hF.1, ?_⟩
      intro v hv
      cases hv
    · exact ⟨rfl, hp.length, hp.used, hp.head, hp.within⟩
  · exact foldPrice_whole hF hpx ⟨hp.length, hp.used, hp.head, hp.within⟩

end Prices

/-- The price of an event, if it has one, is of a kind. -/
def MarketEvent.HasPrice (P : V → Prop) (ev : MarketEvent V) : Prop := ∀ px, ev.price = some px → P px

theorem MarketEvent.HasPrice.of_unmarked {P : V → Prop} {ev ev' : MarketEvent V} (h : ev.HasPrice P)
    (heq : ev'.unmarked = ev.unmarked) : ev'.HasPrice P := by
  have hprice := congrArg MarketEvent.price heq
  intro px hpx
  exact h px (hprice.symm.trans hpx)

namespace QualitySlot

/-- The prices of a slot, and of the events it holds, are of a kind. -/
structure Tame (window : Int) (P : V → Prop) (sl : QualitySlot V) : Prop where
  prices : sl.prices.Whole window P
  pending : ∀ seq h, sl.pending.get? seq = some h → h.event.HasPrice P

variable {F : Floats V} {cfg : QualityLimits V} {P : V → Prop}

theorem Tame.new {window : Int} (hwindow : 0 < window) : (QualitySlot.new F window).Tame window P :=
  ⟨.new hwindow, fun _ _ h => nomatch h⟩

theorem Tame.of_pending {window : Int} {sl sl' : QualitySlot V} (h : sl.Tame window P) (hprices : sl'.prices = sl.prices)
    (hpending : ∀ seq o, sl'.pending.get? seq = some o → sl.pending.get? seq = some o) : sl'.Tame window P := by
  refine ⟨hprices ▸ h.prices, ?_⟩
  intro seq o hget
  exact h.pending seq o (hpending seq o hget)

theorem stageTime_prices (ev : MarketEvent V) (sl : QualitySlot V) : (sl.stageTime F cfg ev).2.prices = sl.prices := by
  unfold stageTime
  split
  · dsimp only
    split
    · rfl
    · rfl
  · rfl

theorem place_prices (sl : QualitySlot V) (seq : Int) (h : Held V) : (sl.place F cfg seq h).2.prices = sl.prices := by
  unfold place ahead behind pushStale
  dsimp only
  repeat' split
  all_goals rfl

theorem enter_prices (sl : QualitySlot V) (reset : Bool) (ev : MarketEvent V) : (sl.enter reset ev).prices = sl.prices := by
  unfold enter clear
  dsimp only
  repeat' split
  all_goals rfl

end QualitySlot

namespace SlotWork

variable (F : Floats V) (cfg : QualityLimits V) (rules : List (UserRule V))

/-- The slot at work has prices of a kind. -/
def Tame (P : V → Prop) (w : SlotWork V) : Prop := w.slot.Tame cfg.priceWindow P

variable {P : V → Prop} (hF : Prices.Tame F cfg.priceWindow P)

include hF

theorem stagePrice_tame (hasPrice : Bool) {ev : MarketEvent V} (hev : ev.HasPrice P) :
    Proc.Succeeds (Tame cfg P) (stagePrice F cfg hasPrice ev) := by
  intro w hw
  by_cases hpriced : ∃ px, Priced F hasPrice ev px
  · obtain ⟨px, hpx⟩ := hpriced
    rw [stagePrice_of_priced F cfg hpx]
    obtain ⟨hok, hwhole⟩ := Prices.stage_whole hF ev.venue (hev px hpx.1) hw.prices
    rw [hok]
    exact ⟨⟨_, rfl⟩, hwhole, hw.pending⟩
  · rw [stagePrice_of_not F cfg (not_exists.mp hpriced)]
    exact ⟨⟨ev, rfl⟩, hw⟩

theorem finishEvaluation_tame {h : Held V} (hev : h.event.HasPrice P) :
    Proc.Succeeds (Tame cfg P) (finishEvaluation F cfg rules h) := by
  rw [finishEvaluation]
  refine .read_bind ?_
  intro w _
  refine .modify_bind ?_ ?_
  · intro w hw
    have hsame := w.slot.stageTime_sameSequence F cfg h.event
    exact hw.of_pending (w.slot.stageTime_prices h.event) (fun seq o hget => hsame.pending ▸ hget)
  · refine .modify_bind (fun _ hw => hw) ?_
    refine .bind (stagePrice_tame F cfg hF h.hasPrice (hev.of_unmarked (h.event.unmarked_markAll _))) ?_
    intro ev
    exact .modify_bind (fun _ hw => hw) (.pure _)

theorem release_tame {keep : MarketEvent V → QualitySlot V → QualitySlot V}
    (hkeep : ∀ ev sl, (keep ev sl).pending = sl.pending ∧ (keep ev sl).prices = sl.prices) (n : Nat) :
    Proc.Succeeds (Tame cfg P) (release F cfg rules keep n) := by
  induction n with
  | zero => exact .pure _
  | succ n ih =>
    rw [release]
    refine .read_bind ?_
    intro w hw
    rcases hget : w.slot.pending.get? (w.slot.lastSeq + 1) with _ | h
    · exact .pure _
    · refine .modify_bind ?_ ?_
      · intro w hw
        exact hw.of_pending rfl (fun _ _ hget => QualitySlot.get?_of_erase hget)
      · refine .bind (finishEvaluation_tame F cfg rules hF (hw.pending _ h hget)) ?_
        intro ev
        refine .modify_bind ?_ ?_
        · intro w hw
          obtain ⟨hpending, hprices⟩ := hkeep ev w.slot
          exact hw.of_pending hprices (fun seq o hget => hpending ▸ hget)
        · exact .bind ih (fun _ => .pure _)

theorem complete_tame {h : Held V} (hev : h.event.HasPrice P) (ms : List Mark) :
    Proc.Succeeds (Tame cfg P) (complete F cfg rules h ms) := by
  rw [complete]
  refine .modify_bind (fun _ hw => hw) ?_
  refine .bind (finishEvaluation_tame F cfg rules hF (hev.of_unmarked (h.event.unmarked_markAll ms))) ?_
  intro ev
  split
  · refine .read_bind (fun w _ => ?_)
    refine .bind ?_ (fun _ => .pure _)
    refine release_tame F cfg rules hF ?_ _
    exact fun _ _ => ⟨rfl, rfl⟩
  · exact .pure _

theorem placed_tame {h : Held V} (hev : h.event.HasPrice P) (p : Placement) :
    Proc.Succeeds (Tame cfg P) (placed F cfg rules h p) := by
  cases p with
  | held => exact .pure _
  | done ms => exact .modify_bind (fun _ hw => hw) (.pure _)
  | goesOn ms => exact .bind (complete_tame F cfg rules hF hev ms) (fun _ => .pure _)

theorem evaluateSequenced_tame {h : Held V} (hev : h.event.HasPrice P) (seq : Int) :
    Proc.Succeeds (Tame cfg P) (evaluateSequenced F cfg rules h seq) := by
  intro w hw
  have hentering : (w.entering F cfg h seq).event.HasPrice P := hev.of_unmarked (h.event.unmarked_markAll _)
  rw [evaluateSequenced_apply]
  refine placed_tame F cfg rules hF hentering _ _ ?_
  have hplace := QualitySlot.place_held F cfg (w.entered F cfg h seq) seq (w.entering F cfg h seq)
  have hprices : (w.entered F cfg h seq).prices = w.slot.prices := w.slot.enter_prices _ _
  refine ⟨?_, ?_⟩
  · show Prices.Whole cfg.priceWindow P ((w.entered F cfg h seq).place F cfg seq (w.entering F cfg h seq)).2.prices
    rw [QualitySlot.place_prices, hprices]
    exact hw.prices
  · -- what is held is the event itself or was held before
    have hentered : ∀ k o, (w.entered F cfg h seq).pending.get? k = some o → o.event.HasPrice P := by
      intro k o hget
      rw [entered, QualitySlot.enter_pending] at hget
      split at hget
      · cases hget
      · exact hw.pending k o hget
    intro k o hget
    split at hplace
    · rw [hplace] at hget
      by_cases hk : k = seq
      · subst hk
        rw [Dict.get?_set_self, Option.some.injEq] at hget
        subst hget
        exact hentering
      · rw [Dict.get?_set_ne _ hk] at hget
        exact hentered k o hget
    · obtain ⟨-, hpending, -⟩ := hplace
      exact hentered k o (hpending ▸ hget)

theorem drainSeqs_tame (seqs : List Int) : Proc.Succeeds (Tame cfg P) (drainSeqs F cfg rules seqs) := by
  induction seqs with
  | nil => exact .pure _
  | cons seq seqs ih =>
    rw [drainSeqs]
    refine .read_bind ?_
    intro w hw
    rcases hget : w.slot.pending.get? seq with _ | h
    · exact ih
    · refine .modify_bind (fun _ hw => hw) ?_
      refine .modify_bind ?_ ?_
      · intro w hw
        refine hw.of_pending ?_ ?_
        · unfold QualitySlot.skipTo
          dsimp only
          split <;> rfl
        · intro k o hget
          rw [(skipTo_pending w.slot seq).1] at hget
          exact QualitySlot.get?_of_erase hget
      · refine .bind (finishEvaluation_tame F cfg rules hF ((hw.pending _ h hget).of_unmarked (h.event.unmarked_mark _))) ?_
        intro ev
        refine .read_bind (fun w _ => ?_)
        refine .bind (release_tame F cfg rules hF (fun _ _ => ⟨rfl, rfl⟩) _) ?_
        intro next
        exact .bind ih (fun _ => .pure _)

theorem drainSlot_tame (now : V) (force : Bool) : Proc.Succeeds (Tame cfg P) (drainSlot F cfg rules now force) := by
  rw [drainSlot]
  refine .read_bind (fun w _ => ?_)
  refine .modify_bind (fun w hw => hw.of_pending rfl (fun _ _ h => h)) ?_
  refine .read_bind (fun w _ => ?_)
  exact .bind (drainSeqs_tame F cfg rules hF _) (fun _ => .pure _)

end SlotWork

namespace QualityEngine

open SlotWork

variable (F : Floats V) (s : QualitySetup V) (P : V → Prop)

/-- There is room for a slot and for prices, and the squares of prices of a kind are in range. -/
def TameSetup : Prop := 0 < s.maxTrackedInstruments ∧ ∀ instrument, Prices.Tame F (s.limits instrument).priceWindow P

/-- All slots have prices of a kind, and some keys have a slot. -/
structure Tame (keys : List (String × String)) (e : QualityEngine V) : Prop where
  slots : ∀ kv ∈ e.slots.items, kv.2.Tame (s.limits kv.1.2).priceWindow P
  keys : e.HasSlots keys

variable {F s P}

theorem Tame.new : Tame s P [] (new : QualityEngine V) := ⟨nofun, nofun⟩

theorem onSlot_tame {α : Type} {keys : List (String × String)} {key : String × String} (hkey : key ∈ keys) {m : SlotM V α}
    (hm : Proc.Succeeds (SlotWork.Tame (s.limits key.2) P) m) : Proc.Succeeds (Tame s P keys) (onSlot key m) := by
  intro e he
  obtain ⟨sl, hget⟩ := he.keys.get? hkey
  have hslot : SlotWork.Tame (s.limits key.2) P ⟨sl, e.tally⟩ := he.slots _ (Dict.mem_of_get? hget)
  obtain ⟨⟨a, ha⟩, hafter⟩ := hm _ hslot
  refine ⟨⟨a, ?_⟩, ?_, ?_⟩
  · rw [onSlot_apply m hget]
    exact ha
  · intro kv hkv
    rw [onSlot_apply m hget] at hkv
    rcases Dict.mem_of_mem_set hkv with rfl | hold
    · exact hafter
    · exact he.slots kv hold
  · intro key' hkey'
    rw [onSlot_keys m hget]
    exact he.keys key' hkey'

theorem getSlot_tame (hs : TameSetup F s P) (ev : MarketEvent V) {e : QualityEngine V} (he : Tame s P [] e) :
    (getSlot F s (ev.source, ev.instrumentId) (s.limits ev.instrumentId).priceWindow e).1 = .ok () ∧
      Tame s P [(ev.source, ev.instrumentId)]
        (getSlot F s (ev.source, ev.instrumentId) (s.limits ev.instrumentId).priceWindow e).2 := by
  have hok : (getSlot F s (ev.source, ev.instrumentId) (s.limits ev.instrumentId).priceWindow e).1 = .ok () := by
    rcases getSlot_cases F s (ev.source, ev.instrumentId) (s.limits ev.instrumentId).priceWindow e with
      ⟨sl, hget, happly⟩ | ⟨hget, hsize, hitems, x, happly⟩ | ⟨items, happly, hget, hnew, hsuffix, hsum⟩
    · rw [happly]
    · have hroom := hs.1
      rw [Dict.size, hitems] at hsize
      exact absurd hsize (Nat.not_le.mpr hroom)
    · rw [happly]
  refine ⟨hok, ?_, ?_⟩
  · rcases getSlot_cases F s (ev.source, ev.instrumentId) (s.limits ev.instrumentId).priceWindow e with
      ⟨sl, hget, happly⟩ | ⟨hget, hsize, hitems, x, happly⟩ | ⟨items, happly, hget, hnew, hsuffix, hsum⟩
    · rw [happly]
      exact he.slots
    · rw [happly]
      exact he.slots
    · rw [happly]
      intro kv hkv
      rcases Dict.mem_of_mem_set hkv with rfl | hold
      · exact .new (hs.2 ev.instrumentId).1
      · exact he.slots kv (hsuffix.subset hold)
  · intro key hkey
    rw [List.mem_singleton.mp hkey]
    exact List.mem_map_of_mem (Dict.mem_of_get? (getSlot_get? F s e ev hok))

theorem evaluateUnsequenced_tame (hs : TameSetup F s P) {keys : List (String × String)} {h : Held V} (hev : h.event.HasPrice P)
    (hkey : (h.event.source, h.event.instrumentId) ∈ keys) :
    Proc.Succeeds (Tame s P keys) (evaluateUnsequenced F s (s.limits h.event.instrumentId) h) := by
  unfold evaluateUnsequenced
  dsimp only
  have hcomplete : ∀ ms, Proc.Succeeds (Tame s P keys) (onSlot (h.event.source, h.event.instrumentId)
      (complete F (s.limits h.event.instrumentId) s.userRules h ms)) := fun ms =>
    onSlot_tame hkey (complete_tame F _ s.userRules (hs.2 h.event.instrumentId) hev ms)
  split
  · refine .read_bind (fun e _ => ?_)
    refine .modify_bind (fun e he => ⟨he.slots, he.keys⟩) ?_
    exact .bind (hcomplete _) (fun _ => .pure _)
  · exact .bind (hcomplete _) (fun _ => .pure _)

theorem evaluate_tame (hs : TameSetup F s P) (now : V) {ev : MarketEvent V} (hev : ev.HasPrice P) :
    Proc.Succeeds (Tame s P []) (evaluate F s now ev) := by
  intro e he
  obtain ⟨hok, hslot⟩ := getSlot_tame hs ev he
  have hunmarked := checked_unmarked F (s.limits ev.instrumentId) now ev
  have hchecked := hev.of_unmarked hunmarked
  have hsource := congrArg MarketEvent.source hunmarked
  have hinstrument := congrArg MarketEvent.instrumentId hunmarked
  simp only [MarketEvent.unmarked] at hsource hinstrument
  have hkey : ((checked F (s.limits ev.instrumentId) now ev).event.source,
      (checked F (s.limits ev.instrumentId) now ev).event.instrumentId) ∈ [(ev.source, ev.instrumentId)] := by
    rw [hsource, hinstrument]
    exact List.mem_singleton_self _
  have hunsequenced := evaluateUnsequenced_tame hs hchecked hkey
  rw [hinstrument] at hunsequenced
  rw [evaluate, Proc.bind_apply]
  rcases hget : getSlot F s (ev.source, ev.instrumentId) (s.limits ev.instrumentId).priceWindow e with ⟨x | u, t⟩
  · rw [hget] at hok
    cases hok
  · rw [hget] at hslot
    dsimp only at hslot ⊢
    suffices hrest : ∀ m : QualityM V (Option (MarketEvent V)), Proc.Succeeds (Tame s P [(ev.source, ev.instrumentId)]) m →
        (∃ a, (m t).1 = .ok a) ∧ Tame s P [] (m t).2 by
      refine hrest _ ?_
      split
      · exact .modify_bind (fun e he => ⟨he.slots, he.keys⟩) (.pure _)
      · refine .modify_bind (fun e he => ⟨he.slots, he.keys⟩) ?_
        rcases ev.sequenceNumber with _ | seq
        · exact hunsequenced
        · dsimp only
          split
          · exact onSlot_tame (List.mem_singleton_self _)
              (evaluateSequenced_tame F (s.limits ev.instrumentId) s.userRules (hs.2 _) hchecked seq)
          · exact hunsequenced
    intro m hm
    obtain ⟨ha, hafter⟩ := hm t hslot
    exact ⟨ha, hafter.slots, by rintro _ ⟨⟩⟩

theorem drainSlots_tame (hs : TameSetup F s P) (now : V) (force : Bool) {all : List (String × String)} (keys : List (String × String))
    (hkeys : ∀ key ∈ keys, key ∈ all) : Proc.Succeeds (Tame s P all) (drainSlots F s now force keys) := by
  induction keys with
  | nil => exact .pure _
  | cons key keys ih =>
    rw [drainSlots]
    refine .bind (onSlot_tame (hkeys key List.mem_cons_self)
      (drainSlot_tame F (s.limits key.2) s.userRules (hs.2 _) now force)) ?_
    intro evs
    exact .bind (ih (fun key' hkey' => hkeys key' (List.mem_cons_of_mem _ hkey'))) (fun _ => .pure _)

theorem drainExpired_tame (hs : TameSetup F s P) (now : V) (force : Bool) :
    Proc.Succeeds (Tame s P []) (drainExpired F s now force) := by
  intro e he
  obtain ⟨ha, hafter⟩ := drainSlots_tame hs now force (e.slots.items.map (·.1)) (fun _ h => h) e ⟨he.slots, fun _ h => h⟩
  exact ⟨ha, hafter.slots, nofun⟩

theorem run_tame (hs : TameSetup F s P) {c : QualityCall V} (hc : ∀ ev ∈ c.passed, ev.HasPrice P) :
    Proc.Succeeds (Tame s P []) (c.run F s) := by
  cases c with
  | evaluate now ev => exact .bind (evaluate_tame hs now (hc ev List.mem_cons_self)) (fun _ => .pure _)
  | drainExpired now force => exact drainExpired_tame hs now force

end QualityEngine

end Mdrap
