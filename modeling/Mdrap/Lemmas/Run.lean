import Mdrap.IngestLog.Run
import Mdrap.Lemmas.Append

/-!
# Runs of appending calls

One call adds what it acknowledges to the items of the layout, and nothing else (`Call.run_spec`); so does a whole run
(`runCalls_spec`).
-/

namespace Mdrap

open Lib

/-- The payload of a record is one the log reads back. -/
def LogEntry.FitsLimits (limit : Int) (e : LogEntry) : Prop :=
  (recordBytes e.record).length ≤ maxFramePayloadBytes ∧ ((recordBytes e.record).length : Int) ≤ limit

instance (limit : Int) (e : LogEntry) : Decidable (e.FitsLimits limit) := inferInstanceAs (Decidable (_ ∧ _))

/-- What is the same before and after appending calls, and how the layout grew by what they acknowledged. -/
structure Grown (s : IngestLog) (L : Layout) (acks : List Item) (t : IngestLog) (L' : Layout) : Prop where
  represents : t.Represents L'
  items : L'.items = L.items ++ acks
  first : L'.first = L.first
  config : t.config = s.config
  idle : t.groupCommitFlushing = s.groupCommitFlushing

theorem Grown.trans {s t u : IngestLog} {L L' L'' : Layout} {acks acks' : List Item} (h : Grown s L acks t L')
    (h' : Grown t L' acks' u L'') : Grown s L (acks ++ acks') u L'' :=
  ⟨h'.represents, by rw [h'.items, h.items, List.append_assoc], h'.first.trans h.first, h'.config.trans h.config,
    h'.idle.trans h.idle⟩

/-- A log that is ready behind new records has them in their places. -/
theorem itemsFrom_of_ready {s : IngestLog} {L : Layout} {es : List LogEntry} {hes : ∀ f ∈ framesFrom L.next es, f.Fits}
    (h : s.Ready (L.extend es hes)) :
    (L.extend es hes).items = L.items ++ itemsFrom s.currentSegmentStartOffset L.next
      (s.currentSegmentBytes - (es.map LogEntry.size).sum) es := by
  have hbytes : s.currentSegmentBytes - (es.map LogEntry.size).sum = L.active.bytes.length := by
    rw [h.bytes]
    show (L.active.extend es).bytes.length - entriesSize es = L.active.bytes.length
    rw [Segment.length_bytes, Segment.length_bytes, Segment.extend, entriesSize_append]
    omega
  have hstart : s.currentSegmentStartOffset = L.active.start := h.start
  rw [hbytes, hstart, L.items_extend es hes]

/-- What the log is after one call, and how its segments go on. -/
theorem Call.run_grown (call : Call) {s : IngestLog} {L : Layout} (h : s.Represents L)
    (hidle : s.groupCommitFlushing = false) (henv : call.env.Recoverable) :
    ∃ L', Grown s L (call.run s).1 (call.run s).2 L' ∧ L.Continues L' ∧
      ∀ limit, L.Within limit → (∀ e ∈ call.entries, e.FitsLimits limit) → L'.Within limit := by
  cases call with
  | append raw env =>
    obtain ⟨hcfg, hfl, L0, hrot, hcase⟩ := IngestLog.append_spec h hidle (show env.Recoverable from henv) raw
    rw [Call.run]
    split
    · rename_i t heq
      rw [heq] at hcfg hfl hcase
      rcases hcase with ⟨_, _, hrep⟩ | ⟨_, hok, _⟩
      · exact ⟨L0, ⟨hrep, by rw [hrot.items, List.append_nil], hrot.first, hcfg, hfl⟩, hrot.continues,
          fun limit hw _ => hrot.within hw⟩
      · cases hok
    · rename_i offset t heq
      rw [heq] at hcfg hfl hcase
      rcases hcase with ⟨_, herr, _⟩ | ⟨hes, hok, hready⟩
      · cases herr
      · simp only [Except.ok.injEq] at hok hready
        subst hok
        refine ⟨_, ⟨hready.represents, ?_, hrot.first, hcfg, hfl⟩, hrot.continues.trans (L0.continues_extend _ hes),
          fun limit hw hfit => Layout.within_extend (hrot.within hw) hes hfit⟩
        rw [← hrot.next, ← hrot.items]
        exact itemsFrom_of_ready hready
  | appendBatch raws env =>
    obtain ⟨hcfg, hfl, L0, hrot, hcase⟩ := IngestLog.appendBatch_spec h (show env.Recoverable from henv) raws
    rw [Call.run]
    rcases hcase with ⟨err, herr, hrep⟩ | ⟨_, hok, heq⟩ | ⟨hes, hok, hready⟩
    · rcases hr : s.appendBatch raws env with ⟨res, t⟩
      rw [hr] at herr hrep hcfg hfl
      simp only at herr hrep hcfg hfl
      subst herr
      exact ⟨L0, ⟨hrep, by rw [hrot.items, List.append_nil], hrot.first, hcfg, hfl⟩, hrot.continues,
        fun limit hw _ => hrot.within hw⟩
    · rcases hr : s.appendBatch raws env with ⟨res, t⟩
      rw [hr] at hok heq
      simp only at hok heq
      subst hok heq
      exact ⟨L, ⟨h, by rw [List.append_nil], rfl, rfl, rfl⟩, .refl L, fun limit hw _ => hw⟩
    · rcases hr : s.appendBatch raws env with ⟨res, t⟩
      rw [hr] at hok hready hcfg hfl
      simp only at hok hready hcfg hfl
      subst hok
      have hgrown : ∀ limit, L.Within limit → (∀ e ∈ (Call.appendBatch raws env).entries, e.FitsLimits limit) →
          (L0.extend (IngestLog.batchEntries raws env) hes).Within limit := fun limit hw hfit =>
        Layout.within_extend (hrot.within hw) hes hfit
      have hgoes := hrot.continues.trans (L0.continues_extend _ hes)
      have hitems := itemsFrom_of_ready hready
      rw [hrot.next, hrot.items] at hitems
      cases hbatch : IngestLog.batchEntries raws env with
      | nil =>
        refine ⟨_, ⟨hready.represents, ?_, hrot.first, hcfg, hfl⟩, hgoes, hgrown⟩
        rw [hitems, hbatch]
        rfl
      | cons e es =>
        refine ⟨_, ⟨hready.represents, ?_, hrot.first, hcfg, hfl⟩, hgoes, hgrown⟩
        rw [hitems]
        rfl

/-- What the log is after one call. -/
theorem Call.run_spec (call : Call) {s : IngestLog} {L : Layout} (h : s.Represents L)
    (hidle : s.groupCommitFlushing = false) (henv : call.env.Recoverable) :
    ∃ L', Grown s L (call.run s).1 (call.run s).2 L' ∧
      ∀ limit, L.Within limit → (∀ e ∈ call.entries, e.FitsLimits limit) → L'.Within limit := by
  obtain ⟨L', hgrown, -, hwithin⟩ := call.run_grown h hidle henv
  exact ⟨L', hgrown, hwithin⟩

/-- What the log is after a run. -/
theorem runCalls_spec (calls : List Call) {s : IngestLog} {L : Layout} (h : s.Represents L)
    (hidle : s.groupCommitFlushing = false) (henv : ∀ call ∈ calls, call.env.Recoverable) :
    ∃ L', Grown s L (runCalls calls s).1 (runCalls calls s).2 L' ∧
      ∀ limit, L.Within limit → (∀ call ∈ calls, ∀ e ∈ call.entries, e.FitsLimits limit) → L'.Within limit := by
  induction calls generalizing s L with
  | nil => exact ⟨L, ⟨h, by simp [runCalls], rfl, rfl, rfl⟩, fun limit hw _ => hw⟩
  | cons call calls ih =>
    obtain ⟨L1, hg, hw1⟩ := call.run_spec h hidle (henv call List.mem_cons_self)
    rw [runCalls]
    rcases hr : call.run s with ⟨acks, t⟩
    rw [hr] at hg
    obtain ⟨L2, hg2, hw2⟩ := ih hg.represents (hg.idle.trans hidle) (fun c hc => henv c (List.mem_cons_of_mem _ hc))
    simp only
    exact ⟨L2, hg.trans hg2, fun limit hw hfit => hw2 limit (hw1 limit hw (hfit call List.mem_cons_self))
      (fun c hc => hfit c (List.mem_cons_of_mem _ hc))⟩

@[simp] theorem map_entry_itemsFrom (g offset pos : Nat) (es : List LogEntry) :
    (itemsFrom g offset pos es).map Item.entry = es := by
  induction es generalizing offset pos with
  | nil => rfl
  | cons e es ih => simp [itemsFrom, ih]

/-- A call acknowledges all of its records or none. -/
theorem Call.run_entries (call : Call) (s : IngestLog) :
    (call.run s).1 = [] ∨ (call.run s).1.map Item.entry = call.entries := by
  cases call with
  | append raw env =>
    rw [Call.run]
    split
    · exact Or.inl rfl
    · exact Or.inr (map_entry_itemsFrom _ _ _ _)
  | appendBatch raws env =>
    rw [Call.run]
    split
    · exact Or.inl rfl
    · exact Or.inl rfl
    · exact Or.inr (map_entry_itemsFrom _ _ _ _)

/-- A run acknowledges at most the records of its calls, and as many only if it acknowledges all of them. -/
theorem runCalls_entries (calls : List Call) (s : IngestLog) :
    (runCalls calls s).1.length ≤ (calls.flatMap Call.entries).length ∧
    ((runCalls calls s).1.length = (calls.flatMap Call.entries).length →
      (runCalls calls s).1.map Item.entry = calls.flatMap Call.entries) := by
  induction calls generalizing s with
  | nil => exact ⟨Nat.le_refl _, fun _ => rfl⟩
  | cons call calls ih =>
    rw [runCalls]
    have hcall := call.run_entries s
    rcases hr : call.run s with ⟨acks, t⟩
    rw [hr] at hcall
    obtain ⟨hle, hall⟩ := ih t
    simp only [List.length_append, List.flatMap_cons, List.map_append] at hcall ⊢
    rcases hcall with rfl | hcall
    · rw [List.length_nil, Nat.zero_add]
      refine ⟨by omega, ?_⟩
      intro hlen
      have hnil : call.entries = [] := List.length_eq_zero_iff.mp (by omega)
      rw [hall (by omega), hnil]
      rfl
    · have hlen' := congrArg List.length hcall
      rw [List.length_map] at hlen'
      refine ⟨by omega, ?_⟩
      intro hlen
      rw [hcall, hall (by omega)]

/-! ## Evaluating a run -/

/-- What is computed from the value of a call that succeeds. -/
theorem eq_of_map_ok {ε α β : Type} {x : Except ε α} {a : α} (h : x = .ok a) {f : α → β} {b : β} (hf : x.map f = .ok b) :
    f a = b := by
  subst h
  exact Except.ok.inj hf

/-- An error that is left when the value is forgotten. -/
theorem error_of_map {ε α : Type} {x : Except ε α} {e : ε} (h : x.map (fun _ => ()) = .error e) : x = .error e := by
  cases x with
  | error e' =>
    cases h
    rfl
  | ok a => cases h

end Mdrap
