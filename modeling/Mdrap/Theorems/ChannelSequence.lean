import Mathlib.Data.Finset.Card
import Mathlib.Tactic.Linarith
import Mdrap.Partition.Sequencer

/-!
# Duplicates and missing numbers of a channel

The sequencer takes a number a little below the last one for a duplicate, though it may come for the first time, and does not take a
missing number from its count when it comes. Where no number comes late, its verdicts and its count are those of the history.
-/

namespace Mdrap

open Lib

namespace ChannelIngressSequencer

/-- The sequencer follows a number of a session. -/
def Follows (s : ChannelIngressSequencer) (key : String × Int) : Prop :=
  s.currentSessionId = some key.1 ∧ s.lastSequence = some key.2 ∧ s.expectedSequence = some (key.2 + 1)

theorem Follows.unique {s : ChannelIngressSequencer} {key key' : String × Int} (h : s.Follows key) (h' : s.Follows key') : key = key' :=
  Prod.ext (Option.some.inj (h.1.symm.trans h'.1)) (Option.some.inj (h.2.1.symm.trans h'.2.1))

/-- Nothing was received yet. -/
def Fresh (s : ChannelIngressSequencer) : Prop := s.currentSessionId = none ∧ s.expectedSequence = none

/-- What became of a number. -/
inductive Outcome (s s' : ChannelIngressSequencer) (reason : Option Reason) (key : String × Int) : Prop where
  | anchored (hfree : ∀ last, s.Follows (key.1, last) → key.2 = last + 1) (hreason : reason = none) (hfollows : s'.Follows key)
      (hcount : s'.missingEventsCount = s.missingEventsCount)
  | repeated (hlast : s.Follows key) (hreason : reason = some .duplicate) (hfollows : s'.Follows key)
      (hcount : s'.missingEventsCount = s.missingEventsCount)
  | late (last : Int) (hlast : s.Follows (key.1, last)) (hlate : key.2 < last)
      (hreason : reason = if last - key.2 < 100 then some .duplicate else some .outOfOrder) (hfollows : s'.Follows (key.1, last))
      (hcount : s'.missingEventsCount = s.missingEventsCount)
  | gap (last : Int) (hlast : s.Follows (key.1, last)) (hgap : last + 1 < key.2) (hreason : reason = some .sequenceGap)
      (hfollows : s'.Follows key) (hcount : s'.missingEventsCount = s.missingEventsCount + (key.2 - (last + 1)))

theorem verifySequence_none {s : ChannelIngressSequencer} {e : ChannelEvent} (h : e.seq = none) :
    s.verifySequence e = (⟨.valid, none, none⟩, { s with totalReceived := s.totalReceived + 1 }) := by
  simp [verifySequence, h]

section

variable {s : ChannelIngressSequencer} {e : ChannelEvent} {sess : String} {n last : Int}

/-- A number of another session, or the first one. -/
theorem verifySequence_new (h : e.seq = some n) (hs : ∀ last, ¬s.Follows (e.session, last)) (hany : s.Fresh ∨ ∃ key, s.Follows key) :
    (s.verifySequence e).1.reason = none ∧ (s.verifySequence e).2.Follows (e.session, n) ∧
      (s.verifySequence e).2.missingEventsCount = s.missingEventsCount := by
  rcases hany with ⟨hsession, hexpected⟩ | ⟨⟨sess, last⟩, hsession, hlast, hexpected⟩
  · simp [verifySequence, h, hsession, hexpected, inOrder, anchor, Follows]
  · have hother : sess ≠ e.session := by
      rintro rfl
      exact hs last ⟨hsession, hlast, hexpected⟩
    simp [verifySequence, h, hsession, hother, inOrder, anchor, Follows]

/-- The next number. -/
theorem verifySequence_next (h : e.seq = some (last + 1)) (hs : s.Follows (e.session, last)) :
    (s.verifySequence e).1.reason = none ∧ (s.verifySequence e).2.Follows (e.session, last + 1) ∧
      (s.verifySequence e).2.missingEventsCount = s.missingEventsCount := by
  obtain ⟨hsession, hlast, hexpected⟩ := hs
  simp [verifySequence, h, hsession, hexpected, inOrder, anchor, Follows]

/-- The last number once more. -/
theorem verifySequence_same (h : e.seq = some last) (hs : s.Follows (e.session, last)) :
    (s.verifySequence e).1.reason = some .duplicate ∧ (s.verifySequence e).2.Follows (e.session, last) ∧
      (s.verifySequence e).2.missingEventsCount = s.missingEventsCount := by
  obtain ⟨hsession, hlast, hexpected⟩ := hs
  have hnext : last ≠ last + 1 := by omega
  simp [verifySequence, h, hsession, hlast, hexpected, hnext, Follows]

/-- A number below the last one. -/
theorem verifySequence_late (h : e.seq = some n) (hs : s.Follows (e.session, last)) (hlate : n < last) :
    (s.verifySequence e).1.reason = (if last - n < 100 then some .duplicate else some .outOfOrder) ∧
      (s.verifySequence e).2.Follows (e.session, last) ∧ (s.verifySequence e).2.missingEventsCount = s.missingEventsCount := by
  obtain ⟨hsession, hlast, hexpected⟩ := hs
  have hnext : n ≠ last + 1 := by omega
  have hsame : n ≠ last := by omega
  have hbelow : n < last + 1 := by omega
  by_cases hnear : last - n < 100
  · simp [verifySequence, h, hsession, hlast, hexpected, hnext, hsame, hbelow, hnear, Follows]
  · simp [verifySequence, h, hsession, hlast, hexpected, hnext, hsame, hbelow, hnear, Follows]

/-- A number beyond the next one. -/
theorem verifySequence_beyond (h : e.seq = some n) (hs : s.Follows (e.session, last)) (hgap : last + 1 < n) :
    (s.verifySequence e).1.reason = some .sequenceGap ∧ (s.verifySequence e).2.Follows (e.session, n) ∧
      (s.verifySequence e).2.missingEventsCount = s.missingEventsCount + (n - (last + 1)) := by
  obtain ⟨hsession, hlast, hexpected⟩ := hs
  have hnext : n ≠ last + 1 := by omega
  have hsame : n ≠ last := by omega
  have hbelow : ¬n < last + 1 := by omega
  simp [verifySequence, h, hsession, hlast, hexpected, hnext, hsame, hbelow, anchor, Follows]

/-- The cases of `verify_sequence`. -/
theorem verifySequence_outcome (h : e.seq = some n) (hs : s.Fresh ∨ ∃ key, s.Follows key) :
    Outcome s (s.verifySequence e).2 (s.verifySequence e).1.reason (e.session, n) := by
  by_cases hin : ∃ last, s.Follows (e.session, last)
  · obtain ⟨last, hlast⟩ := hin
    rcases Int.lt_trichotomy n last with hlate | rfl | hmore
    · obtain ⟨hreason, hfollows, hcount⟩ := verifySequence_late h hlast hlate
      exact .late last hlast hlate hreason hfollows hcount
    · obtain ⟨hreason, hfollows, hcount⟩ := verifySequence_same h hlast
      exact .repeated hlast hreason hfollows hcount
    · by_cases hnext : n = last + 1
      · subst hnext
        obtain ⟨hreason, hfollows, hcount⟩ := verifySequence_next h hlast
        refine .anchored ?_ hreason hfollows hcount
        intro last' hlast'
        have hsame : some last = some last' := hlast.2.1.symm.trans hlast'.2.1
        rw [Option.some.inj hsame]
      · obtain ⟨hreason, hfollows, hcount⟩ := verifySequence_beyond h hlast (by omega)
        exact .gap last hlast (by omega) hreason hfollows hcount
  · have hnot : ∀ last, ¬s.Follows (e.session, last) := fun last hlast => hin ⟨last, hlast⟩
    obtain ⟨hreason, hfollows, hcount⟩ := verifySequence_new h hnot hs
    exact .anchored (fun last hlast => absurd hlast (hnot last)) hreason hfollows hcount

end

end ChannelIngressSequencer

namespace ChannelRun

variable {r : ChannelRun} {e : ChannelEvent}

/-! ## Steps -/

/-- Nothing was received, or the number that the sequencer follows was. -/
def Anchored (r : ChannelRun) : Prop := r.sequencer.Fresh ∨ ∃ key, r.sequencer.Follows key ∧ key ∈ r.received

/-- The number of the event is not missing; one that comes in the session of the last one and less than a hundred below it was received
before; and the numbers between the next one and it were neither received nor skipped before. -/
def Timely (r : ChannelRun) (e : ChannelEvent) : Prop :=
  ∀ key, e.key = some key → key ∉ r.missing ∧
    ∀ last, r.sequencer.Follows (key.1, last) →
      (key.2 < last → last - key.2 < 100 → key ∈ r.received) ∧
        ∀ n, last < n → n < key.2 → (key.1, n) ∉ r.received ∧ (key.1, n) ∉ r.skipped

theorem step_of_none (h : e.seq = none) :
    r.step e = { r with sequencer := { r.sequencer with totalReceived := r.sequencer.totalReceived + 1 } } := by
  simp [step, ChannelEvent.key, h, ChannelIngressSequencer.verifySequence_none h]

theorem step_of_some {n : Int} (h : e.seq = some n) :
    r.step e =
      { sequencer := (r.sequencer.verifySequence e).2
        received := insert (e.session, n) r.received
        skipped :=
          if (r.sequencer.verifySequence e).1.reason = some .sequenceGap then
            r.skipped ∪ numbersBefore r.sequencer.expectedSequence (e.session, n)
          else r.skipped
        wrongDuplicates :=
          if (r.sequencer.verifySequence e).1.reason = some .duplicate ∧ (e.session, n) ∉ r.received then
            r.wrongDuplicates ++ [(e.session, n)]
          else r.wrongDuplicates } := by
  simp only [step, ChannelEvent.key, h, Option.map_some]

theorem anchored_step (h : r.Anchored) (e : ChannelEvent) : (r.step e).Anchored := by
  rcases hseq : e.seq with _ | n
  · rw [step_of_none hseq]
    exact h
  · rw [step_of_some hseq]
    rcases ChannelIngressSequencer.verifySequence_outcome hseq (h.imp_right (fun ⟨key, hkey, _⟩ => ⟨key, hkey⟩)) with
      ⟨-, -, hfollows, -⟩ | ⟨-, -, hfollows, -⟩ | ⟨last, hlast, -, -, hfollows, -⟩ | ⟨last, -, -, -, hfollows, -⟩
    · exact .inr ⟨_, hfollows, Finset.mem_insert_self ..⟩
    · exact .inr ⟨_, hfollows, Finset.mem_insert_self ..⟩
    · refine .inr ⟨_, hfollows, Finset.mem_insert_of_mem ?_⟩
      rcases h with hfresh | ⟨key, hkey, hin⟩
      · exact absurd (hfresh.1.symm.trans hlast.1) (by simp)
      · rwa [hlast.unique hkey]
    · exact .inr ⟨_, hfollows, Finset.mem_insert_self ..⟩

/-! ## What is missing -/

/-- Numbers that were missing stay so, but for the one that came. -/
theorem missing_insert (key : String × Int) (skipped received : Finset (String × Int)) :
    skipped \ insert key received = (skipped \ received).erase key := by
  ext x
  simp only [Finset.mem_sdiff, Finset.mem_insert, Finset.mem_erase]
  tauto

theorem card_numbersBefore (n : Int) (key : String × Int) : (numbersBefore (some n) key).card = (key.2 - n).toNat := by
  rw [numbersBefore, Finset.card_image_of_injective _ (fun a b h => (Prod.mk.inj h).2), Int.card_Ico]

theorem mem_numbersBefore {n : Int} {key x : String × Int} : x ∈ numbersBefore (some n) key ↔ x.1 = key.1 ∧ n ≤ x.2 ∧ x.2 < key.2 := by
  obtain ⟨sess, k⟩ := x
  simp only [numbersBefore, Finset.mem_image, Finset.mem_Ico, Prod.mk.injEq]
  constructor
  · rintro ⟨m, hm, rfl, rfl⟩
    exact ⟨rfl, hm⟩
  · rintro ⟨rfl, hm⟩
    exact ⟨k, hm, rfl, rfl⟩

/-- The numbers that a gap skips are missing from then on, if they are new. -/
theorem card_missing_union {key : String × Int} {skipped received new : Finset (String × Int)} (hkey : key ∉ new) :
    ((skipped ∪ new) \ insert key received).card = (skipped \ received).card + new.card ↔
      key ∉ skipped \ received ∧ Disjoint new (received ∪ skipped) := by
  have hsplit : (skipped ∪ new) \ insert key received = (skipped \ received).erase key ∪ (new \ (received ∪ skipped)) := by
    ext x
    simp only [Finset.mem_sdiff, Finset.mem_union, Finset.mem_insert, Finset.mem_erase]
    by_cases hx : x = key
    · subst hx
      simp [hkey]
    · tauto
  have hdisjoint : Disjoint ((skipped \ received).erase key) (new \ (received ∪ skipped)) := by
    rw [Finset.disjoint_left]
    intro x hx
    simp only [Finset.mem_sdiff, Finset.mem_union, Finset.mem_erase] at hx ⊢
    tauto
  have hold := Finset.card_erase_le (s := skipped \ received) (a := key)
  have hnew := Finset.card_le_card (Finset.sdiff_subset (s := new) (t := received ∪ skipped))
  rw [hsplit, Finset.card_union_of_disjoint hdisjoint]
  constructor
  · intro h
    constructor
    · intro hmem
      have := Finset.card_erase_lt_of_mem hmem
      omega
    · have hall : new \ (received ∪ skipped) = new := Finset.eq_of_subset_of_card_le Finset.sdiff_subset (by omega)
      exact Finset.sdiff_eq_self_iff_disjoint.mp hall
  · rintro ⟨hmem, hdis⟩
    rw [Finset.erase_eq_of_notMem hmem, Finset.sdiff_eq_self_of_disjoint hdis]

/-- A step keeps a truthful run truthful exactly where its event is timely. -/
theorem truthful_step (ha : r.Anchored) (h : r.Truthful) (e : ChannelEvent) : (r.step e).Truthful ↔ r.Timely e := by
  obtain ⟨hwrong, hcountNow⟩ := h
  rcases hseq : e.seq with _ | n
  · rw [step_of_none hseq]
    refine iff_of_true ⟨hwrong, hcountNow⟩ ?_
    intro key hkey
    simp [ChannelEvent.key, hseq] at hkey
  have htimely : r.Timely e ↔ (e.session, n) ∉ r.missing ∧
      ∀ last, r.sequencer.Follows (e.session, last) →
        (n < last → last - n < 100 → (e.session, n) ∈ r.received) ∧
          ∀ k, last < k → k < n → (e.session, k) ∉ r.received ∧ (e.session, k) ∉ r.skipped := by
    simp [Timely, ChannelEvent.key, hseq]
  have hkept : (r.sequencer.missingEventsCount = ((r.skipped \ insert (e.session, n) r.received).card : Int)) ↔
      (e.session, n) ∉ r.missing := by
    rw [hcountNow, missing_insert, missing, Nat.cast_inj]
    constructor
    · intro hcard hmem
      have := Finset.card_erase_lt_of_mem hmem
      omega
    · intro hmem
      rw [Finset.erase_eq_of_notMem hmem]
  rw [step_of_some hseq, htimely, Truthful, missing]
  rcases ChannelIngressSequencer.verifySequence_outcome hseq (ha.imp_right (fun ⟨key, hkey, _⟩ => ⟨key, hkey⟩)) with
    ⟨hnext, hreason, -, hcount⟩ | ⟨hlast, hreason, -, hcount⟩ | ⟨last, hlast, hlate, hreason, -, hcount⟩ |
      ⟨last, hlast, hgap, hreason, -, hcount⟩
  · simp only [hreason, hcount, reduceCtorEq, false_and, if_false, hkept]
    constructor
    · rintro ⟨-, hmem⟩
      refine ⟨hmem, fun last hlast => ⟨fun hlt => ?_, fun k hk hkn => ?_⟩⟩
      · have := hnext last hlast
        dsimp only at this
        omega
      · have := hnext last hlast
        dsimp only at this
        omega
    · exact fun hall => ⟨hwrong, hall.1⟩
  · have hin : (e.session, n) ∈ r.received := by
      rcases ha with hfresh | ⟨key, hkey, hin⟩
      · exact absurd (hfresh.1.symm.trans hlast.1) (by simp)
      · rwa [hlast.unique hkey]
    simp only [hreason, hcount, hin, not_true_eq_false, and_false, if_false, hkept, Option.some.injEq, reduceCtorEq]
    constructor
    · rintro ⟨-, hmem⟩
      refine ⟨hmem, fun last hlast' => ⟨fun _ _ => trivial, fun k hk hkn => ?_⟩⟩
      have hsame : n = last := congrArg Prod.snd (hlast.unique hlast')
      omega
    · exact fun hall => ⟨hwrong, hall.1⟩
  · have hnear : ∀ P : Prop, ((if last - n < 100 then some Reason.duplicate else some Reason.outOfOrder) = some .duplicate ∧ P) ↔
        last - n < 100 ∧ P := by
      intro P
      split <;> simp_all
    have hnogap : (if last - n < 100 then some Reason.duplicate else some Reason.outOfOrder) ≠ some .sequenceGap := by
      split <;> simp
    have hall : (∀ last', r.sequencer.Follows (e.session, last') →
        (n < last' → last' - n < 100 → (e.session, n) ∈ r.received) ∧
          ∀ k, last' < k → k < n → (e.session, k) ∉ r.received ∧ (e.session, k) ∉ r.skipped) ↔
        (last - n < 100 → (e.session, n) ∈ r.received) := by
      constructor
      · exact fun hall => (hall last hlast).1 hlate
      · intro hreceived last' hlast'
        obtain rfl : last = last' := congrArg Prod.snd (hlast.unique hlast')
        dsimp only at hlate
        exact ⟨fun _ => hreceived, fun k hk hkn => by omega⟩
    simp only [hreason, hcount, hnear, if_neg hnogap, hkept, hall]
    by_cases hfalse : last - n < 100 ∧ (e.session, n) ∉ r.received
    · simp [hfalse, hwrong]
    · rw [if_neg hfalse, not_and_not_right] at *
      exact ⟨fun h => ⟨h.2, hfalse⟩, fun h => ⟨hwrong, h.1⟩⟩
  · have hexpected : r.sequencer.expectedSequence = some (last + 1) := hlast.2.2
    have hkey : (e.session, n) ∉ numbersBefore (some (last + 1)) (e.session, n) := by simp [mem_numbersBefore]
    have hsize : (numbersBefore (some (last + 1)) (e.session, n)).card = (n - (last + 1)).toNat := card_numbersBefore _ _
    have hcard := @card_missing_union _ r.skipped r.received _ hkey
    have hall : Disjoint (numbersBefore (some (last + 1)) (e.session, n)) (r.received ∪ r.skipped) ↔
        ∀ last', r.sequencer.Follows (e.session, last') →
          (n < last' → last' - n < 100 → (e.session, n) ∈ r.received) ∧
            ∀ k, last' < k → k < n → (e.session, k) ∉ r.received ∧ (e.session, k) ∉ r.skipped := by
      rw [Finset.disjoint_left]
      constructor
      · intro hdis last' hlast'
        obtain rfl : last = last' := congrArg Prod.snd (hlast.unique hlast')
        dsimp only at hgap
        refine ⟨fun hlt => by omega, fun k hk hkn => ?_⟩
        have hskipped : (e.session, k) ∈ numbersBefore (some (last + 1)) (e.session, n) := mem_numbersBefore.mpr ⟨rfl, hk, hkn⟩
        have hnot := hdis hskipped
        rwa [Finset.mem_union, not_or] at hnot
      · intro hnew x hx
        obtain ⟨sess, k⟩ := x
        obtain ⟨hsess, hlo, hhi⟩ := mem_numbersBefore.mp hx
        dsimp only at hsess hlo hhi
        subst hsess
        rw [Finset.mem_union, not_or]
        exact (hnew last hlast).2 k (by omega) hhi
    simp only [hreason, hcount, Option.some.injEq, reduceCtorEq, false_and, if_false, if_true, hexpected, hwrong, true_and, ← hall]
    rw [missing, ← hcard, hcountNow, hsize, missing]
    dsimp only at hgap ⊢
    omega

theorem anchored_start (channelId : String) (hasGapManager : Bool) : (start channelId hasGapManager).Anchored := .inl ⟨rfl, rfl⟩

theorem truthful_start (channelId : String) (hasGapManager : Bool) : (start channelId hasGapManager).Truthful := ⟨rfl, rfl⟩

/-- The verdicts and the count are those of the history all through a run exactly where every event is timely. -/
theorem truthful_iff_timely (channelId : String) (hasGapManager : Bool) (es : List ChannelEvent) :
    (∀ fs, fs <+: es → (runFrom step (start channelId hasGapManager) fs).Truthful) ↔
      Along step Timely (start channelId hasGapManager) es :=
  Along.iff_prefixes (J := Anchored) (fun _ e ha _ => anchored_step ha e) (fun _ e ha h => truthful_step ha h e)
    (anchored_start channelId hasGapManager) (truthful_start channelId hasGapManager) es

/-- An event with a number in its payload. -/
def numbered (n : Int) : ChannelEvent := ⟨none, none, some "FEED", none, none, some ⟨some n, none, some "AAPL", none⟩⟩

/-- The third number comes for the first time after the fourth. -/
theorem late_not_truthful : ¬(runFrom step (start "CH1" false) [numbered 1, numbered 4, numbered 3]).Truthful := by
  unfold Truthful
  decide

end ChannelRun

end Mdrap
