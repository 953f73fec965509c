import Mdrap.Lib.Probing
import Mdrap.Lib.Runs
import Mdrap.Native.Engine

/-!
# The native tables of keys are two sets

For the events without a number both engines keep two generations of keys. In C each of them is a table that is probed for a bounded
number of places. As long as no key had to go in the place of another one, the tables answer as the sets do.
-/

namespace Mdrap

open Lib

/-! ## The sets -/

/-- `_UnseqDedup`, over any keys. -/
structure KeyDedup (κ : Type) where
  active : List κ
  older : List κ
  count : Nat
  maxEntries : Int

namespace KeyDedup

variable {κ : Type} [DecidableEq κ]

def new (cacheSize : Int) : KeyDedup κ := ⟨[], [], 0, max 100 (cacheSize / 2)⟩

/-- `check_and_insert`. -/
def checkAndInsert (key : κ) (t : KeyDedup κ) : Bool × KeyDedup κ :=
  let hit := decide (key ∈ t.older) || decide (key ∈ t.active)
  if key ∈ t.active then (hit, t)
  else if ((t.count + 1 : Nat) : Int) ≥ t.maxEntries then (hit, { t with active := [], older := key :: t.active, count := 0 })
  else (hit, { t with active := key :: t.active, count := t.count + 1 })

/-- A call answers whether one of the sets has its key. -/
theorem checkAndInsert_fst (key : κ) (t : KeyDedup κ) :
    (t.checkAndInsert key).1 = true ↔ key ∈ t.active ∨ key ∈ t.older := by
  unfold checkAndInsert
  dsimp only
  split
  · rename_i hmem
    simp [hmem]
  · split
    · simp [or_comm]
    · simp [or_comm]

end KeyDedup

/-! ## The tables -/

namespace DedupTables

/-- The key that is stored for a key: zero marks a vacant place. -/
def stored (key : UInt64) : UInt64 := if key = 0 then 1 else key

theorem stored_ne_zero (key : UInt64) : stored key ≠ 0 := by
  unfold stored
  split
  · decide
  · assumption

/-- The places of a key. -/
def place (key : UInt64) (i : Nat) : Nat := (key.toNat % DEDUP_GEN_SLOTS + i) % DEDUP_GEN_SLOTS

theorem probe_eq (table : Nat → UInt64) (key : UInt64) : probe table key = Lib.probe 0 place DEDUP_MAX_PROBE table key := rfl

/-- A call adds its key to the table in use, if it is not there. -/
def adds (key : UInt64) (d : DedupTables) : Bool :=
  match probe (d.keys d.active) (stored key) with
  | some (true, _) => false
  | _ => true

/-- A call, and a log of the keys that were added, each with the number of rotations before it. A rotation wipes the table that was
not in use: what was added two rotations ago or longer is gone. -/
def logged (s : DedupTables × List (UInt64 × Nat)) (key : UInt64) : DedupTables × List (UInt64 × Nat) :=
  ((s.1.checkInsert key).2, if s.1.adds key then s.2 ++ [(stored key, s.1.rotations)] else s.2)

/-- The tables have the keys of two sets. -/
structure Refines (d : DedupTables) (t : KeyDedup UInt64) : Prop where
  active : Probed 0 place DEDUP_MAX_PROBE (d.keys d.active) { k | k ∈ t.active }
  older : Probed 0 place DEDUP_MAX_PROBE (d.keys !d.active) { k | k ∈ t.older }
  count : d.count = t.count
  most : t.maxEntries = DEDUP_GEN_MAX

theorem Refines.zeroed : Refines .zeroed (.new (2 * DEDUP_GEN_MAX : Nat)) := by
  have hempty : { k : UInt64 | k ∈ ([] : List UInt64) } = ∅ := Set.eq_empty_of_forall_notMem (fun _ h => nomatch h)
  exact ⟨hempty ▸ .empty 0 place _, hempty ▸ .empty 0 place _, rfl, by decide⟩

variable {d : DedupTables} {t : KeyDedup UInt64} {key : UInt64}

theorem Refines.probe_active_iff (h : Refines d t) (key : UInt64) :
    (∃ a, probe (d.keys d.active) (stored key) = some (true, a)) ↔ stored key ∈ t.active := h.active.probe_iff (stored_ne_zero key)

/-- The other table has the key. -/
def hit (key : UInt64) (d : DedupTables) : Bool := ((probe (d.keys !d.active) (stored key)).map (·.1)).getD false

/-- What a call does: nothing where the table in use has the key; else the key goes to a vacant place of it, or in the place of another
one. -/
theorem checkInsert_cases (key : UInt64) (d : DedupTables) :
    (∃ a, probe (d.keys d.active) (stored key) = some (true, a) ∧ d.adds key = false ∧ d.checkInsert key = (true, d)) ∨
    (∃ a, probe (d.keys d.active) (stored key) = some (false, a) ∧ d.adds key = true ∧
      d.checkInsert key = (d.hit key, d.insert (stored key) a 0)) ∨
    (probe (d.keys d.active) (stored key) = none ∧ (d.checkInsert key).1 = d.hit key ∧
      (d.checkInsert key).2.evictions = d.evictions + 1) := by
  unfold checkInsert adds hit
  rw [← stored]
  dsimp only
  rcases hprobe : probe (d.keys d.active) (stored key) with _ | ⟨_ | _, a⟩
  · refine .inr (.inr ⟨rfl, rfl, ?_⟩)
    simp only [insert]
    split
    · rfl
    · rfl
  · exact .inr (.inl ⟨a, rfl, rfl, rfl⟩)
  · exact .inl ⟨a, rfl, rfl, rfl⟩

theorem evictions_le (key : UInt64) (d : DedupTables) : d.evictions ≤ (d.checkInsert key).2.evictions := by
  rcases checkInsert_cases key d with ⟨a, -, -, heq⟩ | ⟨a, -, -, heq⟩ | ⟨-, -, hevict⟩
  · rw [heq]
  · rw [heq]
    unfold insert
    dsimp only
    split
    · exact Nat.le_refl _
    · exact Nat.le_refl _
  · omega

theorem Refines.hit_iff (h : Refines d t) (key : UInt64) : d.hit key = true ↔ stored key ∈ t.older := by
  have hiff : (∃ a, probe (d.keys !d.active) (stored key) = some (true, a)) ↔ stored key ∈ t.older :=
    h.older.probe_iff (stored_ne_zero key)
  rw [← hiff, hit]
  rcases probe (d.keys !d.active) (stored key) with _ | ⟨_ | _, a⟩
  · simp
  · simp
  · simp

/-- A call answers whether one of the sets has its key. -/
theorem Refines.answer_iff (h : Refines d t) (key : UInt64) :
    (d.checkInsert key).1 = true ↔ stored key ∈ t.active ∨ stored key ∈ t.older := by
  rcases checkInsert_cases key d with ⟨a, hprobe, -, heq⟩ | ⟨a, hprobe, -, heq⟩ | ⟨hprobe, heq, -⟩
  · rw [heq]
    exact ⟨fun _ => .inl ((h.probe_active_iff key).mp ⟨a, hprobe⟩), fun _ => rfl⟩
  all_goals
    have hmem : stored key ∉ t.active := by
      rw [← h.probe_active_iff key, hprobe]
      rintro ⟨b, hb⟩
      cases hb
    rw [heq, h.hit_iff, or_iff_right hmem]

/-- A key that goes to a vacant place goes to the set in use, and both generations change at the same time. -/
theorem Refines.insert (h : Refines d t) {a : Nat} (hprobe : probe (d.keys d.active) (stored key) = some (false, a))
    (hmem : stored key ∉ t.active) : Refines (d.insert (stored key) a 0) (t.checkAndInsert (stored key)).2 := by
  have hactive : Probed 0 place DEDUP_MAX_PROBE (Function.update (d.keys d.active) a (stored key))
      { k | k ∈ stored key :: t.active } := by
    have hset : { k | k ∈ stored key :: t.active } = Insert.insert (stored key) { k | k ∈ t.active } := by
      ext k
      simp
    rw [hset]
    exact h.active.insert (stored_ne_zero key) hprobe
  have hmost := h.most
  have hcount := h.count
  unfold DedupTables.insert KeyDedup.checkAndInsert
  rw [if_neg hmem, hcount]
  by_cases hfull : t.count + 1 ≥ DEDUP_GEN_MAX
  · rw [if_pos hfull, if_pos (by omega)]
    refine ⟨?_, ?_, rfl, hmost⟩
    · have hempty : { k : UInt64 | k ∈ ([] : List UInt64) } = ∅ := Set.eq_empty_of_forall_notMem (fun _ h => nomatch h)
      dsimp only
      rw [Function.update_self, hempty]
      exact .empty 0 place _
    · dsimp only
      rw [Bool.not_not, Function.update_of_ne (by simp), Function.update_self]
      exact hactive
  · rw [if_neg hfull, if_neg (by omega)]
    refine ⟨?_, ?_, rfl, hmost⟩
    · dsimp only
      rw [Function.update_self]
      exact hactive
    · dsimp only
      rw [Function.update_of_ne (by simp)]
      exact h.older

/-- A call that puts no key in the place of another one keeps the sets. -/
theorem Refines.step (h : Refines d t) (hkept : (d.checkInsert key).2.evictions = d.evictions) :
    Refines (d.checkInsert key).2 (t.checkAndInsert (stored key)).2 := by
  rcases checkInsert_cases key d with ⟨a, hprobe, -, heq⟩ | ⟨a, hprobe, -, heq⟩ | ⟨-, -, hevict⟩
  · rw [heq, KeyDedup.checkAndInsert, if_pos ((h.probe_active_iff key).mp ⟨a, hprobe⟩)]
    exact h
  · rw [heq]
    refine h.insert hprobe ?_
    rw [← h.probe_active_iff key, hprobe]
    rintro ⟨b, hb⟩
    cases hb
  · omega

/-! ### The log -/

/-- The sets by the log: a key is in use if it was added since the last rotation, and in the other set if it was added between the last
two. A key that fewer keys followed than a table takes is in one of them. -/
structure Logged (log : List (UInt64 × Nat)) (rotations : Nat) (t : KeyDedup UInt64) : Prop where
  active : ∀ k, k ∈ t.active ↔ (k, rotations) ∈ log
  older : ∀ k, k ∈ t.older ↔ ∃ r, (k, r) ∈ log ∧ r + 1 = rotations
  past : ∀ e ∈ log, e.2 ≤ rotations
  recent : ∀ before e after, log = before ++ e :: after → after.length < DEDUP_GEN_MAX →
    e.1 ∈ t.active ∨ e.1 ∈ t.older ∧ t.count ≤ after.length

theorem Logged.new (cacheSize : Int) : Logged [] 0 (.new cacheSize) := by
  refine ⟨fun k => ?_, fun k => ?_, nofun, ?_⟩
  · simp [KeyDedup.new]
  · simp [KeyDedup.new]
  · intro before e after hlog
    simp at hlog

/-- The last entry of a log, or an entry before it. -/
theorem split_snoc {α : Type} {log before after : List α} {x e : α} (h : log ++ [x] = before ++ e :: after) :
    e = x ∧ after = [] ∨ ∃ after', after = after' ++ [x] ∧ log = before ++ e :: after' := by
  rcases List.eq_nil_or_concat after with rfl | ⟨after', x', rfl⟩
  · obtain ⟨-, hx⟩ := List.append_inj' h rfl
    exact .inl ⟨(List.cons.inj hx).1.symm, rfl⟩
  · rw [List.concat_eq_append, ← List.cons_append, ← List.append_assoc] at h
    obtain ⟨hlog, hx⟩ := List.append_inj' h rfl
    exact .inr ⟨after', by rw [List.concat_eq_append, (List.cons.inj hx).1], hlog⟩

/-- A key that is added. -/
theorem Logged.add {log : List (UInt64 × Nat)} {rotations : Nat} (h : Logged log rotations t) (key : UInt64) :
    Logged (log ++ [(key, rotations)]) rotations { t with active := key :: t.active, count := t.count + 1 } := by
  refine ⟨?_, ?_, ?_, ?_⟩
  · intro k
    rw [List.mem_cons, h.active, List.mem_append, List.mem_singleton, Prod.mk.injEq, and_iff_left rfl, or_comm]
  · intro k
    rw [h.older]
    constructor
    · rintro ⟨r, hmem, hr⟩
      exact ⟨r, List.mem_append_left _ hmem, hr⟩
    · rintro ⟨r, hmem, hr⟩
      rcases List.mem_append.mp hmem with hmem | hmem
      · exact ⟨r, hmem, hr⟩
      · obtain ⟨-, rfl⟩ := Prod.mk.inj (List.mem_singleton.mp hmem)
        omega
  · intro e he
    rcases List.mem_append.mp he with he | he
    · exact h.past e he
    · rw [List.mem_singleton.mp he]
  · intro before e after hlog hlt
    rcases split_snoc hlog with ⟨rfl, -⟩ | ⟨after', rfl, hlog'⟩
    · exact .inl List.mem_cons_self
    · rw [List.length_append, List.length_singleton] at hlt ⊢
      rcases h.recent before e after' hlog' (by omega) with hmem | ⟨hmem, hle⟩
      · exact .inl (List.mem_cons_of_mem key hmem)
      · exact .inr ⟨hmem, by dsimp only; omega⟩

/-- A rotation. A table is full then, so that what was in the other one is followed by a whole table. -/
theorem Logged.rotate {log : List (UInt64 × Nat)} {rotations : Nat} (h : Logged log rotations t) (hfull : DEDUP_GEN_MAX ≤ t.count) :
    Logged log (rotations + 1) { t with active := [], older := t.active, count := 0 } := by
  refine ⟨?_, ?_, ?_, ?_⟩
  · intro k
    refine ⟨fun hmem => (List.not_mem_nil hmem).elim, ?_⟩
    intro hmem
    have := h.past _ hmem
    omega
  · intro k
    rw [h.active]
    constructor
    · exact fun hmem => ⟨rotations, hmem, rfl⟩
    · rintro ⟨r, hmem, hr⟩
      rwa [← Nat.succ.inj hr]
  · intro e he
    exact (h.past e he).trans (Nat.le_succ _)
  · intro before e after hlog hlt
    rcases h.recent before e after hlog hlt with hmem | ⟨-, hle⟩
    · exact .inr ⟨hmem, Nat.zero_le _⟩
    · omega

/-- The tables, the sets and the log fit together. -/
structure Tracked (s : DedupTables × List (UInt64 × Nat)) (t : KeyDedup UInt64) : Prop where
  refines : Refines s.1 t
  log : Logged s.2 s.1.rotations t

theorem Tracked.step {s : DedupTables × List (UInt64 × Nat)} (h : Tracked s t)
    (hkept : (s.1.checkInsert key).2.evictions = s.1.evictions) :
    Tracked (logged s key) (t.checkAndInsert (stored key)).2 := by
  refine ⟨h.refines.step hkept, ?_⟩
  have hmost := h.refines.most
  have hcount := h.refines.count
  rcases checkInsert_cases key s.1 with ⟨a, hprobe, hadds, heq⟩ | ⟨a, hprobe, hadds, heq⟩ | ⟨-, -, hevict⟩
  · have hmem := (h.refines.probe_active_iff key).mp ⟨a, hprobe⟩
    simp only [logged, heq, hadds, Bool.false_eq_true, if_false, KeyDedup.checkAndInsert, if_pos hmem]
    exact h.log
  · have hmem : stored key ∉ t.active := by
      rw [← h.refines.probe_active_iff key, hprobe]
      rintro ⟨b, hb⟩
      cases hb
    have hadd := h.log.add (stored key)
    simp only [logged, heq, hadds, if_true, KeyDedup.checkAndInsert, if_neg hmem, insert, hcount]
    by_cases hfull : t.count + 1 ≥ DEDUP_GEN_MAX
    · rw [if_pos hfull, if_pos (by omega)]
      exact hadd.rotate hfull
    · rw [if_neg hfull, if_neg (by omega)]
      exact hadd
  · omega

theorem evictions_le_run (s : DedupTables × List (UInt64 × Nat)) (keys : List UInt64) :
    s.1.evictions ≤ (runFrom logged s keys).1.evictions := by
  induction keys generalizing s with
  | nil => exact Nat.le_refl _
  | cons key keys ih => exact (evictions_le key s.1).trans (ih (logged s key))

/-- While no key goes in the place of another one, the tables answer as the sets do. -/
theorem Tracked.run {s : DedupTables × List (UInt64 × Nat)} (h : Tracked s t) {keys : List UInt64}
    (hkept : (runFrom logged s keys).1.evictions = s.1.evictions) :
    outcomes (fun d key => checkInsert key d) s.1 keys = outcomes (fun t key => t.checkAndInsert (stored key)) t keys ∧
      Tracked (runFrom logged s keys) (runFrom (fun t key => (t.checkAndInsert (stored key)).2) t keys) := by
  induction keys generalizing s t with
  | nil => exact ⟨rfl, h⟩
  | cons key keys ih =>
    have hle := evictions_le key s.1
    have hrest : (logged s key).1.evictions ≤ (runFrom logged s (key :: keys)).1.evictions := evictions_le_run (logged s key) keys
    have hfirst : (s.1.checkInsert key).2.evictions = s.1.evictions := by
      change (s.1.checkInsert key).2.evictions ≤ _ at hrest
      omega
    have hanswer : (s.1.checkInsert key).1 = (t.checkAndInsert (stored key)).1 := by
      rw [Bool.eq_iff_iff, h.refines.answer_iff, KeyDedup.checkAndInsert_fst]
    obtain ⟨houtcomes, htracked⟩ := ih (h.step hfirst) (hkept.trans hfirst.symm)
    exact ⟨List.cons_eq_cons.mpr ⟨hanswer, houtcomes⟩, htracked⟩

end DedupTables

open DedupTables in
/-- As long as no key had to go in the place of another one, the tables answer each key as the two sets do that take 65536 keys each. A
key is then seen exactly if it was added to a table that no rotation has wiped since; and it is, if fewer than 65536 keys were added
after it. -/
theorem dedup_refines (keys : List UInt64) (d : DedupTables) (log : List (UInt64 × Nat))
    (hrun : runFrom logged (.zeroed, []) keys = (d, log)) (hkept : d.evictions = 0) :
    outcomes (fun d key => checkInsert key d) .zeroed keys =
      outcomes (fun t key => t.checkAndInsert (stored key)) (KeyDedup.new 131072) keys ∧
    ∀ key, ((d.checkInsert key).1 = true ↔ ∃ r, (stored key, r) ∈ log ∧ d.rotations ≤ r + 1) ∧
      ∀ before r after, log = before ++ (stored key, r) :: after → after.length < 65536 → (d.checkInsert key).1 = true := by
  have hstart : Tracked (.zeroed, []) (.new 131072) := ⟨.zeroed, .new 131072⟩
  have hend := @Tracked.run _ _ hstart keys (by rw [hrun]; exact hkept)
  rw [hrun] at hend
  obtain ⟨houtcomes, htracked⟩ := hend
  refine ⟨houtcomes, fun key => ⟨?_, ?_⟩⟩
  · rw [htracked.refines.answer_iff, htracked.log.active, htracked.log.older]
    constructor
    · rintro (hmem | ⟨r, hmem, hr⟩)
      · exact ⟨d.rotations, hmem, Nat.le_succ _⟩
      · exact ⟨r, hmem, hr.ge⟩
    · rintro ⟨r, hmem, hle⟩
      rcases Nat.eq_or_lt_of_le (htracked.log.past _ hmem) with heq | hlt
      · exact .inl (by rwa [← show r = d.rotations from heq])
      · exact .inr ⟨r, hmem, Nat.le_antisymm hlt hle⟩
  · intro before r after hlog hlt
    rw [htracked.refines.answer_iff]
    rcases htracked.log.recent before _ after hlog hlt with hmem | ⟨hmem, -⟩
    · exact .inl hmem
    · exact .inr hmem

open DedupTables in
/-- Three keys, the second one zero, and the one that zero is stored as. -/
theorem dedup_refines_zero :
    (runFrom logged (.zeroed, []) [7, 0, 1]).1.evictions = 0 ∧
      outcomes (fun d key => checkInsert key d) .zeroed [7, 0, 1] =
        outcomes (fun t key => t.checkAndInsert (stored key)) (KeyDedup.new 131072) [7, 0, 1] := by
  have hkept : (runFrom logged (.zeroed, []) [7, 0, 1]).1.evictions = 0 := by decide
  exact ⟨hkept, (dedup_refines [7, 0, 1] _ _ rfl hkept).1⟩

end Mdrap
