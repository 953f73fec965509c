import Mdrap.Lib.Merkle
import Mdrap.Storage.Audit

/-!
# The audit log as a hash chain

A row is linked to the hash before it where it holds that hash and the hash of its own fields. The three verifications accept
exactly the chains that begin with the genesis hash and, where there is an anchor, pass through it. A hash fixes the fields of a row
in the second format as far as their texts go.
-/

namespace Mdrap

open Lib

/-! ## Hashes -/

theorem digitChar_inj : ∀ m < 16, ∀ n < 16, m.digitChar = n.digitChar → m = n := by decide

theorem digitChar_ne_bracket : ∀ n < 16, n.digitChar ≠ '[' := by decide

theorem hexText_injective : Function.Injective hexText := by
  intro b b' h
  have hlist : b.flatMap (fun x => [(x.toNat / 16).digitChar, (x.toNat % 16).digitChar]) =
      b'.flatMap (fun x => [(x.toNat / 16).digitChar, (x.toNat % 16).digitChar]) := String.ofList_injective h
  clear h
  induction b generalizing b' with
  | nil =>
    cases b' with
    | nil => rfl
    | cons y ys => simp at hlist
  | cons x xs ih =>
    cases b' with
    | nil => simp at hlist
    | cons y ys =>
      simp only [List.flatMap_cons, List.cons_append, List.nil_append, List.cons.injEq] at hlist
      obtain ⟨hhigh, hlow, hrest⟩ := hlist
      have hx := x.toNat_lt
      have hy := y.toNat_lt
      have h₁ := digitChar_inj _ (by omega) _ (by omega) hhigh
      have h₂ := digitChar_inj _ (by omega) _ (by omega) hlow
      have hxy : x = y := UInt8.toNat_inj.mp (by omega)
      rw [hxy, ih hrest]

/-- A text that does not start as an array does. -/
def Unbracketed (s : String) : Prop := s.toList.head? ≠ some '['

theorem unbracketed_hexText (b : Bytes) : Unbracketed (hexText b) := by
  cases b with
  | nil => simp [Unbracketed, hexText]
  | cons x xs =>
    have hx := x.toNat_lt
    have hne := digitChar_ne_bracket (x.toNat / 16) (by omega)
    simp [Unbracketed, hexText, hne]

theorem unbracketed_genesis : Unbracketed GENESIS_HASH := by
  unfold Unbracketed
  decide

theorem encodeUtf8_injective : Function.Injective encodeUtf8 := by
  intro cs cs' h
  have hdecode := decodeUtf8_encodeUtf8 cs
  rw [h, decodeUtf8_encodeUtf8] at hdecode
  exact (Option.some.inj hdecode).symm

theorem AuditCell.json_injective {v v' : AuditCell} {j : Json} (h : v.json = .ok j) (h' : v'.json = .ok j) : v = v' := by
  cases v <;> cases v' <;> cases h <;> cases h' <;> rfl

theorem AuditCell.json_scalar {v : AuditCell} {j : Json} (h : v.json = .ok j) : j.isScalar = true := by
  cases v <;> cases h <;> rfl

namespace AuditRow

/-- The version that a row is read with. -/
def version (r : AuditRow) : AuditCell := if r.formatVersion = .null then .int 1 else r.formatVersion

/-- The hash of a row's fields. -/
def rowHash (env : AuditEnv) (r : AuditRow) : Except PyError String :=
  env.computeAuditHash r.prevHash r.timestamp r.actor r.role r.action r.details r.version

/-- The fields of two rows have the same texts, and the timestamps are equal. -/
structure Alike (r r' : AuditRow) : Prop where
  timestamp : r'.timestamp = r.timestamp
  actor : r'.actor.str = r.actor.str
  role : r'.role.str = r.role.str
  action : r'.action.str = r.action.str
  details : r'.details.str = r.details.str

end AuditRow

namespace AuditEnv

variable {env : AuditEnv}

/-- A row that holds the hash before it, and the hash of its fields. -/
def link (env : AuditEnv) (head : String) (r : AuditRow) : Option String :=
  if r.prevHash = .text head then
    match r.rowHash env with
    | .ok k => if r.entryHash = .text k then some k else none
    | .error _ => none
  else none

theorem link_eq_some {head k : String} {r : AuditRow} :
    env.link head r = some k ↔ r.prevHash = .text head ∧ r.rowHash env = .ok k ∧ r.entryHash = .text k := by
  unfold link
  by_cases hprev : r.prevHash = .text head
  · rcases hhash : r.rowHash env with e | m
    · simp [hprev]
    · by_cases hentry : r.entryHash = .text m
      · simp only [hprev, hentry, if_true, Option.some.injEq, true_and, Except.ok.injEq, AuditCell.text.injEq]
        exact ⟨fun h => ⟨h, h⟩, fun h => h.1⟩
      · simp only [hprev, hentry, if_true, if_false, true_and, Except.ok.injEq, reduceCtorEq, false_iff, not_and]
        rintro rfl
        exact hentry
  · simp [hprev]

/-- A hash is one of some bytes. -/
theorem computeAuditHash_eq {prevHash ts actor role action details version : AuditCell} {k : String}
    (h : env.computeAuditHash prevHash ts actor role action details version = .ok k) : ∃ b, k = hexText b := by
  unfold computeAuditHash at h
  split at h
  · rcases hts : ts.toFloat env with e | x
    · simp [hts, bind, Except.bind] at h
    · simp only [hts, bind, Except.bind, pure, Except.pure, Except.ok.injEq] at h
      exact ⟨_, h.symm⟩
  · rcases hdata : auditBytesV2 prevHash ts actor role action details with e | b
    · simp [hdata, bind, Except.bind] at h
    · simp only [hdata, bind, Except.bind, pure, Except.pure, Except.ok.injEq] at h
      exact ⟨_, h.symm⟩

theorem unbracketed_of_link {head k : String} {r : AuditRow} (h : env.link head r = some k) : Unbracketed k := by
  obtain ⟨-, hhash, -⟩ := link_eq_some.mp h
  obtain ⟨b, rfl⟩ := computeAuditHash_eq hhash
  exact unbracketed_hexText b

/-- The bytes in the second format. -/
theorem auditBytesV2_ok {prevHash ts actor role action details : AuditCell} {b : Bytes}
    (h : auditBytesV2 prevHash ts actor role action details = .ok b) : ∃ j, ts.json = .ok j ∧ b = encodeUtf8
      ((Json.arr [.int 2, .str prevHash.str, j, .str actor.str, .str role.str, .str action.str, .str details.str]).text .ascii) := by
  unfold auditBytesV2 at h
  rcases hts : ts.json with e | j
  · simp [hts, bind, Except.bind] at h
  · simp only [hts, bind, Except.bind, pure, Except.pure, Except.ok.injEq] at h
    exact ⟨j, rfl, h.symm⟩

/-- What two rows that hash alike in the second format have in common. -/
theorem auditBytesV2_inj {prevHash ts actor role action details prevHash' ts' actor' role' action' details' : AuditCell} {b : Bytes}
    (h : auditBytesV2 prevHash ts actor role action details = .ok b)
    (h' : auditBytesV2 prevHash' ts' actor' role' action' details' = .ok b) :
    prevHash.str = prevHash'.str ∧ ts' = ts ∧ actor'.str = actor.str ∧ role'.str = role.str ∧ action'.str = action.str ∧
      details'.str = details.str := by
  obtain ⟨j, hj, hb⟩ := auditBytesV2_ok h
  obtain ⟨j', hj', hb'⟩ := auditBytesV2_ok h'
  have htext := encodeUtf8_injective (hb.symm.trans hb')
  have hscalar := AuditCell.json_scalar hj
  have hscalar' := AuditCell.json_scalar hj'
  have harr := isAscii_ascii.arr_inj (by simp [hscalar]) (by simp [hscalar']) htext
  simp only [List.cons.injEq, Json.str.injEq, true_and, and_true] at harr
  obtain ⟨hprev, rfl, hactor, hrole, haction, hdetails⟩ := harr
  exact ⟨hprev, AuditCell.json_injective hj' hj, hactor.symm, hrole.symm, haction.symm, hdetails.symm⟩

/-- A row in the first format does not hash as one in the second: the hash it begins with is no bracket. -/
theorem auditBytesV1_ne {head : String} (hhead : Unbracketed head) {x : Float64} {actor role action details : AuditCell}
    {prevHash ts actor' role' action' details' : AuditCell} {b : Bytes}
    (h : auditBytesV2 prevHash ts actor' role' action' details' = .ok b) :
    env.auditBytesV1 (.text head) x actor role action details ≠ b := by
  intro hb
  obtain ⟨j, -, hb'⟩ := auditBytesV2_ok h
  have htext := encodeUtf8_injective (hb.trans hb')
  have hfirst := congrArg List.head? htext
  simp only [AuditCell.str, Json.text, List.cons_append] at hfirst
  unfold Unbracketed at hhead
  cases hlist : head.toList with
  | nil => simp [hlist] at hfirst
  | cons c cs =>
    rw [hlist] at hhead
    simp [hlist] at hfirst
    simp [hfirst] at hhead

/-- A hash fixes the row that gave it and the hash before it, where the row is in the second format. -/
theorem link_commits (hsha : Function.Injective env.sha256) (h h' : String) (r r' : AuditRow) (k : String)
    (hr : r.version.isOne = false) (hh' : Unbracketed h') (hlink : env.link h r = some k) (hlink' : env.link h' r' = some k) :
    h = h' ∧ r.Alike r' := by
  obtain ⟨hprev, hhash, -⟩ := link_eq_some.mp hlink
  obtain ⟨hprev', hhash', -⟩ := link_eq_some.mp hlink'
  have hdigest : Function.Injective env.hexdigest := fun b b' heq => hsha (hexText_injective heq)
  unfold AuditRow.rowHash computeAuditHash at hhash hhash'
  rw [hr, hprev] at hhash
  rw [hprev'] at hhash'
  simp only [Bool.false_eq_true, if_false] at hhash
  rcases hdata : auditBytesV2 (.text h) r.timestamp r.actor r.role r.action r.details with e | b
  · simp [hdata, bind, Except.bind] at hhash
  simp only [hdata, bind, Except.bind, pure, Except.pure, Except.ok.injEq] at hhash
  split at hhash'
  · rcases hts : r'.timestamp.toFloat env with e | x
    · simp [hts, bind, Except.bind] at hhash'
    · simp only [hts, bind, Except.bind, pure, Except.pure, Except.ok.injEq] at hhash'
      exact absurd (hdigest (hhash'.trans hhash.symm)) (auditBytesV1_ne hh' hdata)
  · rcases hdata' : auditBytesV2 (.text h') r'.timestamp r'.actor r'.role r'.action r'.details with e | b'
    · simp [hdata', bind, Except.bind] at hhash'
    · simp only [hdata', bind, Except.bind, pure, Except.pure, Except.ok.injEq] at hhash'
      rw [hdigest (hhash'.trans hhash.symm)] at hdata'
      obtain ⟨hsame, hts, hactor, hrole, haction, hdetails⟩ := auditBytesV2_inj hdata hdata'
      exact ⟨hsame, hts, hactor, hrole, haction, hdetails⟩

/-! ## Verification -/

/-- The rows are followed to their end exactly where they are a chain. -/
theorem followRows_none (linkName : String) (head : String) (rows : List AuditRow) :
    env.followRows linkName (.text head) rows = .ok none ↔ ∃ k, chain env.link head rows = some k := by
  induction rows generalizing head with
  | nil => exact ⟨fun _ => ⟨head, rfl⟩, fun _ => rfl⟩
  | cons r rows ih =>
    have hversion : (if r.formatVersion = .null then .int 1 else r.formatVersion) = r.version := rfl
    unfold followRows
    rw [chain_cons, hversion]
    by_cases hprev : r.prevHash = .text head
    · rw [if_neg (not_not.mpr hprev)]
      rcases hhash : r.rowHash env with e | k
      · have hcompute := hhash
        unfold AuditRow.rowHash at hcompute
        have hlink : env.link head r = none := by simp [link, hprev, hhash]
        simp [hcompute, hlink, bind, Except.bind]
      · have hcompute := hhash
        unfold AuditRow.rowHash at hcompute
        by_cases hentry : r.entryHash = .text k
        · have hlink : env.link head r = some k := link_eq_some.mpr ⟨hprev, hhash, hentry⟩
          rw [hlink, Option.bind_some, ← ih k]
          simp [hcompute, hentry, bind, Except.bind]
        · have hlink : env.link head r = none := by simp [link, hprev, hhash, hentry]
          have hne : AuditCell.text k ≠ r.entryHash := fun heq => hentry heq.symm
          simp only [hcompute, bind, Except.bind, if_pos hne, hlink, Option.bind_none, reduceCtorEq, exists_false, iff_false]
          cases r.entryHash.head12 <;> simp [pure, Except.pure]
    · rw [if_pos hprev]
      have hlink : env.link head r = none := by simp [link, hprev]
      simp only [hlink, Option.bind_none, reduceCtorEq, exists_false, iff_false]
      cases (AuditCell.text head).head12 <;> cases r.prevHash.head12 <;> simp [bind, Except.bind, pure, Except.pure]

/-- A verification accepts. -/
def Accepts (report : Except PyError AuditReport) : Prop := ∃ r, report = .ok r ∧ r.ok = true

instance (report : Except PyError AuditReport) : Decidable (Accepts report) :=
  match report with
  | .ok r => decidable_of_iff (r.ok = true) (by simp [Accepts])
  | .error e => .isFalse (by simp [Accepts])

theorem accepts_reportRows (t : AuditTable) (anchored : Bool) :
    Accepts (env.reportRows (.text GENESIS_HASH) t anchored none) ↔ ∃ k, chain env.link GENESIS_HASH t = some k := by
  rw [← followRows_none "prev_hash", reportRows]
  split
  · rename_i hempty
    subst hempty
    simp [Accepts, followRows]
  · rcases env.followRows "prev_hash" (.text GENESIS_HASH) t with e | _ | ⟨message, id⟩
    · simp [Accepts, Except.map]
    · simp [Accepts, Except.map, chainReport]
    · simp [Accepts, Except.map, chainReport]

/-- Without an anchor the table is accepted where it is a chain. -/
theorem accepts_unanchored (t : AuditTable) :
    Accepts (env.verifyAuditIntegrity t none none) ↔ ∃ k, chain env.link GENESIS_HASH t = some k :=
  accepts_reportRows t false

/-- The last row of a chain holds its head. -/
theorem chain_entryHash {start k : String} {rows : List AuditRow} {r : AuditRow} (h : chain env.link start (rows ++ [r]) = some k) :
    r.entryHash = .text k := by
  rw [chain_concat] at h
  obtain ⟨m, -, hlink⟩ := Option.bind_eq_some_iff.mp h
  exact (link_eq_some.mp hlink).2.2

/-- The anchor is not at fault for a chain exactly where the chain passes through it. -/
theorem anchorFault_chain {t : AuditTable} {k : String} (ht : chain env.link GENESIS_HASH t = some k) (n : Nat) (h : String) :
    anchorFault t (n, .text h) = .ok none ↔ n ≤ t.length ∧ chain env.link GENESIS_HASH (t.take n) = some h := by
  unfold anchorFault
  simp only [Int.toNat_natCast]
  rw [if_neg (by omega)]
  cases n with
  | zero =>
    by_cases hgenesis : h = GENESIS_HASH
    · simp [hgenesis]
    · have hne : GENESIS_HASH ≠ h := fun heq => hgenesis heq.symm
      simp [hgenesis, hne]
  | succ m =>
    rw [if_neg (by omega)]
    by_cases hlen : m + 1 ≤ t.length
    · rw [if_neg (by omega)]
      obtain ⟨r, hr⟩ : ∃ r, t[m]? = some r := ⟨t[m], List.getElem?_eq_getElem (by omega)⟩
      obtain ⟨head, hhead⟩ := chain_take ht (m + 1)
      have hlast : t.take (m + 1) = t.take m ++ [r] := by rw [List.take_add_one, hr]; rfl
      have hentry : r.entryHash = .text head := by
        rw [hlast] at hhead
        exact chain_entryHash hhead
      rw [hhead]
      simp only [hr, hentry, Option.some.injEq, hlen, true_and]
      by_cases hsame : head = h
      · simp [hsame]
      · simp [hsame, AuditCell.head12, bind, Except.bind, pure, Except.pure]
    · rw [if_pos (by omega)]
      simp [hlen]

/-- An anchor at fault is not accepted. -/
theorem anchorFault_not_ok {t : AuditTable} {anchor : Int × AuditCell} {report : AuditReport}
    (h : anchorFault t anchor = .ok (some report)) : report.ok = false := by
  unfold anchorFault at h
  simp only at h
  repeat' split at h
  all_goals try cases h
  all_goals try rfl
  rename_i r _ _
  rcases hwant : anchor.2.head12 with e | want
  · simp [hwant, bind, Except.bind] at h
  · rcases hgot : r.entryHash.head12 with e | got
    · simp [hwant, hgot, bind, Except.bind] at h
    · simp only [hwant, hgot, bind, Except.bind, pure, Except.pure, Except.ok.injEq, Option.some.injEq] at h
      rw [← h]

/-- With an anchor the table is accepted where it is a chain that passes through the anchor. -/
theorem accepts_anchored (t : AuditTable) (n : Nat) (h : String) :
    Accepts (env.verifyAuditIntegrity t (some (n, .text h)) none) ↔
      (∃ k, chain env.link GENESIS_HASH t = some k) ∧ n ≤ t.length ∧ chain env.link GENESIS_HASH (t.take n) = some h := by
  have hverify : env.verifyAuditIntegrity t (some (n, .text h)) none =
      (anchorFault t (n, .text h)).bind (env.reportRows (.text GENESIS_HASH) t true) := rfl
  rw [hverify]
  constructor
  · intro hacc
    rcases hfault : anchorFault t (n, .text h) with e | _ | report
    · rw [hfault] at hacc
      obtain ⟨r, hr, -⟩ := hacc
      cases hr
    · rw [hfault] at hacc
      obtain ⟨k, hk⟩ := (accepts_reportRows t true).mp hacc
      exact ⟨⟨k, hk⟩, (anchorFault_chain hk n h).mp hfault⟩
    · rw [hfault] at hacc
      obtain ⟨r, hr, hok⟩ := hacc
      cases hr
      rw [anchorFault_not_ok hfault] at hok
      cases hok
  · rintro ⟨⟨k, hk⟩, hpass⟩
    rw [(anchorFault_chain hk n h).mpr hpass]
    exact (accepts_reportRows t true).mpr ⟨k, hk⟩

/-! ## Written rows -/

/-- SQLite takes what the call binds. -/
def stored (c : AuditCall) : Bool := Stamp.binds c.timestamp && isInt64 c.formatVersion

/-- The row that a call leaves, but for its id and its hashes. -/
structure RowOf (env : AuditEnv) (r : AuditRow) (c : AuditCall) : Prop where
  timestamp : r.timestamp = env.realColumn c.timestamp.cell
  actor : r.actor = .text c.actor
  role : r.role = .text c.role
  action : r.action = .text c.action
  details : r.details = .text c.details
  formatVersion : r.formatVersion = .int c.formatVersion

/-- The row with the timestamp that was hashed. -/
def claimed (r : AuditRow) (c : AuditCall) : AuditRow := { r with timestamp := c.timestamp.cell }

/-- What a caller gives can be hashed. -/
theorem computeAuditHash_stamp (prevHash : AuditCell) (stamp : Stamp) (actor role action details version : AuditCell) :
    ∃ k, env.computeAuditHash prevHash stamp.cell actor role action details version = .ok k := by
  unfold computeAuditHash
  split
  · cases stamp with
    | int n => exact ⟨_, rfl⟩
    | float x => exact ⟨_, rfl⟩
  · cases stamp with
    | int n => exact ⟨_, rfl⟩
    | float x => exact ⟨_, rfl⟩

theorem version_int {r : AuditRow} {n : Int} (h : r.formatVersion = .int n) : r.version = .int n := by
  simp [AuditRow.version, h]

/-- A call whose values SQLite takes leaves its row, linked to the head by the timestamp as it was given; any other leaves none. -/
theorem appendAudit_eq {t : AuditTable} {head : String} (ht : t.getLatestAuditHash = .text head) (c : AuditCall) :
    (stored c = true → ∃ row k, env.appendAudit t c = (.ok k, t ++ [row]) ∧ env.RowOf row c ∧
      env.link head (claimed row c) = some k) ∧ (stored c = false → (env.appendAudit t c).2 = t) := by
  obtain ⟨k, hk⟩ := env.computeAuditHash_stamp (.text head) c.timestamp (.text c.actor) (.text c.role) (.text c.action)
    (.text c.details) (.int c.formatVersion)
  unfold stored
  refine ⟨?_, ?_⟩
  · intro hstored
    refine ⟨⟨t.nextId, env.realColumn c.timestamp.cell, .text c.actor, .text c.role, .text c.action, .text c.details, .text head,
      .text k, .int c.formatVersion⟩, k, ?_, ?_, ?_⟩
    · simp only [appendAudit, rowOf, ht, hk, hstored, bind, Except.bind, pure, Except.pure, if_true, textColumn]
    · exact ⟨rfl, rfl, rfl, rfl, rfl, rfl⟩
    · exact link_eq_some.mpr ⟨rfl, hk, rfl⟩
  · intro hstored
    simp [appendAudit, rowOf, ht, hk, hstored, bind, Except.bind]

/-- The rows are those of the calls, and with the timestamps as they were given they are a chain to the head. -/
structure Wrote (env : AuditEnv) (t : AuditTable) (calls : List AuditCall) (head : String) : Prop where
  rows : List.Forall₂ env.RowOf t calls
  chain : chain env.link GENESIS_HASH (List.zipWith claimed t calls) = some head
  head : t.getLatestAuditHash = .text head

theorem wrote_nil : env.Wrote [] [] GENESIS_HASH := ⟨.nil, rfl, rfl⟩

theorem Wrote.append {t : AuditTable} {calls : List AuditCall} {head : String} (h : env.Wrote t calls head) (c : AuditCall) :
    ∃ head', env.Wrote (env.appendAudit t c).2 (calls ++ [c].filter stored) head' := by
  obtain ⟨hstored, hnot⟩ := @appendAudit_eq env t head h.head c
  rcases hc : stored c with _ | _
  · refine ⟨head, ?_⟩
    rw [hnot hc]
    simpa [hc] using h
  · obtain ⟨row, k, happend, hrow, hlink⟩ := hstored hc
    refine ⟨k, ?_⟩
    have hfilter : [c].filter stored = [c] := by simp [hc]
    rw [happend, hfilter]
    refine ⟨List.rel_append h.rows (.cons hrow .nil), ?_, ?_⟩
    · rw [List.zipWith_append h.rows.length_eq, List.zipWith_cons_cons, List.zipWith_nil_left, chain_concat, h.chain]
      exact hlink
    · have hentry : row.entryHash = .text k := (link_eq_some.mp hlink).2.2
      simpa [AuditTable.getLatestAuditHash] using hentry

end AuditEnv

end Mdrap
