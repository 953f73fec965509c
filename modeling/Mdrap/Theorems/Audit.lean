import Mdrap.Lemmas.Audit
import Mdrap.Lib.Digest

/-!
# What the audit log proves

Rows that a verification accepts against an anchor have the hash of the anchor at their end, and so, back along the chain, the
timestamps and the texts that were hashed. The texts are those of `str`: a column that holds nothing reads as the word `None`, and
one that holds bytes as their literal, so that a log with such a text can be changed without notice. A timestamp is hashed as the
caller gives it and hashed again as the column gives it back; an integer, in the second format, and a negative zero do not come back
as they were, and the log that holds them no longer verifies.
-/

namespace Mdrap

open Lib

namespace AuditEnv

variable {env : AuditEnv}

/-! ## Tamper evidence -/

/-- The table after calls of `append_audit`. -/
def written (env : AuditEnv) (calls : List AuditCall) : AuditTable := calls.foldl (fun t c => (env.appendAudit t c).2) []

theorem wrote_written (calls : List AuditCall) : ∃ head, env.Wrote (env.written calls) (calls.filter stored) head := by
  induction calls using List.reverseRecOn with
  | nil => exact ⟨_, wrote_nil⟩
  | append_singleton calls c ih =>
    obtain ⟨head, hwrote⟩ := ih
    rw [written, List.foldl_concat, List.filter_append]
    exact hwrote.append c

/-- A row that the columns of the table can hold. -/
structure Held (env : AuditEnv) (r : AuditRow) : Prop where
  timestamp : env.realColumn r.timestamp = r.timestamp
  actor : env.textColumn r.actor = r.actor
  role : env.textColumn r.role = r.role
  action : env.textColumn r.action = r.action
  details : env.textColumn r.details = r.details

/-- The timestamp comes back from its column as it was given. -/
def Kept (env : AuditEnv) (s : Stamp) : Prop := env.realColumn s.cell = s.cell

/-- A text that nothing but itself reads as: not the word for nothing, and not the literal of bytes. -/
def Plain (s : String) : Prop := s ≠ "None" ∧ ∀ b, bytesRepr b ≠ s

/-- Two rows agree on their entries. -/
def SameEntry (r r' : AuditRow) : Prop :=
  r'.timestamp = r.timestamp ∧ r'.actor = r.actor ∧ r'.role = r.role ∧ r'.action = r.action ∧ r'.details = r.details

/-- A cell of a column of type TEXT that reads as a plain text is that text. -/
theorem cell_eq_text {v : AuditCell} {s : String} (hv : env.textColumn v = v) (hs : v.str = s) (hplain : Plain s) : v = .text s := by
  cases v with
  | null => exact absurd hs.symm hplain.1
  | int n => cases hv
  | real x => cases hv
  | text s' => rw [← hs]; rfl
  | blob b => exact absurd hs (hplain.2 b)

/-- A text that is not plain is that of another cell. -/
theorem exists_cell {s : String} (h : ¬Plain s) : ∃ v, env.textColumn v = v ∧ v.str = s ∧ v ≠ .text s := by
  by_cases hnone : s = "None"
  · exact ⟨.null, rfl, hnone.symm, by simp⟩
  · have hblob : ∃ b, bytesRepr b = s := by
      by_contra hall
      exact h ⟨hnone, fun b hb => hall ⟨b, hb⟩⟩
    obtain ⟨b, hb⟩ := hblob
    exact ⟨.blob b, rfl, hb, by simp⟩

/-- A row that reads as the one of a call keeps its timestamp. -/
theorem Held.kept {r r' : AuditRow} {c : AuditCall} (hheld : env.Held r') (halike : (claimed r c).Alike r') : env.Kept c.timestamp := by
  have hts : r'.timestamp = c.timestamp.cell := halike.timestamp
  have hcolumn := hheld.timestamp
  rw [hts] at hcolumn
  exact hcolumn

/-- A row that reads as the one of a call with plain texts is that row. -/
theorem Held.sameEntry {r r' : AuditRow} {c : AuditCall} (hheld : env.Held r') (hrow : env.RowOf r c)
    (halike : (claimed r c).Alike r') (hplain : ∀ s ∈ [c.actor, c.role, c.action, c.details], Plain s) : SameEntry r r' := by
  have hkept := hheld.kept halike
  refine ⟨?_, ?_, ?_, ?_, ?_⟩
  · rw [halike.timestamp, hrow.timestamp]
    exact hkept.symm
  · have hstr : r'.actor.str = c.actor := halike.actor.trans (congrArg AuditCell.str hrow.actor)
    rw [cell_eq_text hheld.actor hstr (hplain _ (by simp)), hrow.actor]
  · have hstr : r'.role.str = c.role := halike.role.trans (congrArg AuditCell.str hrow.role)
    rw [cell_eq_text hheld.role hstr (hplain _ (by simp)), hrow.role]
  · have hstr : r'.action.str = c.action := halike.action.trans (congrArg AuditCell.str hrow.action)
    rw [cell_eq_text hheld.action hstr (hplain _ (by simp)), hrow.action]
  · have hstr : r'.details.str = c.details := halike.details.trans (congrArg AuditCell.str hrow.details)
    rw [cell_eq_text hheld.details hstr (hplain _ (by simp)), hrow.details]

/-- Rows in the second format. -/
theorem version_claimed {t : AuditTable} {calls : List AuditCall} (h : List.Forall₂ env.RowOf t calls)
    (hformat : ∀ c ∈ calls, c.formatVersion = 2) : ∀ r ∈ List.zipWith claimed t calls, r.version.isOne = false := by
  induction h with
  | nil => simp
  | @cons r c t calls hrow _ ih =>
    have hversion : (claimed r c).version = .int 2 := by
      rw [← hformat c (by simp)]
      exact version_int hrow.formatVersion
    intro r' hr'
    rcases List.mem_cons.mp hr' with rfl | hr'
    · rw [hversion]
      rfl
    · exact ih (fun c' hc' => hformat c' (by simp [hc'])) r' hr'

/-- Rows that are accepted against the anchor read as those that were written, with the timestamps as they were given. -/
theorem alike_of_accepts (hsha : Function.Injective env.sha256) {t t' : AuditTable} {calls : List AuditCall} {head : String}
    (hwrote : env.Wrote t calls head) (hformat : ∀ c ∈ calls, c.formatVersion = 2)
    (hacc : Accepts (env.verifyAuditIntegrity t' (some t.getAuditAnchor) none)) :
    List.Forall₂ AuditRow.Alike (List.zipWith claimed t calls) (t'.take t.length) := by
  have hanchor : t.getAuditAnchor = ((t.length : Int), .text head) := by
    unfold AuditTable.getAuditAnchor
    rw [hwrote.head]
  rw [hanchor] at hacc
  obtain ⟨-, hlen, hchain⟩ := (accepts_anchored t' t.length head).mp hacc
  have hsame := hwrote.rows.length_eq
  refine (chain_commits (p := fun r => r.version.isOne = false) (q := Unbracketed) (fun h r k hlink => unbracketed_of_link hlink)
    (link_commits hsha) (version_claimed hwrote.rows hformat) unbracketed_genesis ?_ hwrote.chain hchain).2
  rw [List.length_zipWith, List.length_take]
  omega

/-- Every timestamp that was written comes back from its column, where anything is accepted. -/
theorem kept_of_alike {t t' : AuditTable} {calls : List AuditCall} (hrows : List.Forall₂ env.RowOf t calls)
    (halike : List.Forall₂ AuditRow.Alike (List.zipWith claimed t calls) t') (hheld : ∀ r ∈ t', env.Held r) :
    ∀ c ∈ calls, env.Kept c.timestamp := by
  induction hrows generalizing t' with
  | nil => simp
  | @cons r c t calls hrow _ ih =>
    cases halike with
    | @cons _ r' _ t' hfirst hrest =>
      intro c' hc'
      rcases List.mem_cons.mp hc' with rfl | hc'
      · exact (hheld r' (by simp)).kept hfirst
      · exact ih hrest (fun x hx => hheld x (by simp [hx])) c' hc'

theorem sameEntry_of_alike {t t' : AuditTable} {calls : List AuditCall} (hrows : List.Forall₂ env.RowOf t calls)
    (halike : List.Forall₂ AuditRow.Alike (List.zipWith claimed t calls) t') (hheld : ∀ r ∈ t', env.Held r)
    (hplain : ∀ c ∈ calls, ∀ s ∈ [c.actor, c.role, c.action, c.details], Plain s) : List.Forall₂ SameEntry t t' := by
  induction hrows generalizing t' with
  | nil =>
    cases halike
    exact .nil
  | @cons r c t calls hrow _ ih =>
    cases halike with
    | @cons _ r' _ t' hfirst hrest =>
      refine .cons ((hheld r' (by simp)).sameEntry hrow hfirst (hplain c (by simp))) ?_
      exact ih hrest (fun x hx => hheld x (by simp [hx])) (fun c' hc' => hplain c' (by simp [hc']))

/-! ## A change without notice -/

/-- Rows whose fields have the same texts hash alike. -/
theorem link_congr {r r' : AuditRow} (hts : r'.timestamp = r.timestamp) (hactor : r'.actor.str = r.actor.str)
    (hrole : r'.role.str = r.role.str) (haction : r'.action.str = r.action.str) (hdetails : r'.details.str = r.details.str)
    (hprev : r'.prevHash = r.prevHash) (hentry : r'.entryHash = r.entryHash) (hversion : r'.version = r.version)
    (head : String) : env.link head r' = env.link head r := by
  have hhash : r'.rowHash env = r.rowHash env := by
    simp only [AuditRow.rowHash, computeAuditHash, auditBytesV1, auditBytesV2, hts, hactor, hrole, haction, hdetails, hprev,
      hversion]
  rw [link, link, hhash, hprev, hentry]

/-- The row of a call with a text that is not plain can be exchanged for another one. -/
theorem exists_forged {r : AuditRow} {c : AuditCall} (hrow : env.RowOf r c) (hheld : env.Held r)
    (hplain : ¬∀ s ∈ [c.actor, c.role, c.action, c.details], Plain s) :
    ∃ r', env.Held r' ∧ (∀ head, env.link head r' = env.link head r) ∧ ¬SameEntry r r' := by
  simp only [List.mem_cons, List.not_mem_nil, or_false, forall_eq_or_imp, forall_eq, not_and_or] at hplain
  rcases hplain with h | h | h | h
  · obtain ⟨v, hv, hstr, hne⟩ := @exists_cell env _ h
    have hsame : v.str = r.actor.str := hstr.trans (congrArg AuditCell.str hrow.actor).symm
    refine ⟨{ r with actor := v }, { hheld with actor := hv }, link_congr rfl hsame rfl rfl rfl rfl rfl rfl, ?_⟩
    intro hentry
    exact hne (hentry.2.1.trans hrow.actor)
  · obtain ⟨v, hv, hstr, hne⟩ := @exists_cell env _ h
    have hsame : v.str = r.role.str := hstr.trans (congrArg AuditCell.str hrow.role).symm
    refine ⟨{ r with role := v }, { hheld with role := hv }, link_congr rfl rfl hsame rfl rfl rfl rfl rfl, ?_⟩
    intro hentry
    exact hne (hentry.2.2.1.trans hrow.role)
  · obtain ⟨v, hv, hstr, hne⟩ := @exists_cell env _ h
    have hsame : v.str = r.action.str := hstr.trans (congrArg AuditCell.str hrow.action).symm
    refine ⟨{ r with action := v }, { hheld with action := hv }, link_congr rfl rfl rfl hsame rfl rfl rfl rfl, ?_⟩
    intro hentry
    exact hne (hentry.2.2.2.1.trans hrow.action)
  · obtain ⟨v, hv, hstr, hne⟩ := @exists_cell env _ h
    have hsame : v.str = r.details.str := hstr.trans (congrArg AuditCell.str hrow.details).symm
    refine ⟨{ r with details := v }, { hheld with details := hv }, link_congr rfl rfl rfl rfl hsame rfl rfl rfl, ?_⟩
    intro hentry
    exact hne (hentry.2.2.2.2.trans hrow.details)

/-- Rows of calls whose timestamps come back are as they were hashed, and are rows that the columns can hold. -/
theorem claimed_of_kept {t : AuditTable} {calls : List AuditCall} (hrows : List.Forall₂ env.RowOf t calls)
    (hkept : ∀ c ∈ calls, env.Kept c.timestamp) : List.zipWith claimed t calls = t ∧ ∀ r ∈ t, env.Held r := by
  induction hrows with
  | nil => simp
  | @cons r c t calls hrow _ ih =>
    obtain ⟨htable, hheld⟩ := ih (fun c' hc' => hkept c' (by simp [hc']))
    have hts : c.timestamp.cell = r.timestamp := by
      rw [hrow.timestamp]
      exact (hkept c (by simp)).symm
    refine ⟨?_, ?_⟩
    · rw [List.zipWith_cons_cons, htable, claimed, hts]
    · intro r' hr'
      rcases List.mem_cons.mp hr' with rfl | hr'
      · refine ⟨?_, ?_, ?_, ?_, ?_⟩
        · rw [← hts]
          exact hkept c (by simp)
        · rw [hrow.actor]; rfl
        · rw [hrow.role]; rfl
        · rw [hrow.action]; rfl
        · rw [hrow.details]; rfl
      · exact hheld r' hr'

/-- The row of a call among the rows of calls. -/
theorem exists_row {t : AuditTable} {calls : List AuditCall} (h : List.Forall₂ env.RowOf t calls) {c : AuditCall} (hc : c ∈ calls) :
    ∃ before r after, t = before ++ r :: after ∧ env.RowOf r c := by
  induction h with
  | nil => simp at hc
  | @cons r c' t calls hrow _ ih =>
    rcases List.mem_cons.mp hc with rfl | hc
    · exact ⟨[], r, t, rfl, hrow⟩
    · obtain ⟨before, r', after, rfl, hrow'⟩ := ih hc
      exact ⟨r :: before, r', after, rfl, hrow'⟩

theorem sameEntry_middle {r r' : AuditRow} {before after : List AuditRow}
    (h : List.Forall₂ SameEntry (before ++ r :: after) (before ++ r' :: after)) : SameEntry r r' := by
  induction before with
  | nil =>
    cases h with
    | cons hrow _ => exact hrow
  | cons x before ih =>
    cases h with
    | cons _ hrest => exact ih hrest

/-- A log of rows that are as they were hashed, with a text that is not plain, is accepted with another row in it. -/
theorem exists_forged_table {t : AuditTable} {calls : List AuditCall} {head : String} (hwrote : env.Wrote t calls head)
    (hkept : ∀ c ∈ calls, env.Kept c.timestamp)
    (hplain : ¬∀ c ∈ calls, ∀ s ∈ [c.actor, c.role, c.action, c.details], Plain s) :
    ∃ t', (∀ r ∈ t', env.Held r) ∧ Accepts (env.verifyAuditIntegrity t' (some t.getAuditAnchor) none) ∧
      ¬List.Forall₂ SameEntry t (t'.take t.length) := by
  obtain ⟨hclaimed, hheld⟩ := claimed_of_kept hwrote.rows hkept
  have hchain := hwrote.chain
  rw [hclaimed] at hchain
  simp only [not_forall] at hplain
  obtain ⟨c, hc, s, hs, hnot⟩ := hplain
  obtain ⟨before, r, after, rfl, hrow⟩ := exists_row hwrote.rows hc
  obtain ⟨r', hheld', hlink, hdiff⟩ := exists_forged hrow (hheld r (by simp)) (fun h => hnot (h s hs))
  have hlen : (before ++ r' :: after).length = (before ++ r :: after).length := by simp
  refine ⟨before ++ r' :: after, ?_, ?_, ?_⟩
  · intro x hx
    simp only [List.mem_append, List.mem_cons] at hx
    rcases hx with hx | rfl | hx
    · exact hheld x (by simp [hx])
    · exact hheld'
    · exact hheld x (by simp [hx])
  · have hanchor : AuditTable.getAuditAnchor (before ++ r :: after) = (((before ++ r :: after).length : Int), .text head) := by
      unfold AuditTable.getAuditAnchor
      rw [hwrote.head]
    have hsame : chain env.link GENESIS_HASH (before ++ r' :: after) = some head := by
      rw [chain_exchange hlink]
      exact hchain
    rw [hanchor, accepts_anchored]
    refine ⟨⟨head, hsame⟩, hlen.symm.le, ?_⟩
    rw [← hlen, List.take_length]
    exact hsame
  · intro hagree
    rw [← hlen, List.take_length] at hagree
    exact hdiff (sameEntry_middle hagree)

/-- Whatever the columns hold that is accepted against the anchor of a log agrees with the log, exactly where some timestamp of the
log does not come back as it was given, and so nothing is accepted, or no text of the log is the word for nothing or the literal of
bytes. -/
theorem tamper_evidence_iff (hsha : Function.Injective env.sha256) (calls : List AuditCall) (hformat : ∀ c ∈ calls, c.formatVersion = 2) :
    (∀ t' : AuditTable, (∀ r ∈ t', env.Held r) →
        Accepts (env.verifyAuditIntegrity t' (some (env.written calls).getAuditAnchor) none) →
          List.Forall₂ SameEntry (env.written calls) (t'.take (env.written calls).length)) ↔
      (∃ c ∈ calls.filter stored, ¬env.Kept c.timestamp) ∨
        ∀ c ∈ calls.filter stored, ∀ s ∈ [c.actor, c.role, c.action, c.details], Plain s := by
  obtain ⟨head, hwrote⟩ := @wrote_written env calls
  have hformat' : ∀ c ∈ calls.filter stored, c.formatVersion = 2 := fun c hc => hformat c (List.mem_of_mem_filter hc)
  constructor
  · intro hevidence
    by_contra hneither
    obtain ⟨hall, hplain⟩ := not_or.mp hneither
    have hkept : ∀ c ∈ calls.filter stored, env.Kept c.timestamp := by
      intro c hc
      by_contra hnot
      exact hall ⟨c, hc, hnot⟩
    obtain ⟨t', hheld, hacc, hdiff⟩ := exists_forged_table hwrote hkept hplain
    exact hdiff (hevidence t' hheld hacc)
  · intro hcond t' hheld hacc
    have halike := alike_of_accepts hsha hwrote hformat' hacc
    have hheld' : ∀ r ∈ t'.take (env.written calls).length, env.Held r := fun r hr => hheld r (List.mem_of_mem_take hr)
    rcases hcond with ⟨c, hc, hnot⟩ | hplain
    · exact absurd (kept_of_alike hwrote.rows halike hheld' c hc) hnot
    · exact sameEntry_of_alike hwrote.rows halike hheld' hplain

instance (r : AuditRow) : Decidable (env.Held r) :=
  decidable_of_iff (env.realColumn r.timestamp = r.timestamp ∧ env.textColumn r.actor = r.actor ∧ env.textColumn r.role = r.role ∧
      env.textColumn r.action = r.action ∧ env.textColumn r.details = r.details)
    ⟨fun ⟨h₁, h₂, h₃, h₄, h₅⟩ => ⟨h₁, h₂, h₃, h₄, h₅⟩, fun ⟨h₁, h₂, h₃, h₄, h₅⟩ => ⟨h₁, h₂, h₃, h₄, h₅⟩⟩

instance (r r' : AuditRow) : Decidable (SameEntry r r') := inferInstanceAs (Decidable (_ ∧ _))

theorem plain_of_head {s : String} (hnone : s ≠ "None") (hhead : s.toList.head? ≠ some 'b') : Plain s := by
  refine ⟨hnone, ?_⟩
  rintro b rfl
  exact hhead (by simp [bytesRepr])

/-- The functions that are left open, with a hash that no two messages share. -/
def openAudit : AuditEnv where
  sha256 := id
  ofInt n := .dec (Decimal.ofParts (n < 0) n.natAbs 0)
  parseFloat _ := .error ⟨"ValueError", "could not convert string to float"⟩
  fixed6 x := x.repr
  numeric _ := none
  realText x := reprFloat x

/-- A key is issued, by someone of this name, at one and a half. -/
def keyIssued (actor : String) : AuditCall := ⟨actor, "ADMIN", "KEY", "", .float (.dec (Decimal.ofParts false 15 (-1))), 2⟩

/-- A log of one entry, and the same log under another id, which is accepted. -/
theorem tamper_evidence_renumbered :
    List.Forall₂ SameEntry (openAudit.written [keyIssued "al"])
      (((openAudit.written [keyIssued "al"]).map (fun r => { r with entryId := 7 })).take (openAudit.written [keyIssued "al"]).length) := by
  refine (@tamper_evidence_iff openAudit (fun _ _ h => h) [keyIssued "al"] (by decide +kernel)).mpr (.inr ?_) _
    (by decide +kernel) (by decide +kernel)
  intro c hc s hs
  obtain rfl : c = keyIssued "al" := List.mem_singleton.mp (List.mem_of_mem_filter hc)
  simp only [keyIssued, List.mem_cons, List.not_mem_nil, or_false] at hs
  rcases hs with rfl | rfl | rfl | rfl
  all_goals exact plain_of_head (by decide) (by decide)

/-- The log of an entry by someone called None, and the table with nothing in the place of the name. -/
theorem tamper_evidence_false :
    ¬∀ env : AuditEnv, Function.Injective env.sha256 → ∀ calls : List AuditCall, (∀ c ∈ calls, c.formatVersion = 2) →
      ∀ t' : AuditTable, (∀ r ∈ t', env.Held r) →
        Accepts (env.verifyAuditIntegrity t' (some (env.written calls).getAuditAnchor) none) →
          List.Forall₂ SameEntry (env.written calls) (t'.take (env.written calls).length) := by
  intro h
  have hagree := h openAudit (fun _ _ h => h) [keyIssued "None"] (by decide +kernel)
    ((openAudit.written [keyIssued "None"]).map (fun r => { r with actor := .null })) (by decide +kernel) (by decide +kernel)
  revert hagree
  decide +kernel

/-! ## Honest logs -/

/-- What is done with the log: a call of `append_audit`, of `log_audit` or of `anchor_audit_batch`, or the store is opened again, which
leaves the rows as they are. -/
inductive AuditOp where
  | append (c : AuditCall)
  | log (action actor role details : String) (timestamp : Stamp)
  | anchor (batchSize : Int) (now : Float64)
  | reopen

/-- The table after an operation. -/
def applyOp (env : AuditEnv) (t : AuditTable) : AuditOp → AuditTable
  | .append c => (env.appendAudit t c).2
  | .log action actor role details timestamp => (env.logAudit t action actor role details timestamp).2
  | .anchor batchSize now => (env.anchorAuditBatch t batchSize now).2
  | .reopen => t

/-- The table after operations. -/
def runOps (env : AuditEnv) (ops : List AuditOp) : AuditTable := ops.foldl env.applyOp []

/-- A number that a column of type REAL gives back: it is one, and it is not a negative zero. -/
def FloatKept (x : Float64) : Prop := x ≠ .nan ∧ x ≠ .dec ⟨true, 0, 0, zero_normal⟩

/-- A timestamp that is hashed again as it was hashed: an integer only in the first format, which hashes it as a floating-point
number. -/
def StampKept (formatVersion : Int) : Stamp → Prop
  | .int _ => formatVersion = 1
  | .float x => FloatKept x

/-- The timestamp of an operation is hashed again as it was hashed. -/
def OpKept : AuditOp → Prop
  | .append c => StampKept c.formatVersion c.timestamp
  | .log _ _ _ _ timestamp => StampKept 2 timestamp
  | .anchor _ now => FloatKept now
  | .reopen => True

/-- The table is a chain to its last hash. -/
structure Chained (env : AuditEnv) (t : AuditTable) (head : String) : Prop where
  chain : chain env.link GENESIS_HASH t = some head
  head : t.getLatestAuditHash = .text head

theorem realColumn_kept {x : Float64} (h : FloatKept x) : env.realColumn (.real x) = .real x := by
  obtain ⟨hnan, hzero⟩ := h
  cases x with
  | nan => exact absurd rfl hnan
  | inf neg => rfl
  | dec d =>
    obtain ⟨neg, mant, exp, canon⟩ := d
    by_cases hmant : mant = 0
    · have hexp : exp = 0 := by
        rcases canon with h | h
        · simp [hmant] at h
        · exact h.2
      subst hmant hexp
      cases neg with
      | false => rfl
      | true => exact absurd rfl hzero
    · simp [realColumn, hmant]

/-- A row of a call whose timestamp is kept hashes as the call did. -/
theorem link_claimed {r : AuditRow} {c : AuditCall} (hrow : env.RowOf r c) (hkept : StampKept c.formatVersion c.timestamp)
    (head : String) : env.link head r = env.link head (claimed r c) := by
  cases hstamp : c.timestamp with
  | int n =>
    rw [hstamp] at hkept
    have hts : r.timestamp = .real (env.ofInt n) := by
      rw [hrow.timestamp, hstamp]
      rfl
    have hversion : r.version = .int 1 := by
      rw [version_int hrow.formatVersion]
      exact congrArg AuditCell.int hkept
    have hversion' : (claimed r c).version = .int 1 := hversion
    have hclaimed : (claimed r c).timestamp = .int n := by rw [claimed, hstamp]; rfl
    have hhash : r.rowHash env = (claimed r c).rowHash env := by
      simp only [AuditRow.rowHash, computeAuditHash, hversion, hversion', hts, hclaimed, AuditCell.toFloat]
      rfl
    rw [link, link, hhash]
    rfl
  | float x =>
    rw [hstamp] at hkept
    have hts : r.timestamp = c.timestamp.cell := by
      rw [hrow.timestamp, hstamp]
      exact realColumn_kept hkept
    rw [claimed, ← hts]

theorem Chained.append {t : AuditTable} {head : String} (h : env.Chained t head) {c : AuditCall}
    (hkept : StampKept c.formatVersion c.timestamp) :
    ∃ rows head', (env.appendAudit t c).2 = t ++ rows ∧ env.Chained (t ++ rows) head' := by
  obtain ⟨hstored, hnot⟩ := @appendAudit_eq env t head h.head c
  rcases hc : stored c with _ | _
  · exact ⟨[], head, by rw [hnot hc, List.append_nil], by rwa [List.append_nil]⟩
  · obtain ⟨row, k, happend, hrow, hlink⟩ := hstored hc
    rw [← link_claimed hrow hkept] at hlink
    refine ⟨[row], k, by rw [happend], ?_, ?_⟩
    · rw [chain_concat, h.chain]
      exact hlink
    · have hentry : row.entryHash = .text k := (link_eq_some.mp hlink).2.2
      simpa [AuditTable.getLatestAuditHash] using hentry

/-- A batch is anchored by a row of its own, or its rows have no hashes and there is none. -/
theorem anchorAuditBatch_table (t : AuditTable) (batchSize : Int) (now : Lib.Float64) :
    (env.anchorAuditBatch t batchSize now).2 = t ∨ ∃ details, (env.anchorAuditBatch t batchSize now).2 =
      (env.appendAudit t ⟨"security_subsystem", "ADMIN", "MERKLE_BATCH_ANCHOR", details, .float now, 2⟩).2 := by
  unfold anchorAuditBatch
  rcases batchLeaves t batchSize with e | leaves
  · exact .inl rfl
  · refine .inr ⟨s!"count={leaves.length} root={env.computeRoot leaves}", ?_⟩
    simp only [logAudit]
    split
    · rename_i h
      rw [h]
    · rename_i h
      rw [h]

/-- An operation adds rows to the chain. -/
theorem Chained.applyOp {t : AuditTable} {head : String} (h : env.Chained t head) {op : AuditOp} (hkept : OpKept op) :
    ∃ rows head', env.applyOp t op = t ++ rows ∧ env.Chained (t ++ rows) head' := by
  have hsame : ∃ rows head', t = t ++ rows ∧ env.Chained (t ++ rows) head' :=
    ⟨[], head, by rw [List.append_nil], by rwa [List.append_nil]⟩
  cases op with
  | append c => exact h.append hkept
  | log action actor role details timestamp => exact Chained.append (c := ⟨actor, role, action, details, timestamp, 2⟩) h hkept
  | anchor batchSize now =>
    rcases env.anchorAuditBatch_table t batchSize now with htable | ⟨details, htable⟩
    · rw [AuditEnv.applyOp, htable]
      exact hsame
    · rw [AuditEnv.applyOp, htable]
      exact h.append hkept
  | reopen => exact hsame

/-- Operations add rows to the chain. -/
theorem Chained.foldl {t : AuditTable} {head : String} (h : env.Chained t head) {ops : List AuditOp} (hkept : ∀ op ∈ ops, OpKept op) :
    ∃ rows head', ops.foldl env.applyOp t = t ++ rows ∧ env.Chained (t ++ rows) head' := by
  induction ops generalizing t head with
  | nil => exact ⟨[], head, by simp, by rwa [List.append_nil]⟩
  | cons op ops ih =>
    obtain ⟨rows, head₁, hop, h₁⟩ := h.applyOp (hkept op (by simp))
    obtain ⟨rows', head₂, hops, h₂⟩ := ih h₁ (fun op' hop' => hkept op' (by simp [hop']))
    refine ⟨rows ++ rows', head₂, ?_, ?_⟩
    · rw [List.foldl_cons, hop, hops, List.append_assoc]
    · rwa [← List.append_assoc]

theorem chained_nil : env.Chained [] GENESIS_HASH := ⟨rfl, rfl⟩

/-- A row of a copy hashes as the row of the table. -/
theorem chain_export (head : String) (t : AuditTable) :
    chain env.link head (exportAuditProof t).entries = chain env.link head t := by
  have hlink : ∀ (r : AuditRow) (h : String),
      env.link h { r with formatVersion := if r.formatVersion = .null then .int 1 else r.formatVersion } = env.link h r := by
    intro r h
    refine @link_congr env r { r with formatVersion := if r.formatVersion = .null then .int 1 else r.formatVersion }
      rfl rfl rfl rfl rfl rfl rfl ?_ h
    by_cases hnull : r.formatVersion = .null
    · simp [AuditRow.version, hnull]
    · simp [AuditRow.version, hnull]
  induction t generalizing head with
  | nil => rfl
  | cons r t ih =>
    simp only [exportAuditProof, List.map_cons, chain_cons, hlink] at ih ⊢
    cases env.link head r with
    | none => rfl
    | some k => exact ih k

theorem getLast_export (t : AuditTable) :
    (exportAuditProof t).entries.getLast?.map (·.entryHash) = t.getLast?.map (·.entryHash) := by
  simp only [exportAuditProof, List.getLast?_map, Option.map_map]
  rfl

/-- A copy says of itself what its rows say. -/
theorem declaredFault_export (t : AuditTable) : declaredFault (exportAuditProof t) = none := by
  have hlen : (exportAuditProof t).entries.length = t.length := by simp [exportAuditProof]
  unfold declaredFault
  rw [getLast_export, hlen]
  simp [exportAuditProof, AuditTable.getLatestAuditHash, Option.filter]

/-- The copy of a chain is accepted with the anchor of the chain. -/
theorem Chained.accepts_standalone {t : AuditTable} {head : String} (h : env.Chained t head) :
    Accepts (env.verifyStandaloneProof (exportAuditProof t) (some t.getAuditAnchor)) := by
  have hlast := getLast_export t
  have hfollow : env.followRows "prev" (.text GENESIS_HASH) (exportAuditProof t).entries = .ok none := by
    rw [followRows_none, chain_export]
    exact ⟨head, h.chain⟩
  unfold verifyStandaloneProof
  rw [declaredFault_export]
  cases hentries : (exportAuditProof t).entries.getLast? with
  | none =>
    have hempty : t = [] := by simpa [exportAuditProof] using hentries
    subst hempty
    exact ⟨_, rfl, rfl⟩
  | some last =>
    rw [hentries] at hlast
    have hhash : last.entryHash = t.getLatestAuditHash := by
      rw [AuditTable.getLatestAuditHash, ← hlast]
      rfl
    have hlen : ((exportAuditProof t).entries.length : Int) = t.length := by simp [exportAuditProof]
    have hfault : proofAnchorFault (exportAuditProof t).entries last t.getAuditAnchor = .ok none := by
      simp [proofAnchorFault, AuditTable.getAuditAnchor, hlen, hhash]
    have hgenesis : (exportAuditProof t).genesisHash = .text GENESIS_HASH := rfl
    simp only [Option.elim, hfault, bind, Except.bind, reportProof, hgenesis, hfollow, Except.map]
    exact ⟨_, rfl, rfl⟩

/-- A log is accepted in all three ways, whatever was done with it, where every timestamp is hashed again as it was hashed. -/
theorem honest_log_accepted (env : AuditEnv) (ops : List AuditOp) (hkept : ∀ op ∈ ops, OpKept op) :
    Accepts (env.verifyAuditIntegrity (env.runOps ops) none none) ∧
      (∀ earlier later, ops = earlier ++ later →
        Accepts (env.verifyAuditIntegrity (env.runOps ops) (some (env.runOps earlier).getAuditAnchor) none)) ∧
      Accepts (env.verifyStandaloneProof (exportAuditProof (env.runOps ops)) (some (env.runOps ops).getAuditAnchor)) := by
  obtain ⟨rows, head, hrun, hchained⟩ := chained_nil.foldl hkept
  rw [← hrun] at hchained
  refine ⟨(accepts_unanchored _).mpr ⟨head, hchained.chain⟩, ?_, hchained.accepts_standalone⟩
  rintro earlier later rfl
  obtain ⟨rows₁, head₁, hrun₁, hchained₁⟩ := chained_nil.foldl (fun op hop => hkept op (List.mem_append_left later hop))
  rw [← hrun₁] at hchained₁
  obtain ⟨rows₂, head₂, hrun₂, -⟩ := hchained₁.foldl (fun op hop => hkept op (List.mem_append_right earlier hop))
  have hsplit : env.runOps (earlier ++ later) = env.runOps earlier ++ rows₂ := by
    rw [runOps, List.foldl_append, hrun₂]
    rfl
  have hanchor : (env.runOps earlier).getAuditAnchor = (((env.runOps earlier).length : Int), .text head₁) := by
    unfold AuditTable.getAuditAnchor
    rw [← hchained₁.head]
    rfl
  rw [hanchor, accepts_anchored]
  refine ⟨⟨head, hchained.chain⟩, ?_, ?_⟩
  · rw [hsplit, List.length_append]
    omega
  · rw [hsplit, List.take_left]
    exact hchained₁.chain

/-- The functions that are left open, with SHA-256 as the hash. -/
def sqliteAudit : AuditEnv := { openAudit with sha256 := Lib.sha256 }

/-- A key is issued, an anchor of the batch is logged, and the store is opened again. -/
def issuedOps : List AuditOp :=
  [.append (keyIssued "al"), .anchor 10 (.dec (Decimal.ofParts false 25 (-1))), .reopen]

/-- The log of these operations, with the anchor that was taken after the first. -/
theorem honest_log_issued : OpKept (.append (keyIssued "al")) ∧
    Accepts (sqliteAudit.verifyAuditIntegrity (sqliteAudit.runOps issuedOps)
      (some (sqliteAudit.runOps [.append (keyIssued "al")]).getAuditAnchor) none) := by
  have hkept : ∀ x : Lib.Float64, x = .dec (Decimal.ofParts false 15 (-1)) ∨ x = .dec (Decimal.ofParts false 25 (-1)) →
      FloatKept x := by
    rintro x (rfl | rfl)
    · exact ⟨by decide, by decide⟩
    · exact ⟨by decide, by decide⟩
  have hops : ∀ op ∈ issuedOps, OpKept op := by
    intro op hop
    simp only [issuedOps, List.mem_cons, List.not_mem_nil, or_false] at hop
    rcases hop with rfl | rfl | rfl
    · exact hkept _ (.inl rfl)
    · exact hkept _ (.inr rfl)
    · exact trivial
  exact ⟨hkept _ (.inl rfl), (honest_log_accepted sqliteAudit issuedOps hops).2.1 [.append (keyIssued "al")] _ rfl⟩

/-- A timestamp that is finite, with one of the two formats. -/
def OpFinite : AuditOp → Prop
  | .append c => (∀ x, c.timestamp = .float x → x ≠ .nan ∧ ∀ neg, x ≠ .inf neg) ∧ (c.formatVersion = 1 ∨ c.formatVersion = 2)
  | .log _ _ _ _ timestamp => ∀ x, timestamp = .float x → x ≠ .nan ∧ ∀ neg, x ≠ .inf neg
  | .anchor _ now => now ≠ .nan ∧ ∀ neg, now ≠ .inf neg
  | .reopen => True

/-- An entry at the integer one thousand, in the second format. -/
theorem honest_log_accepted_false :
    ¬∀ (env : AuditEnv) (ops : List AuditOp), (∀ op ∈ ops, OpFinite op) →
      Accepts (env.verifyAuditIntegrity (env.runOps ops) none none) ∧
        (∀ earlier later, ops = earlier ++ later →
          Accepts (env.verifyAuditIntegrity (env.runOps ops) (some (env.runOps earlier).getAuditAnchor) none)) ∧
        Accepts (env.verifyStandaloneProof (exportAuditProof (env.runOps ops)) (some (env.runOps ops).getAuditAnchor)) := by
  intro h
  have hops : ∀ op ∈ [AuditOp.append ⟨"al", "ADMIN", "KEY", "", .int 1000, 2⟩], OpFinite op := by
    intro op hop
    obtain rfl := List.mem_singleton.mp hop
    exact ⟨by simp, .inr rfl⟩
  have hacc := (h sqliteAudit _ hops).1
  revert hacc
  decide +kernel

end AuditEnv

end Mdrap
