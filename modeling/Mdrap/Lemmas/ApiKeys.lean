import Mdrap.Security.ApiKeys

/-!
# What is done to the keys

Every operation but a restart is a chain of five changes: a key moves to its salted hash, a key is altered in its place, a new key
comes in, a key is saved, and rows become inactive. What the keys and the table have to do with each other is kept by each of them,
and so is a token's being barred: its key is inactive wherever it is, and no row is left that a restart would read it from.
-/

namespace Mdrap

namespace Security

open Lib

variable {V : Type} {env : KeyEnv V}

namespace KeyState

/-- What the operations do to the keys; a new key is for a token that is allowed. -/
inductive Change (env : KeyEnv V) (allowed : String → Prop) : KeyState V → KeyState V → Prop
  | migrate {s : KeyState V} (key : String) (e : ClientEntitlement V)
      (hnone : (s.keys.get? (env.hashApiKey key)).filter (fun e => e.tokenHash = env.hashApiKey key) = none)
      (hold : s.keys.get? (env.sha256 key) = some e) : Change env allowed s { s with keys := s.keys.migrate env key e }
  | alter {s : KeyState V} (kv : KeptKey V) (e : ClientEntitlement V) (hmem : kv ∈ s.keys.items)
      (hhash : e.tokenHash = kv.1) (hname : e.keyPrefix.length ≤ 15)
      (hactive : kv.2.isActive = false → e.isActive = false) : Change env allowed s { s with keys := s.keys.set kv.1 e }
  | insert {s : KeyState V} (token : String) (e : ClientEntitlement V) (hallowed : allowed token)
      (hhash : e.tokenHash = env.hashApiKey token) (hname : e.keyPrefix = tokenPrefix token) :
      Change env allowed s { s with keys := s.keys.set (env.hashApiKey token) e }
  | save {s : KeyState V} (kv : KeptKey V) (e : ClientEntitlement V) (hmem : kv ∈ s.keys.items)
      (hname : e.keyPrefix.length ≤ 15) (hactive : kv.2.isActive = false → e.isActive = false) :
      Change env allowed s { s with rows := s.rows.filter (fun r => r.tokenHash ≠ kv.1) ++ [KeyTable.rowOf kv.1 e] }
  | deactivate {s : KeyState V} (hashes : List String) :
      Change env allowed s { s with rows := KeyTable.deactivate hashes s.rows }

/-- Changes, one after the other. -/
abbrev Changes (env : KeyEnv V) (allowed : String → Prop) : KeyState V → KeyState V → Prop :=
  Relation.ReflTransGen (Change env allowed)

/-- No other text has a hash of the token, and the two kinds of hashes, of sixty-four characters, have nothing in common. -/
structure Unshared (env : KeyEnv V) (token : String) : Prop where
  salted : ∀ x, env.hashApiKey x = env.hashApiKey token → x = token
  unsalted : ∀ x, env.sha256 x = env.sha256 token → x = token
  apart : ∀ x y, env.hashApiKey x ≠ env.sha256 y
  saltedLength : ∀ x, (env.hashApiKey x).length = 64
  unsaltedLength : ∀ x, (env.sha256 x).length = 64

/-- What holds of the keys and the table in every run. -/
structure Kept (env : KeyEnv V) (token : String) (s : KeyState V) : Prop where
  keyed : ∀ kv ∈ s.keys.items, kv.2.tokenHash = kv.1
  named : ∀ kv ∈ s.keys.items, kv.1 ≠ ""
  short : ∀ kv ∈ s.keys.items, kv.2.keyPrefix.length ≤ 15
  rowsShort : ∀ r ∈ s.rows, r.keyPrefix.length ≤ 15
  loaded : (∃ r ∈ s.rows, r.tokenHash = env.hashApiKey token) → s.keys.contains (env.hashApiKey token) = true
  loadedOld : (∃ r ∈ s.rows, r.tokenHash = env.sha256 token) →
    s.keys.contains (env.hashApiKey token) = true ∨ s.keys.contains (env.sha256 token) = true
  rowOld : s.keys.contains (env.sha256 token) = true → ∃ r ∈ s.rows, r.tokenHash = env.sha256 token

/-- A token whose key is inactive wherever it is, and which no row would bring back. -/
structure Barred (env : KeyEnv V) (token : String) (s : KeyState V) : Prop where
  inactive : ∀ kv ∈ s.keys.items, kv.1 = env.hashApiKey token → kv.2.isActive = false
  gone : s.keys.contains (env.hashApiKey token) = true ∨ s.keys.contains (env.sha256 token) = false
  rowInactive : ∀ r ∈ s.rows, r.tokenHash = env.hashApiKey token → r.isActive = false
  rowGone : (∃ r ∈ s.rows, r.tokenHash = env.hashApiKey token) ∨ ∀ r ∈ s.rows, r.tokenHash ≠ env.sha256 token

/-! ## Texts -/

theorem length_firstChars (n : Nat) (s : String) : (firstChars n s).length ≤ n := by
  simp [firstChars, String.length_ofList]

theorem length_firstChars_dots (s : String) : (firstChars 12 s ++ "...").length ≤ 15 := by
  have h := length_firstChars 12 s
  rw [String.length_append]
  exact Nat.add_le_add_right h 3

theorem length_tokenPrefix (token : String) : (tokenPrefix token).length ≤ 15 := by
  unfold tokenPrefix
  split
  · exact length_firstChars_dots token
  · omega

theorem length_rowOf (tokenHash : String) {e : ClientEntitlement V} (h : e.keyPrefix.length ≤ 15) :
    (KeyTable.rowOf tokenHash e).keyPrefix.length ≤ 15 := by
  simp only [KeyTable.rowOf]
  split
  · exact h
  · split
    · exact length_tokenPrefix _
    · exact length_firstChars_dots _

theorem length_loadRow {r : KeyRow V} (h : r.keyPrefix.length ≤ 15) : (KeyTable.loadRow r).keyPrefix.length ≤ 15 := by
  simp only [KeyTable.loadRow]
  split
  · exact length_tokenPrefix _
  · exact h

namespace Unshared

variable {token : String}

theorem salted_ne (h : Unshared env token) (x : String) : env.hashApiKey x ≠ "" := by
  intro hx
  have hlen := h.saltedLength x
  rw [hx] at hlen
  simp at hlen

theorem unsalted_ne (h : Unshared env token) (x : String) : env.sha256 x ≠ "" := by
  intro hx
  have hlen := h.unsaltedLength x
  rw [hx] at hlen
  simp at hlen

theorem hash_ne (h : Unshared env token) {x : String} (hx : x ≠ token) : env.hashApiKey x ≠ env.hashApiKey token :=
  fun heq => hx (h.salted x heq)

end Unshared

/-! ## Rows -/

theorem mem_deactivate {hashes : List String} {rows : KeyTable V} {r : KeyRow V} (h : r ∈ KeyTable.deactivate hashes rows) :
    ∃ r' ∈ rows, r.tokenHash = r'.tokenHash ∧ r.keyPrefix = r'.keyPrefix ∧ (r'.isActive = false → r.isActive = false) ∧
      (r'.tokenHash ∈ hashes → r.isActive = false) := by
  obtain ⟨r', hr', rfl⟩ := List.mem_map.mp h
  refine ⟨r', hr', ?_⟩
  by_cases hmem : r'.tokenHash ∈ hashes
  · simp [hmem]
  · simp [hmem]

theorem exists_deactivate {hashes : List String} {rows : KeyTable V} {k : String} :
    (∃ r ∈ KeyTable.deactivate hashes rows, r.tokenHash = k) ↔ ∃ r ∈ rows, r.tokenHash = k := by
  constructor
  · rintro ⟨r, hr, rfl⟩
    obtain ⟨r', hr', hhash, -⟩ := mem_deactivate hr
    exact ⟨r', hr', hhash.symm⟩
  · rintro ⟨r, hr, rfl⟩
    refine ⟨_, List.mem_map_of_mem hr, ?_⟩
    split
    · rfl
    · rfl

/-- The rows after a key was saved. -/
theorem exists_saved {rows : KeyTable V} {k k' : String} {e : ClientEntitlement V} :
    (∃ r ∈ rows.filter (fun r => r.tokenHash ≠ k) ++ [KeyTable.rowOf k e], r.tokenHash = k') ↔
      k' = k ∨ ∃ r ∈ rows, r.tokenHash = k' := by
  simp only [List.mem_append, List.mem_filter, List.mem_singleton, decide_eq_true_eq]
  constructor
  · rintro ⟨r, ⟨hr, -⟩ | rfl, rfl⟩
    · exact .inr ⟨r, hr, rfl⟩
    · exact .inl rfl
  · intro h
    by_cases hk : k' = k
    · exact ⟨_, .inr rfl, hk.symm⟩
    · obtain ⟨r, hr, hhash⟩ := h.resolve_left hk
      exact ⟨r, .inl ⟨hr, by rwa [hhash]⟩, hhash⟩

/-! ## What the changes keep -/

variable {token : String} {allowed : String → Prop} {s s' : KeyState V}

/-- A key that moves. -/
theorem mem_migrate {keys : KeyStore V} {key : String} {e : ClientEntitlement V} {kv : KeptKey V}
    (h : kv ∈ (keys.migrate env key e).items) : kv = (env.hashApiKey key, KeyStore.salted env key e) ∨ kv ∈ keys.items :=
  Dict.mem_of_mem_set (Dict.mem_of_mem_erase h)

theorem contains_migrate (keys : KeyStore V) (key k : String) (e : ClientEntitlement V) :
    (keys.migrate env key e).contains k = (!decide (k = env.sha256 key) && (decide (k = env.hashApiKey key) || keys.contains k)) := by
  rw [KeyStore.migrate, Dict.contains_erase, Dict.contains_set]

theorem Kept.change (hfree : Unshared env token) (h : Kept env token s) (hchange : Change env allowed s s') : Kept env token s' := by
  cases hchange with
  | migrate key e hnone hold =>
    have hmem := Dict.mem_of_get? hold
    have hsalted : (s.keys.migrate env key e).contains (env.hashApiKey token) =
        (decide (token = key) || s.keys.contains (env.hashApiKey token)) := by
      rw [contains_migrate]
      have happart := hfree.apart token key
      have hsame : env.hashApiKey token = env.hashApiKey key ↔ token = key :=
        ⟨fun heq => (hfree.salted key heq.symm).symm, fun heq => by rw [heq]⟩
      simp [happart, hsame]
    have hunsalted : (s.keys.migrate env key e).contains (env.sha256 token) =
        (!decide (token = key) && s.keys.contains (env.sha256 token)) := by
      rw [contains_migrate]
      have happart : env.sha256 token ≠ env.hashApiKey key := fun heq => hfree.apart key token heq.symm
      have hsame : env.sha256 token = env.sha256 key ↔ token = key :=
        ⟨fun heq => (hfree.unsalted key heq.symm).symm, fun heq => by rw [heq]⟩
      simp [happart, hsame]
    refine ⟨?_, ?_, ?_, h.rowsShort, ?_, ?_, ?_⟩
    · intro kv hkv
      rcases mem_migrate hkv with rfl | hkv
      · rfl
      · exact h.keyed kv hkv
    · intro kv hkv
      rcases mem_migrate hkv with rfl | hkv
      · exact hfree.salted_ne key
      · exact h.named kv hkv
    · intro kv hkv
      rcases mem_migrate hkv with rfl | hkv
      · exact h.short (env.sha256 key, e) hmem
      · exact h.short kv hkv
    · intro hrow
      simp [hsalted, h.loaded hrow]
    · intro hrow
      by_cases hkey : token = key
      · exact .inl (by rw [hsalted, decide_eq_true hkey, Bool.true_or])
      · rcases h.loadedOld hrow with hin | hin
        · simp [hsalted, hin]
        · simp [hunsalted, hkey, hin]
    · intro hin
      simp only [hunsalted, Bool.and_eq_true] at hin
      exact h.rowOld hin.2
  | alter kv e hmem hhash hname hactive =>
    refine ⟨?_, ?_, ?_, h.rowsShort, ?_, ?_, ?_⟩
    · intro kv' hkv'
      rcases Dict.mem_of_mem_set hkv' with rfl | hkv'
      · exact hhash
      · exact h.keyed kv' hkv'
    · intro kv' hkv'
      rcases Dict.mem_of_mem_set hkv' with rfl | hkv'
      · exact h.named kv hmem
      · exact h.named kv' hkv'
    · intro kv' hkv'
      rcases Dict.mem_of_mem_set hkv' with rfl | hkv'
      · exact hname
      · exact h.short kv' hkv'
    · intro hrow
      simp [Dict.contains_set, h.loaded hrow]
    · intro hrow
      rcases h.loadedOld hrow with hin | hin
      · simp [Dict.contains_set, hin]
      · simp [Dict.contains_set, hin]
    · intro hin
      rw [Dict.contains_set, Bool.or_eq_true, decide_eq_true_eq] at hin
      rcases hin with hsame | hin
      · exact h.rowOld (hsame ▸ Dict.contains_of_mem hmem)
      · exact h.rowOld hin
  | insert tok e hallowed hhash hname =>
    refine ⟨?_, ?_, ?_, h.rowsShort, ?_, ?_, ?_⟩
    · intro kv hkv
      rcases Dict.mem_of_mem_set hkv with rfl | hkv
      · exact hhash
      · exact h.keyed kv hkv
    · intro kv hkv
      rcases Dict.mem_of_mem_set hkv with rfl | hkv
      · exact hfree.salted_ne tok
      · exact h.named kv hkv
    · intro kv hkv
      rcases Dict.mem_of_mem_set hkv with rfl | hkv
      · rw [hname]
        exact length_tokenPrefix tok
      · exact h.short kv hkv
    · intro hrow
      simp [Dict.contains_set, h.loaded hrow]
    · intro hrow
      rcases h.loadedOld hrow with hin | hin
      · simp [Dict.contains_set, hin]
      · simp [Dict.contains_set, hin]
    · intro hin
      rw [Dict.contains_set, Bool.or_eq_true, decide_eq_true_eq] at hin
      exact h.rowOld (hin.resolve_left (fun hsame => hfree.apart tok token hsame.symm))
  | save kv e hmem hname hactive =>
    refine ⟨h.keyed, h.named, h.short, ?_, ?_, ?_, ?_⟩
    · intro r hr
      simp only [List.mem_append, List.mem_filter, List.mem_singleton] at hr
      rcases hr with ⟨hr, -⟩ | rfl
      · exact h.rowsShort r hr
      · exact length_rowOf kv.1 hname
    · intro hrow
      rcases exists_saved.mp hrow with hsame | hrow
      · exact hsame ▸ Dict.contains_of_mem hmem
      · exact h.loaded hrow
    · intro hrow
      rcases exists_saved.mp hrow with hsame | hrow
      · exact .inr (hsame ▸ Dict.contains_of_mem hmem)
      · exact h.loadedOld hrow
    · exact fun hin => exists_saved.mpr (.inr (h.rowOld hin))
  | deactivate hashes =>
    refine ⟨h.keyed, h.named, h.short, ?_, ?_, ?_, ?_⟩
    · intro r hr
      obtain ⟨r', hr', -, hname, -⟩ := mem_deactivate hr
      rw [hname]
      exact h.rowsShort r' hr'
    · exact fun hrow => h.loaded (exists_deactivate.mp hrow)
    · exact fun hrow => h.loadedOld (exists_deactivate.mp hrow)
    · exact fun hin => exists_deactivate.mpr (h.rowOld hin)

theorem Kept.changes (hfree : Unshared env token) (h : Kept env token s) (hchanges : Changes env allowed s s') : Kept env token s' := by
  induction hchanges with
  | refl => exact h
  | tail _ hchange ih => exact ih.change hfree hchange

/-- A barred token stays barred where no new key is for it. -/
theorem Barred.change (hfree : Unshared env token) (hallowed : ¬allowed token) (hkept : Kept env token s) (h : Barred env token s)
    (hchange : Change env allowed s s') : Barred env token s' := by
  cases hchange with
  | migrate key e hnone hold =>
    have hkey : key ≠ token := by
      rintro rfl
      have hin : s.keys.contains (env.sha256 key) = true := Dict.contains_eq_true_iff.mpr ⟨e, hold⟩
      rcases h.gone with hsalted | hgone
      · obtain ⟨e', he'⟩ := Dict.contains_eq_true_iff.mp hsalted
        have hhash : e'.tokenHash = env.hashApiKey key := hkept.keyed _ (Dict.mem_of_get? he')
        simp [he', hhash] at hnone
      · rw [hin] at hgone
        cases hgone
    refine ⟨?_, ?_, h.rowInactive, h.rowGone⟩
    · intro kv hkv heq
      rcases mem_migrate hkv with rfl | hkv
      · exact absurd heq (hfree.hash_ne hkey)
      · exact h.inactive kv hkv heq
    · have happart := hfree.apart token key
      have happart' : env.sha256 token ≠ env.hashApiKey key := fun heq => hfree.apart key token heq.symm
      rcases h.gone with hin | hgone
      · exact .inl (by simp [contains_migrate, happart, hin])
      · exact .inr (by simp [contains_migrate, happart', hgone])
  | alter kv e hmem hhash hname hactive =>
    refine ⟨?_, ?_, h.rowInactive, h.rowGone⟩
    · intro kv' hkv' heq
      rcases Dict.mem_of_mem_set hkv' with rfl | hkv'
      · exact hactive (h.inactive kv hmem heq)
      · exact h.inactive kv' hkv' heq
    · rcases h.gone with hin | hgone
      · exact .inl (by simp [Dict.contains_set, hin])
      · have hne : env.sha256 token ≠ kv.1 := by
          intro heq
          rw [heq, Dict.contains_of_mem hmem] at hgone
          cases hgone
        exact .inr (by simp [Dict.contains_set, hne, hgone])
  | insert tok e hin hhash hname =>
    have htok : tok ≠ token := fun heq => hallowed (heq ▸ hin)
    have happart : env.sha256 token ≠ env.hashApiKey tok := fun heq => hfree.apart tok token heq.symm
    refine ⟨?_, ?_, h.rowInactive, h.rowGone⟩
    · intro kv hkv heq
      rcases Dict.mem_of_mem_set hkv with rfl | hkv
      · exact absurd heq (hfree.hash_ne htok)
      · exact h.inactive kv hkv heq
    · rcases h.gone with hin | hgone
      · exact .inl (by simp [Dict.contains_set, hin])
      · exact .inr (by simp [Dict.contains_set, happart, hgone])
  | save kv e hmem hname hactive =>
    refine ⟨h.inactive, h.gone, ?_, ?_⟩
    · intro r hr heq
      simp only [List.mem_append, List.mem_filter, List.mem_singleton] at hr
      rcases hr with ⟨hr, -⟩ | rfl
      · exact h.rowInactive r hr heq
      · exact hactive (h.inactive kv hmem heq)
    · rcases h.rowGone with hrow | hgone
      · exact .inl (exists_saved.mpr (.inr hrow))
      · refine .inr ?_
        intro r hr heq
        rcases exists_saved.mp ⟨r, hr, heq⟩ with hsame | ⟨r', hr', heq'⟩
        · obtain ⟨r', hr', heq'⟩ := hkept.rowOld (hsame ▸ Dict.contains_of_mem hmem)
          exact hgone r' hr' heq'
        · exact hgone r' hr' heq'
  | deactivate hashes =>
    refine ⟨h.inactive, h.gone, ?_, ?_⟩
    · intro r hr heq
      obtain ⟨r', hr', hhash, -, hactive, -⟩ := mem_deactivate hr
      exact hactive (h.rowInactive r' hr' (hhash ▸ heq))
    · rcases h.rowGone with hrow | hgone
      · exact .inl (exists_deactivate.mpr hrow)
      · refine .inr ?_
        intro r hr heq
        obtain ⟨r', hr', heq'⟩ := exists_deactivate.mp ⟨r, hr, heq⟩
        exact hgone r' hr' heq'

theorem Barred.changes (hfree : Unshared env token) (hallowed : ¬allowed token) (hkept : Kept env token s) (h : Barred env token s)
    (hchanges : Changes env allowed s s') : Barred env token s' := by
  induction hchanges with
  | refl => exact h
  | tail hbefore hchange ih => exact ih.change hfree hallowed (hkept.changes hfree hbefore) hchange

/-! ## What the operations do -/

theorem mem_set_self (keys : KeyStore V) (k : String) (e : ClientEntitlement V) : (k, e) ∈ (keys.set k e).items :=
  Dict.mem_of_get? (keys.get?_set_self k e)

/-- A lookup by a token moves its key, or changes nothing; what it finds is kept under the salted hash. -/
theorem getByToken_spec (hfree : Unshared env token) (s : KeyState V) (key : String) :
    Changes env allowed s { s with keys := (s.keys.getByToken env key).2 } ∧
      ∀ e, (s.keys.getByToken env key).1 = some e → (env.hashApiKey key, e) ∈ (s.keys.getByToken env key).2.items := by
  unfold KeyStore.getByToken
  split
  · exact ⟨.refl, by simp⟩
  · split
    · rename_i e he
      refine ⟨.refl, ?_⟩
      rintro e' ⟨⟩
      exact Dict.mem_of_get? (Option.filter_eq_some_iff.mp he).1
    · rename_i hnone
      split
      · rename_i e he
        refine ⟨.single (.migrate key e hnone he), ?_⟩
        rintro e' ⟨⟩
        refine Dict.mem_of_get? ?_
        rw [KeyStore.migrate, Dict.get?_erase, if_neg (hfree.apart key key), Dict.get?_set_self]
      · exact ⟨.refl, by simp⟩

/-- A token without a key. -/
theorem getByToken_none {keys : KeyStore V} {key : String} (h : (keys.getByToken env key).1 = none) :
    (keys.getByToken env key).2 = keys ∧ (key ≠ "" →
      (keys.get? (env.hashApiKey key)).filter (fun e => e.tokenHash = env.hashApiKey key) = none ∧
        keys.get? (env.sha256 key) = none) := by
  unfold KeyStore.getByToken at h ⊢
  by_cases hkey : key = ""
  · simp [hkey]
  · simp only [if_neg hkey] at h ⊢
    split at h
    · cases h
    · rename_i hnone
      split at h
      · cases h
      · rename_i hold
        simp [hnone, hold]

theorem getByTokenOrHash_spec (hfree : Unshared env token) (s : KeyState V) (key : String) :
    Changes env allowed s { s with keys := (s.keys.getByTokenOrHash env key).2 } ∧
      ∀ kv, (s.keys.getByTokenOrHash env key).1 = some kv → kv ∈ (s.keys.getByTokenOrHash env key).2.items := by
  obtain ⟨hchanges, hfound⟩ := @getByToken_spec _ env token allowed hfree s key
  unfold KeyStore.getByTokenOrHash
  rcases hlookup : s.keys.getByToken env key with ⟨_ | e, keys⟩
  · rw [hlookup] at hchanges
    refine ⟨hchanges, ?_⟩
    intro kv hkv
    obtain ⟨e, he, rfl⟩ := Option.map_eq_some_iff.mp hkv
    exact Dict.mem_of_get? he
  · rw [hlookup] at hchanges hfound
    refine ⟨hchanges, ?_⟩
    rintro kv ⟨⟩
    exact hfound e rfl

theorem findIdentified_mem {keys : KeyStore V} {text : String} {kv : KeptKey V} (h : keys.findIdentified text = .ok (some kv)) :
    kv ∈ keys.items := by
  unfold KeyStore.findIdentified at h
  split at h
  · rename_i hfind
    cases h
    exact List.mem_of_find?_eq_some hfind
  · split at h
    · cases h
    · rename_i hfilter
      cases h
      have hmem : kv ∈ [kv] := List.mem_singleton_self kv
      rw [← hfilter] at hmem
      exact List.mem_of_mem_filter hmem
    · rw [Except.ok.injEq] at h
      exact List.mem_of_find?_eq_some h

/-- The table deactivates rows, and those of the hash that it is given unless it is some key's prefix. -/
theorem revokeRows_spec {rows rows' : KeyTable V} {text : String} {b : Bool} (h : rows.revokeApiKey env text = .ok (b, rows')) :
    ∃ hashes, rows' = KeyTable.deactivate hashes rows ∧ ((∀ r ∈ rows, r.keyPrefix ≠ text) → text ∈ hashes) := by
  unfold KeyTable.revokeApiKey at h
  simp only at h
  split at h
  · cases h
  · rw [Except.ok.injEq, Prod.mk.injEq] at h
    refine ⟨_, h.2.symm, ?_⟩
    intro hname
    have hnone : rows.filter (fun r => r.keyPrefix = text && r.isActive) = [] := by
      rw [List.filter_eq_nil_iff]
      intro r hr
      simp [hname r hr]
    simp [hnone]

theorem revokeFound_changes (hkept : Kept env token s) {kv : KeptKey V} (hmem : kv ∈ s.keys.items) (text : String) :
    Changes env allowed s (revokeFound env s text kv).2 := by
  unfold revokeFound
  split
  · exact .refl
  · rename_i rows hrows
    obtain ⟨hashes, rfl, -⟩ := revokeRows_spec hrows
    exact .tail (.single (.deactivate hashes))
      (.alter kv { kv.2 with isActive := false } hmem (hkept.keyed kv hmem) (hkept.short kv hmem) (fun _ => rfl))

theorem revokeApiKey_changes (hfree : Unshared env token) (hkept : Kept env token s) (text : String) :
    Changes env allowed s (revokeApiKey env s text).2 := by
  obtain ⟨hchanges, hfound⟩ := @getByTokenOrHash_spec _ env token allowed hfree s text
  have hkept' := hkept.changes hfree hchanges
  unfold revokeApiKey
  rcases hlookup : s.keys.getByTokenOrHash env text with ⟨_ | kv, keys⟩
  · rw [hlookup] at hchanges hkept'
    simp only
    split
    · exact hchanges
    · exact hchanges
    · rename_i hidentified
      exact hchanges.trans (revokeFound_changes hkept' (findIdentified_mem hidentified) text)
  · rw [hlookup] at hchanges hkept' hfound
    exact hchanges.trans (revokeFound_changes hkept' (hfound kv rfl) text)

/-- An entitlement with a hash is saved under it. -/
theorem saveApiKey_ok (rows : KeyTable V) {e : ClientEntitlement V} (h : e.tokenHash ≠ "") :
    rows.saveApiKey env e = .ok (rows.filter (fun r => r.tokenHash ≠ e.tokenHash) ++ [KeyTable.rowOf e.tokenHash e]) := by
  simp [KeyTable.saveApiKey, h]

/-- A new key comes in under the hash of its token, and is saved. -/
theorem registerApiKey_spec (hfree : Unshared env token) (s : KeyState V) (c : RegisterCall V) :
    ∃ e rows, registerApiKey env s c = (.ok e, ⟨s.keys.set e.tokenHash e, rows⟩) ∧ e.token = tokenFor s.keys c.draws c.token ∧
      e.tokenHash = env.hashApiKey e.token ∧ e.keyPrefix = tokenPrefix e.token ∧
      (allowed e.token → Changes env allowed s ⟨s.keys.set e.tokenHash e, rows⟩) := by
  have hsave := @saveApiKey_ok V env s.rows (newEntitlement env c (tokenFor s.keys c.draws c.token))
    (hfree.salted_ne (tokenFor s.keys c.draws c.token))
  refine ⟨newEntitlement env c (tokenFor s.keys c.draws c.token),
    s.rows.filter (fun r => r.tokenHash ≠ env.hashApiKey (tokenFor s.keys c.draws c.token)) ++
      [KeyTable.rowOf (env.hashApiKey (tokenFor s.keys c.draws c.token))
        (newEntitlement env c (tokenFor s.keys c.draws c.token))], ?_, rfl, rfl, rfl, ?_⟩
  · simp only [registerApiKey, hsave]
    rfl
  · intro hallowed
    exact .tail (.single (.insert _ (newEntitlement env c (tokenFor s.keys c.draws c.token)) hallowed rfl rfl))
      (.save (_, newEntitlement env c (tokenFor s.keys c.draws c.token)) (newEntitlement env c (tokenFor s.keys c.draws c.token))
        (mem_set_self _ _ _) (length_tokenPrefix _) id)

theorem findRotated_spec (hfree : Unshared env token) (s : KeyState V) (text : String) :
    Changes env allowed s { s with keys := (findRotated env s.keys text).2 } ∧
      ∀ kv, (findRotated env s.keys text).1 = some kv → kv ∈ (findRotated env s.keys text).2.items := by
  obtain ⟨hchanges, hfound⟩ := @getByTokenOrHash_spec _ env token allowed hfree s text
  unfold findRotated
  rcases hlookup : s.keys.getByTokenOrHash env text with ⟨_ | kv, keys⟩
  · rw [hlookup] at hchanges
    exact ⟨hchanges, fun kv hkv => List.mem_of_find?_eq_some hkv⟩
  · rw [hlookup] at hchanges hfound
    refine ⟨hchanges, ?_⟩
    rintro kv' ⟨⟩
    exact hfound kv rfl

/-- A key that is saved and then altered in its place. -/
theorem saved_changes (kv : KeptKey V) (hmem : kv ∈ s.keys.items) {e : ClientEntitlement V} (hhash : e.tokenHash = kv.1)
    (hname : e.keyPrefix.length ≤ 15) (hactive : kv.2.isActive = false → e.isActive = false) :
    Changes env allowed s
      ⟨s.keys.set kv.1 e, s.rows.filter (fun r => r.tokenHash ≠ kv.1) ++ [KeyTable.rowOf kv.1 e]⟩ :=
  .tail (.single (.save kv e hmem hname hactive)) (.alter kv e hmem hhash hname hactive)

/-- The new key of a rotation comes in, and it is handed to the caller with the old one. -/
theorem rotateTo_spec (hfree : Unshared env token) (s : KeyState V) (old : ClientEntitlement V) (c : RotateCall V) :
    ∃ new s', rotateTo env s old c = (.ok (new, old), s') ∧ (allowed new.token → Changes env allowed s s') := by
  obtain ⟨new, rows, heq, -, hhash, hname, hchanges⟩ := @registerApiKey_spec V env token allowed hfree s
    ⟨old.clientId, old.role.value, c.newToken, none, [], [], [], c.draws, c.now⟩
  have hne : new.tokenHash ≠ "" := by
    rw [hhash]
    exact hfree.salted_ne new.token
  have hsave := @saveApiKey_ok V env rows { new with allowedCidrs := old.allowedCidrs } hne
  refine ⟨{ new with allowedCidrs := old.allowedCidrs }, ⟨(s.keys.set new.tokenHash new).set new.tokenHash
      { new with allowedCidrs := old.allowedCidrs }, rows.filter (fun r => r.tokenHash ≠ new.tokenHash) ++
        [KeyTable.rowOf new.tokenHash { new with allowedCidrs := old.allowedCidrs }]⟩, ?_, ?_⟩
  · unfold rotateTo
    rw [heq]
    simp only
    rw [hsave]
  · intro hallowed
    refine (hchanges hallowed).trans (saved_changes (new.tokenHash, new) (mem_set_self _ _ _) rfl ?_ id)
    rw [hname]
    exact length_tokenPrefix new.token

/-- A rotation, where the text means a key. -/
theorem rotateApiKey_spec (hfree : Unshared env token) (hkept : Kept env token s) (c : RotateCall V) :
    ((findRotated env s.keys c.tokenOrClientId).1 = none ∧ (rotateApiKey env s c).1.toOption = none ∧
        Changes env allowed s (rotateApiKey env s c).2) ∨
      ∃ new old s', rotateApiKey env s c = (.ok (new, old), s') ∧ (allowed new.token → Changes env allowed s s') := by
  obtain ⟨hchanges, hfound⟩ := @findRotated_spec _ env token allowed hfree s c.tokenOrClientId
  have hkept' := hkept.changes hfree hchanges
  unfold rotateApiKey
  rcases hlookup : findRotated env s.keys c.tokenOrClientId with ⟨_ | kv, keys⟩
  · rw [hlookup] at hchanges
    exact .inl ⟨rfl, rfl, hchanges⟩
  · rw [hlookup] at hchanges hkept' hfound
    refine .inr ?_
    have hmem := hfound kv rfl
    have hhash : (rotating env c kv.2).tokenHash = kv.1 := hkept'.keyed kv hmem
    have hsave := @saveApiKey_ok V env s.rows (rotating env c kv.2) (by rw [hhash]; exact hkept'.named kv hmem)
    obtain ⟨new, s', heq, hrotate⟩ := @rotateTo_spec V env token allowed hfree
      ⟨keys.set kv.1 (rotating env c kv.2), s.rows.filter (fun r => r.tokenHash ≠ (rotating env c kv.2).tokenHash) ++
        [KeyTable.rowOf (rotating env c kv.2).tokenHash (rotating env c kv.2)]⟩ (rotating env c kv.2) c
    refine ⟨new, rotating env c kv.2, s', ?_, ?_⟩
    · simp only
      rw [hsave]
      exact heq
    · intro hallowed
      rw [hhash] at hrotate
      exact (hchanges.trans (saved_changes kv hmem hhash (hkept'.short kv hmem) id)).trans (hrotate hallowed)

/-- The loop alters the keys that it was given. -/
theorem cleanupLoop_changes (now : V) (kvs : List (KeptKey V)) (count : Nat)
    (hkvs : ∀ kv ∈ kvs, kv.2.tokenHash = kv.1 ∧ kv.2.keyPrefix.length ≤ 15 ∧ s.keys.contains kv.1 = true) :
    Changes env allowed s (cleanupLoop env now kvs count s).2 := by
  induction kvs generalizing s count with
  | nil => exact .refl
  | cons kv kvs ih =>
    obtain ⟨hhash, hname, hin⟩ := hkvs kv List.mem_cons_self
    unfold cleanupLoop
    split
    · split
      · exact .refl
      · rename_i rows hrows
        obtain ⟨hashes, rfl, -⟩ := revokeRows_spec hrows
        obtain ⟨e, he⟩ := Dict.contains_eq_true_iff.mp hin
        have halter : Changes env allowed s
            ⟨s.keys.set kv.1 { kv.2 with isActive := false, isRotating := false }, KeyTable.deactivate hashes s.rows⟩ :=
          .tail (.single (.deactivate hashes)) (.alter (kv.1, e) { kv.2 with isActive := false, isRotating := false }
            (Dict.mem_of_get? he) hhash hname (fun _ => rfl))
        refine halter.trans (ih (count + 1) ?_)
        intro kv' hkv'
        obtain ⟨hhash', hname', hin'⟩ := hkvs kv' (List.mem_cons_of_mem _ hkv')
        exact ⟨hhash', hname', by simp [Dict.contains_set, hin']⟩
    · exact ih count (fun kv' hkv' => hkvs kv' (List.mem_cons_of_mem _ hkv'))

/-- Every operation but a restart is a chain of changes. -/
theorem step_changes (hfree : Unshared env token) (hkept : Kept env token s) (op : KeyOp V)
    (hallowed : ∀ t ∈ registered env s op, allowed t) :
    Changes env allowed s (step env s op) ∨ ∃ environ now, op = .restart environ now := by
  cases op with
  | register c =>
    obtain ⟨e, rows, heq, htoken, -, -, hchanges⟩ := @registerApiKey_spec V env token allowed hfree s c
    refine .inl ?_
    rw [step, heq]
    exact hchanges (hallowed _ (by simp [registered, htoken]))
  | getEntitlement text activeOnly now => exact .inl (getByToken_spec hfree s text).1
  | authenticate text now => exact .inl (getByToken_spec hfree s text).1
  | revoke text => exact .inl (revokeApiKey_changes hfree hkept text)
  | rotate c =>
    refine .inl ?_
    rcases @rotateApiKey_spec V env token allowed s hfree hkept c with ⟨-, -, hchanges⟩ | ⟨new, old, s', heq, hchanges⟩
    · exact hchanges
    · rw [step, heq]
      exact hchanges (hallowed _ (by simp [registered, heq, Except.toOption]))
  | cleanup now =>
    refine .inl (cleanupLoop_changes now s.keys.items 0 ?_)
    exact fun kv hkv => ⟨hkept.keyed kv hkv, hkept.short kv hkv, Dict.contains_of_mem hkv⟩
  | restart environ now => exact .inr ⟨environ, now, rfl⟩

/-! ## Starting -/

/-- A key of the environment. -/
theorem mem_givenKeys {given : List (String × String × Role)} {now : V} {kv : KeptKey V} (h : kv ∈ (givenKeys env given now).items) :
    ∃ g ∈ given, kv = (env.hashApiKey g.1, givenEntitlement env now g) := by
  induction given using List.reverseRecOn with
  | nil => simp [givenKeys, Dict.empty] at h
  | append_singleton given g ih =>
    rw [givenKeys, List.foldl_concat] at h
    rcases Dict.mem_of_mem_set h with rfl | hmem
    · exact ⟨g, by simp, rfl⟩
    · obtain ⟨g', hg', rfl⟩ := ih hmem
      exact ⟨g', by simp [hg'], rfl⟩

/-- A key is of a row, or it was there before and no row has its hash. -/
theorem mem_loadKeys {keys : KeyStore V} {rows : KeyTable V} {kv : KeptKey V} (h : kv ∈ (loadKeys keys rows).items) :
    (∃ r ∈ rows, r.tokenHash ≠ "" ∧ kv = (r.tokenHash, KeyTable.loadRow r)) ∨
      kv ∈ keys.items ∧ ∀ r ∈ rows, r.tokenHash ≠ "" → r.tokenHash ≠ kv.1 := by
  induction rows using List.reverseRecOn with
  | nil => exact .inr ⟨h, by simp⟩
  | append_singleton rows r ih =>
    by_cases hr : r.tokenHash = ""
    · have hsame : loadKeys keys (rows ++ [r]) = loadKeys keys rows := by simp [loadKeys, hr]
      rw [hsame] at h
      rcases ih h with ⟨r', hr', hload⟩ | ⟨hmem, hnone⟩
      · exact .inl ⟨r', by simp [hr'], hload⟩
      · refine .inr ⟨hmem, ?_⟩
        intro r' hr' hne
        rcases List.mem_append.mp hr' with hr' | hr'
        · exact hnone r' hr' hne
        · exact absurd (List.mem_singleton.mp hr' ▸ hr) hne
    · have hset : loadKeys keys (rows ++ [r]) = (loadKeys keys rows).set r.tokenHash (KeyTable.loadRow r) := by simp [loadKeys, hr]
      rw [hset] at h
      rcases Dict.eq_or_mem_of_mem_set h with rfl | ⟨hmem, hne⟩
      · exact .inl ⟨r, by simp, hr, rfl⟩
      · rcases ih hmem with ⟨r', hr', hload⟩ | ⟨hmem, hnone⟩
        · exact .inl ⟨r', by simp [hr'], hload⟩
        · refine .inr ⟨hmem, ?_⟩
          intro r' hr' hne'
          rcases List.mem_append.mp hr' with hr' | hr'
          · exact hnone r' hr' hne'
          · rw [List.mem_singleton.mp hr']
            exact fun heq => hne heq.symm

theorem contains_loadKeys (keys : KeyStore V) {rows : KeyTable V} {r : KeyRow V} (hr : r ∈ rows) (hne : r.tokenHash ≠ "") :
    (loadKeys keys rows).contains r.tokenHash = true := by
  induction rows using List.reverseRecOn with
  | nil => simp at hr
  | append_singleton rows r' ih =>
    by_cases hr' : r'.tokenHash = ""
    · have hsame : loadKeys keys (rows ++ [r']) = loadKeys keys rows := by simp [loadKeys, hr']
      rw [hsame]
      rcases List.mem_append.mp hr with hr | hr
      · exact ih hr
      · exact absurd (List.mem_singleton.mp hr ▸ hr') hne
    · have hset : loadKeys keys (rows ++ [r']) = (loadKeys keys rows).set r'.tokenHash (KeyTable.loadRow r') := by
        simp [loadKeys, hr']
      rw [hset, Dict.contains_set]
      rcases List.mem_append.mp hr with hr | hr
      · simp [ih hr]
      · simp [List.mem_singleton.mp hr]

theorem exists_item {keys : KeyStore V} {k : String} (h : keys.contains k = true) : ∃ kv ∈ keys.items, kv.1 = k := by
  obtain ⟨e, he⟩ := Dict.contains_eq_true_iff.mp h
  exact ⟨(k, e), Dict.mem_of_get? he, rfl⟩

theorem kept_load (hfree : Unshared env token) {rows : KeyTable V} (hrows : ∀ r ∈ rows, r.keyPrefix.length ≤ 15)
    (given : List (String × String × Role)) (now : V) : Kept env token ⟨loadKeys (givenKeys env given now) rows, rows⟩ := by
  refine ⟨?_, ?_, ?_, hrows, ?_, ?_, ?_⟩
  · intro kv hkv
    rcases mem_loadKeys hkv with ⟨r, -, -, rfl⟩ | ⟨hmem, -⟩
    · rfl
    · obtain ⟨g, -, rfl⟩ := mem_givenKeys hmem
      rfl
  · intro kv hkv
    rcases mem_loadKeys hkv with ⟨r, -, hne, rfl⟩ | ⟨hmem, -⟩
    · exact hne
    · obtain ⟨g, -, rfl⟩ := mem_givenKeys hmem
      exact hfree.salted_ne g.1
  · intro kv hkv
    rcases mem_loadKeys hkv with ⟨r, hr, -, rfl⟩ | ⟨hmem, -⟩
    · exact length_loadRow (hrows r hr)
    · obtain ⟨g, -, rfl⟩ := mem_givenKeys hmem
      exact length_firstChars_dots g.1
  · rintro ⟨r, hr, heq⟩
    rw [← heq]
    exact contains_loadKeys _ hr (by rw [heq]; exact hfree.salted_ne token)
  · rintro ⟨r, hr, heq⟩
    rw [← heq]
    exact .inr (contains_loadKeys _ hr (by rw [heq]; exact hfree.unsalted_ne token))
  · intro hin
    obtain ⟨kv, hkv, heq⟩ := exists_item hin
    rcases mem_loadKeys hkv with ⟨r, hr, -, rfl⟩ | ⟨hmem, -⟩
    · exact ⟨r, hr, heq⟩
    · obtain ⟨g, -, rfl⟩ := mem_givenKeys hmem
      exact absurd heq (hfree.apart g.1 token)

/-- The first administrator's key comes in where there is no other. -/
theorem bootstrap_changes (hfree : Unshared env token) (environ : Environ) (now : V)
    (hallowed : s.keys.items = [] → ∀ t ∈ environ.adminToken, allowed t) : Changes env allowed s (bootstrap env s environ now) := by
  unfold bootstrap
  split
  · rename_i hempty
    simp only [Bool.and_eq_true, List.isEmpty_iff] at hempty
    split
    · rename_i t ht
      obtain ⟨e, rows, heq, htoken, -, -, hchanges⟩ := @registerApiKey_spec V env token allowed hfree s
        ⟨"Initial_Administrator", "ADMIN", some t, none, [], [], [], fun _ => t, now⟩
      have hsame : e.token = t := by
        rw [htoken]
        simp only [tokenFor, drawToken]
        split
        · rfl
        · rfl
      rw [heq]
      exact hchanges (hsame ▸ hallowed hempty.2 t ht)
    · exact .refl
  · exact .refl

theorem Kept.start (hfree : Unshared env token) {rows : KeyTable V} (hrows : ∀ r ∈ rows, r.keyPrefix.length ≤ 15)
    (environ : Environ) (now : V) : Kept env token (start env rows environ now) :=
  (kept_load hfree hrows (environ.given env) now).changes hfree
    (@bootstrap_changes V env token (fun _ => True) _ hfree environ now (fun _ _ _ => trivial))

/-- A token that is barred stays so over a restart, where the table holds its salted hash or the environment does not give it. -/
theorem Barred.start (hfree : Unshared env token) (hkept : Kept env token s) (h : Barred env token s) (environ : Environ) (now : V)
    (hgiven : (∃ r ∈ s.rows, r.tokenHash = env.hashApiKey token) ∨ token ∉ environ.tokens env) :
    Barred env token (start env s.rows environ now) := by
  have hload := @kept_load V env token hfree s.rows hkept.rowsShort (environ.given env) now
  have hbarred : Barred env token ⟨loadKeys (givenKeys env (environ.given env) now) s.rows, s.rows⟩ := by
    refine ⟨?_, ?_, h.rowInactive, h.rowGone⟩
    · intro kv hkv heq
      rcases mem_loadKeys hkv with ⟨r, hr, -, rfl⟩ | ⟨hmem, hnone⟩
      · exact h.rowInactive r hr heq
      · obtain ⟨g, hg, rfl⟩ := mem_givenKeys hmem
        rcases hgiven with ⟨r, hr, hrow⟩ | hgiven
        · exact absurd (hrow.trans heq.symm) (hnone r hr (by rw [hrow]; exact hfree.salted_ne token))
        · have htoken := hfree.salted g.1 heq
          refine absurd ?_ hgiven
          rw [Environ.tokens, List.mem_append]
          exact .inl (htoken ▸ List.mem_map_of_mem hg)
    · rcases h.rowGone with hrow | hgone
      · exact .inl (hload.loaded hrow)
      · refine .inr (Bool.eq_false_iff.mpr ?_)
        intro hin
        obtain ⟨r, hr, heq⟩ := hload.rowOld hin
        exact hgone r hr heq
  refine hbarred.changes hfree (not_not.mpr rfl) hload
    (@bootstrap_changes V env token (fun t => t ≠ token) _ hfree environ now ?_)
  rintro hempty t ht rfl
  rcases hgiven with hrow | hgiven
  · have hin := hload.loaded hrow
    obtain ⟨kv, hkv, -⟩ := exists_item hin
    have hnil : kv ∈ (loadKeys (givenKeys env (environ.given env) now) s.rows).items := hkv
    rw [hempty] at hnil
    simp at hnil
  · refine hgiven ?_
    rw [Environ.tokens, List.mem_append]
    exact .inr (Option.mem_toList.mpr ht)

end KeyState

end Security

end Mdrap
