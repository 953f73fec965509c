import Mathlib.Algebra.Order.Field.Rat
import Mdrap.Lemmas.ApiKeys

/-!
# Revocation

A key that is revoked by its token stays inactive, in memory and over restarts, where the table holds a row under the salted hash of
the token, or none under the unsalted one and no environment gives the token again. A key that was migrated by a lookup has its row
under the unsalted hash still, and the revocation, which asks for the salted one, does not reach it. A rotation takes a key that is
not active for one that is.
-/

namespace Mdrap

namespace Security

open Lib

variable {V : Type} {env : KeyEnv V}

namespace KeyState

variable {token : String} {s : KeyState V}

/-- What a lookup by a barred token finds is inactive. -/
theorem Barred.getByToken (hkept : Kept env token s) (h : Barred env token s) {e : ClientEntitlement V}
    (hfound : (s.keys.getByToken env token).1 = some e) : e.isActive = false := by
  unfold KeyStore.getByToken at hfound
  split at hfound
  · cases hfound
  · split at hfound
    · rename_i e' he'
      cases hfound
      exact h.inactive _ (Dict.mem_of_get? (Option.filter_eq_some_iff.mp he').1) rfl
    · rename_i hnone
      split at hfound
      · rename_i e' he'
        have hin : s.keys.contains (env.sha256 token) = true := Dict.contains_eq_true_iff.mpr ⟨e', he'⟩
        rcases h.gone with hsalted | hgone
        · obtain ⟨e'', he''⟩ := Dict.contains_eq_true_iff.mp hsalted
          have hhash : e''.tokenHash = env.hashApiKey token := hkept.keyed _ (Dict.mem_of_get? he'')
          simp [he'', hhash] at hnone
        · rw [hin] at hgone
          cases hgone
      · cases hfound

/-- A token that no key is found by is barred: no row is under a hash of it. -/
theorem barred_of_unknown (hkept : Kept env token s) (htoken : token ≠ "") (hnone : (s.keys.getByToken env token).1 = none) :
    Barred env token s := by
  obtain ⟨hsalted, hunsalted⟩ := (getByToken_none hnone).2 htoken
  have hnotSalted : s.keys.contains (env.hashApiKey token) ≠ true := by
    intro hin
    obtain ⟨e, he⟩ := Dict.contains_eq_true_iff.mp hin
    have hhash : e.tokenHash = env.hashApiKey token := hkept.keyed _ (Dict.mem_of_get? he)
    simp [he, hhash] at hsalted
  have hnotUnsalted : s.keys.contains (env.sha256 token) = false := by simp [Dict.contains, hunsalted]
  refine ⟨?_, .inr hnotUnsalted, ?_, .inr ?_⟩
  · intro kv hkv heq
    exact absurd (heq ▸ Dict.contains_of_mem hkv) hnotSalted
  · exact fun r hr heq => absurd (hkept.loaded ⟨r, hr, heq⟩) hnotSalted
  · intro r hr heq
    rcases hkept.loadedOld ⟨r, hr, heq⟩ with hin | hin
    · exact hnotSalted hin
    · rw [hin] at hnotUnsalted
      cases hnotUnsalted

/-- A revocation by the token bars it, where the table holds a row under the salted hash or none under the unsalted one. -/
theorem barred_of_revoked (hfree : Unshared env token) (hkept : Kept env token s) (htoken : token ≠ "")
    (hrevoked : (revokeApiKey env s token).1 = .ok true)
    (hstored : (∃ r ∈ s.rows, r.tokenHash = env.hashApiKey token) ∨ ∀ r ∈ s.rows, r.tokenHash ≠ env.sha256 token) :
    Barred env token (revokeApiKey env s token).2 := by
  rcases hlookup : (s.keys.getByToken env token).1 with _ | e
  · exact (barred_of_unknown hkept htoken hlookup).changes hfree not_false hkept
      (@revokeApiKey_changes V env token (fun _ => False) s hfree hkept token)
  · obtain ⟨hchanges, hfound⟩ := @getByToken_spec V env token (fun _ => True) hfree s token
    have hkept' := hkept.changes hfree hchanges
    have hmem := hfound e hlookup
    have hhash : e.tokenHash = env.hashApiKey token := hkept'.keyed _ hmem
    have hpair : s.keys.getByToken env token = (some e, (s.keys.getByToken env token).2) := by rw [← hlookup]
    have heq : revokeApiKey env s token =
        revokeFound env { s with keys := (s.keys.getByToken env token).2 } token (env.hashApiKey token, e) := by
      unfold revokeApiKey KeyStore.getByTokenOrHash
      rw [hpair]
    rw [heq] at hrevoked ⊢
    unfold revokeFound at hrevoked ⊢
    have htext : storedAs e token = env.hashApiKey token := by
      rw [storedAs, hhash, if_neg (hfree.salted_ne token)]
    simp only [htext] at hrevoked ⊢
    split at hrevoked
    · cases hrevoked
    · rename_i rows hrows
      obtain ⟨hashes, rfl, hin⟩ := revokeRows_spec hrows
      have hhashes : env.hashApiKey token ∈ hashes := by
        refine hin ?_
        intro r hr hname
        have hlen := hkept.rowsShort r hr
        rw [hname, hfree.saltedLength] at hlen
        omega
      refine ⟨?_, .inl ?_, ?_, ?_⟩
      · intro kv hkv hkey
        rcases Dict.eq_or_mem_of_mem_set hkv with rfl | ⟨-, hne⟩
        · rfl
        · exact absurd hkey hne
      · simp [Dict.contains_set]
      · intro r hr hrow
        obtain ⟨r', -, hsame, -, -, hactive⟩ := mem_deactivate hr
        exact hactive (by rw [← hsame, hrow]; exact hhashes)
      · rcases hstored with hrow | hnone
        · exact .inl (exists_deactivate.mpr hrow)
        · refine .inr ?_
          intro r hr hrow
          obtain ⟨r', hr', hsame⟩ := exists_deactivate.mp ⟨r, hr, hrow⟩
          exact hnone r' hr' hsame

/-! ## Runs -/

/-- No key is registered for the token. -/
def Unregistered (env : KeyEnv V) (token : String) (s : KeyState V) (op : KeyOp V) : Prop := ∀ t ∈ registered env s op, t ≠ token

/-- A restart finds a row under the salted hash of the token, or is not given the token by its environment; and where the token is
given to a rotation, no key goes by it. -/
def Harmless (env : KeyEnv V) (token : String) (s : KeyState V) : KeyOp V → Prop
  | .restart environ _ => (∃ r ∈ s.rows, r.tokenHash = env.hashApiKey token) ∨ token ∉ environ.tokens env
  | .rotate c => c.tokenOrClientId = token → (findRotated env s.keys token).1 = none
  | _ => True

/-- An operation, other than a registration, that is given nothing but the token. -/
def GivenAlone (token : String) : KeyOp V → Prop
  | .register _ => False
  | .getEntitlement text _ _ => text = token
  | .authenticate text _ => text = token
  | .revoke text => text = token
  | .rotate c => c.tokenOrClientId = token
  | .cleanup _ => True
  | .restart _ _ => True

theorem Kept.step (hfree : Unshared env token) (hkept : Kept env token s) (op : KeyOp V) : Kept env token (step env s op) := by
  rcases @step_changes V env token (fun _ => True) s hfree hkept op (fun _ _ => trivial) with hchanges | ⟨environ, now, rfl⟩
  · exact hkept.changes hfree hchanges
  · exact Kept.start hfree hkept.rowsShort environ now

theorem Kept.run (hfree : Unshared env token) (hkept : Kept env token s) (ops : List (KeyOp V)) :
    Kept env token (runFrom (KeyState.step env) s ops) := by
  induction ops generalizing s with
  | nil => exact hkept
  | cons op ops ih => exact ih (hkept.step hfree op)

theorem Barred.step (hfree : Unshared env token) (hkept : Kept env token s) (h : Barred env token s) {op : KeyOp V}
    (hregistered : Unregistered env token s op) (hharmless : Harmless env token s op) : Barred env token (step env s op) := by
  rcases @step_changes V env token (fun t => t ≠ token) s hfree hkept op hregistered with hchanges | ⟨environ, now, rfl⟩
  · exact h.changes hfree (not_not.mpr rfl) hkept hchanges
  · exact h.start hfree hkept environ now hharmless

/-- What a run keeps of a token that is barred. -/
theorem Barred.run (hfree : Unshared env token) (hkept : Kept env token s) (h : Barred env token s) {ops : List (KeyOp V)}
    (halong : Along (KeyState.step env) (fun s op => Unregistered env token s op ∧ Harmless env token s op) s ops) :
    Barred env token (runFrom (KeyState.step env) s ops) := by
  have hboth : Kept env token (runFrom (KeyState.step env) s ops) ∧ Barred env token (runFrom (KeyState.step env) s ops) :=
    halong.inv (I := fun s => Kept env token s ∧ Barred env token s)
      (fun s op hs hok => ⟨hs.1.step hfree op, hs.2.step hfree hs.1 hok.1 hok.2⟩) ⟨hkept, h⟩
  exact hboth.2

theorem authenticate_false (h : ∀ e, (s.keys.getByToken env token).1 = some e → e.isActive = false) (now : V) :
    (authenticate env s token now).1 = false := by
  simp only [authenticate, getEntitlement]
  cases hfound : (s.keys.getByToken env token).1 with
  | none => rfl
  | some e => simp [h e hfound]

/-- Nothing that is given the token alone hands out a key that is active. -/
theorem handed_inactive (hfree : Unshared env token) (hkept : Kept env token s)
    (h : ∀ e, (s.keys.getByToken env token).1 = some e → e.isActive = false) {op : KeyOp V} (halone : GivenAlone token op)
    (hharmless : Harmless env token s op) : ∀ e ∈ handed env s op, e.isActive = false := by
  intro e he
  cases op with
  | register c => exact absurd halone not_false
  | getEntitlement text activeOnly now =>
    obtain rfl : text = token := halone
    simp only [handed, getEntitlement, Option.mem_toList, Option.filter_eq_some_iff] at he
    exact h e he.1
  | authenticate text now => simp [handed] at he
  | revoke text => simp [handed] at he
  | rotate c =>
    have hnone := hharmless halone
    rcases @rotateApiKey_spec V env token (fun _ => True) s hfree hkept c with ⟨-, hrotate, -⟩ | ⟨new, old, s', heq, -⟩
    · simp [handed, hrotate] at he
    · have hfound : rotateApiKey env s c = (.error ⟨"KeyError", s!"No active API key found for identifier: {c.tokenOrClientId}"⟩,
          { s with keys := (findRotated env s.keys c.tokenOrClientId).2 }) := by
        have htext : c.tokenOrClientId = token := halone
        rw [← htext] at hnone
        have hpair : findRotated env s.keys c.tokenOrClientId = (none, (findRotated env s.keys c.tokenOrClientId).2) := by
          rw [← hnone]
        unfold rotateApiKey
        rw [hpair]
      rw [hfound] at heq
      cases heq
  | cleanup now => simp [handed] at he
  | restart environ now => simp [handed] at he

/-- A token that was revoked is not authenticated any more, and nothing that is given it alone hands out an active key: in every run
in which the table holds a row under its salted hash when it is revoked, or none under the unsalted one, and whose later steps are
harmless. -/
theorem revocation_final (hfree : Unshared env token) {rows : KeyTable V} (hrows : ∀ r ∈ rows, r.keyPrefix.length ≤ 15)
    (environ : Environ) (now : V) (before after : List (KeyOp V))
    (hrevoked : (revokeApiKey env (runFrom (KeyState.step env) (start env rows environ now) before) token).1 = .ok true)
    (hstored : (∃ r ∈ (runFrom (KeyState.step env) (start env rows environ now) before).rows, r.tokenHash = env.hashApiKey token) ∨
      ∀ r ∈ (runFrom (KeyState.step env) (start env rows environ now) before).rows, r.tokenHash ≠ env.sha256 token)
    (hafter : Along (KeyState.step env) (fun s op => Unregistered env token s op ∧ Harmless env token s op)
      (runFrom (KeyState.step env) (start env rows environ now) (before ++ [.revoke token])) after) :
    (∀ later, (authenticate env (runFrom (KeyState.step env) (start env rows environ now) (before ++ .revoke token :: after))
        token later).1 = false) ∧
      ∀ op, GivenAlone token op →
        Harmless env token (runFrom (KeyState.step env) (start env rows environ now) (before ++ .revoke token :: after)) op →
          ∀ e ∈ handed env (runFrom (KeyState.step env) (start env rows environ now) (before ++ .revoke token :: after)) op,
            e.isActive = false := by
  have hkept := (Kept.start hfree hrows environ now).run hfree before
  have hkept' := (Kept.start hfree hrows environ now).run hfree (before ++ .revoke token :: after)
  have hinactive : ∀ e, ((runFrom (KeyState.step env) (start env rows environ now)
      (before ++ .revoke token :: after)).keys.getByToken env token).1 = some e → e.isActive = false := by
    intro e he
    by_cases htoken : token = ""
    · rw [htoken] at he
      simp [KeyStore.getByToken] at he
    · have hbarred := barred_of_revoked hfree hkept htoken hrevoked hstored
      have hsplit : before ++ .revoke token :: after = (before ++ [.revoke token]) ++ after := by simp
      rw [hsplit, runFrom_append] at he hkept'
      have hstep : runFrom (KeyState.step env) (start env rows environ now) (before ++ [.revoke token]) =
          (revokeApiKey env (runFrom (KeyState.step env) (start env rows environ now) before) token).2 := by
        rw [runFrom_append]
        rfl
      rw [hstep] at hafter he hkept'
      have hkeptRevoked := hkept.step hfree (.revoke token)
      exact Barred.getByToken hkept' (hbarred.run hfree hkeptRevoked hafter) he
  exact ⟨fun later => authenticate_false hinactive later,
    fun op halone hharmless => handed_inactive hfree hkept' hinactive halone hharmless⟩

/-! ### A token, and a store from before there was a salt -/

def exampleToken : String := "mdrap_live_k1"

/-- The hashes of the token, with the salt `salt` and without one; any other text has another. -/
def exampleEnv : KeyEnv (Option ℚ) where
  hashApiKey x :=
    if x = exampleToken then "3659e44457b95e229403194eefe6f4f4aff39ec6297d8b33613c0f90dea48914"
    else "zzzzzzzzzzzzzzzzzzzzzzzzzzzzzzzzzzzzzzzzzzzzzzzzzzzzzzzzzzzzzzzz"
  sha256 x :=
    if x = exampleToken then "8e334db1c6ce8f025e4fd1913b113168c172543fb9a3bc4a0b61ca925862641c"
    else "yyyyyyyyyyyyyyyyyyyyyyyyyyyyyyyyyyyyyyyyyyyyyyyyyyyyyyyyyyyyyyyy"
  storeHash x :=
    if x = exampleToken then "3659e44457b95e229403194eefe6f4f4aff39ec6297d8b33613c0f90dea48914"
    else "zzzzzzzzzzzzzzzzzzzzzzzzzzzzzzzzzzzzzzzzzzzzzzzzzzzzzzzzzzzzzzzz"
  upper x := x.toUpper
  blank x := x.toList.all Char.isWhitespace
  clock := Floats.exact id (fun _ => 0)

theorem exampleEnv_unshared : Unshared exampleEnv exampleToken := by
  refine ⟨?_, ?_, ?_, ?_, ?_⟩
  · intro x hx
    by_contra hne
    simp only [exampleEnv, if_neg hne, if_true] at hx
    revert hx
    decide +kernel
  · intro x hx
    by_contra hne
    simp only [exampleEnv, if_neg hne, if_true] at hx
    revert hx
    decide +kernel
  · intro x y
    simp only [exampleEnv]
    split
    · split
      · decide +kernel
      · decide +kernel
    · split
      · decide +kernel
      · decide +kernel
  · intro x
    simp only [exampleEnv]
    split
    · decide +kernel
    · decide +kernel
  · intro x
    simp only [exampleEnv]
    split
    · decide +kernel
    · decide +kernel

/-- Nothing in the environment. -/
def bareEnviron : Environ := ⟨false, [], "", false, ""⟩

/-- A key of the desk, with the token. -/
def registerDesk : KeyOp (Option ℚ) :=
  .register ⟨"desk", "VIEWER", some exampleToken, none, [], [], [], fun _ => "", some 1⟩

/-- The key is registered and revoked, and the store is opened again. -/
theorem revocation_final_desk :
    (authenticate exampleEnv (runFrom (KeyState.step exampleEnv) (start exampleEnv [] bareEnviron (some 0))
      ([registerDesk] ++ .revoke exampleToken :: [.restart bareEnviron (some 2)])) exampleToken (some 3)).1 = false := by
  refine (revocation_final exampleEnv_unshared (by simp) bareEnviron (some 0) [registerDesk] [.restart bareEnviron (some 2)]
    (by decide +kernel) (.inl ?_) ?_).1 (some 3)
  · decide +kernel
  · refine ⟨⟨by simp [Unregistered, registered], .inl ?_⟩, trivial⟩
    decide +kernel

/-- The row of a key from before there was a salt. -/
def unsaltedRow : KeyRow (Option ℚ) :=
  ⟨exampleEnv.sha256 exampleToken, tokenPrefix exampleToken, "", "desk", "VIEWER", true, some 0, none, [], [], []⟩

/-- A key under the unsalted hash is revoked, and is active again after a restart. -/
theorem revocation_final_false :
    ¬∀ (V : Type) (env : KeyEnv V) (token : String), Unshared env token →
      ∀ rows : KeyTable V, (∀ r ∈ rows, r.keyPrefix.length ≤ 15) → ∀ (environ : Environ) (now : V) (before after : List (KeyOp V)),
        (revokeApiKey env (runFrom (KeyState.step env) (start env rows environ now) before) token).1 = .ok true →
          Along (KeyState.step env) (Unregistered env token)
              (runFrom (KeyState.step env) (start env rows environ now) (before ++ [.revoke token])) after →
            (∀ later, (authenticate env (runFrom (KeyState.step env) (start env rows environ now)
                (before ++ .revoke token :: after)) token later).1 = false) ∧
              ∀ op, GivenAlone token op →
                ∀ e ∈ handed env (runFrom (KeyState.step env) (start env rows environ now) (before ++ .revoke token :: after)) op,
                  e.isActive = false := by
  intro h
  have hfinal := (h (Option ℚ) exampleEnv exampleToken exampleEnv_unshared [unsaltedRow] (by decide +kernel) bareEnviron (some 0) []
    [.restart bareEnviron (some 2)] (by decide +kernel) ⟨by simp [Unregistered, registered], trivial⟩).1 (some 3)
  revert hfinal
  decide +kernel

end KeyState

end Security

end Mdrap
