import Mdrap.Gateway.Symbology

/-!
# Resolving an id again

The id that a rule gives is mostly one that another rule, or the same one, takes back to the same instrument: an exchange's suffix, or a
ticker that stands for itself. It is not so for the indices and the futures of the directory. Their ids have no suffix that a rule
knows, and are no names of the directory; the second time they are tickers of the default venue.
-/

namespace Mdrap

open Lib

/-- The same instrument on the same venue. -/
def SameInstrument (info again : SymbolInfo) : Prop :=
  again.canonicalId = info.canonicalId ∧ again.ticker = info.ticker ∧ again.venueMic = info.venueMic ∧
    again.currency = info.currency ∧ again.country = info.country

instance (info again : SymbolInfo) : Decidable (SameInstrument info again) := inferInstanceAs (Decidable (_ ∧ _))

theorem SameInstrument.refl (info : SymbolInfo) : SameInstrument info info := ⟨rfl, rfl, rfl, rfl, rfl⟩

/-- What indices and futures are called: by their tickers, by an alias, and by their identifiers. -/
def indexAndFutureNames : List PyText :=
  ["NIFTY", "INX000000001", "BANKNIFTY", "INX000000002", "DAX", "DE0008469008", "N225", "NIKKEI", "XC0009692440", "ES", "CL",
    "BRENT"].map pyText

namespace UnicodeTables

/-- The id of what a text resolves to resolves to the same instrument. -/
def Stable (U : UnicodeTables) (s : PyText) : Prop :=
  SameInstrument (U.resolveSymbol s) (U.resolveSymbol (U.resolveSymbol s).canonicalId)

end UnicodeTables

/-! ## Names of the tables -/

/-- An entry by name, identifier or alias. -/
def tableMatch (raw : PyText) : Option SymbolInfo := ((directoryMatch raw).or (identifierMatch raw)).or (aliasMatch raw)

theorem knownSymbol_eq (raw : PyText) : knownSymbol raw = (tableMatch raw).or (suffixMatch raw) := rfl

/-- The names that are in a table. -/
def tableNames : List PyText :=
  globalSecurityDirectory.map (·.1) ++ globalSecurityDirectory.map (·.2.isin) ++ aliasesToTicker.map (·.1)

theorem mem_keys_of_lookup {A : Type} {l : List (PyText × A)} {k : PyText} {a : A} (h : l.lookup k = some a) : k ∈ l.map (·.1) := by
  induction l with
  | nil => cases h
  | cons kv l ih =>
    obtain ⟨k', a'⟩ := kv
    rw [List.lookup_cons] at h
    split at h
    · rename_i hk
      rw [eq_of_beq hk]
      exact List.mem_cons_self
    · exact List.mem_cons_of_mem _ (ih h)

theorem figi_nil : ∀ kv ∈ globalSecurityDirectory, kv.2.figi = [] := by decide

theorem mem_tableNames {raw : PyText} {info : SymbolInfo} (h : tableMatch raw = some info) : raw ∈ tableNames := by
  unfold tableNames
  rcases Option.or_eq_some_iff.mp h with h | ⟨-, h⟩
  · rcases Option.or_eq_some_iff.mp h with h | ⟨-, h⟩
    · exact List.mem_append_left _ (List.mem_append_left _ (mem_keys_of_lookup h))
    · -- no entry has a FIGI, so the identifier is an ISIN
      unfold identifierMatch at h
      split at h
      · have hmem := List.mem_of_find?_eq_some h
        have hfound := List.find?_some h
        obtain ⟨kv, hkv, rfl⟩ := List.mem_map.mp hmem
        have hisin : kv.2.isin = raw := by
          rcases of_decide_eq_true hfound with ⟨hne, -⟩ | ⟨-, hisin⟩
          · exact absurd (figi_nil kv hkv) hne
          · exact hisin
        exact List.mem_append_left _ (List.mem_append_right _ (hisin ▸ List.mem_map_of_mem hkv))
      · cases h
  · obtain ⟨mapped, hmapped, -⟩ := Option.bind_eq_some_iff.mp h
    exact List.mem_append_right _ (mem_keys_of_lookup hmapped)

/-- A text that stays as it is. -/
def isPlain (s : PyText) : Bool :=
  s.all (fun c => c < 128 ∧ ¬(97 ≤ c ∧ c ≤ 122)) && s.head?.all (fun c => !isWhite c) && s.getLast?.all (fun c => !isWhite c)

/-- What an id of the directory resolves to. -/
def resolvedId (id : PyText) : SymbolInfo := (knownSymbol id).getD (defaultSymbol (pyText "XNAS") id)

/-- The ids of the directory are plain, none that no rule knows has four characters, and one resolves to the same instrument exactly
when it is not that of an index or a future. -/
theorem tableMatch_again : ∀ raw ∈ tableNames, ∀ info ∈ tableMatch raw, isPlain info.canonicalId = true ∧
    (knownSymbol info.canonicalId = none → info.canonicalId.length ≠ 4) ∧
    (SameInstrument info (resolvedId info.canonicalId) ↔ raw ∉ indexAndFutureNames) := by
  decide +kernel

theorem tableMatch_indexAndFuture : ∀ raw ∈ indexAndFutureNames, tableMatch raw ≠ none := by decide +kernel

/-- No name of the tables has the suffix of Tokyo. -/
theorem tokyo_notMem : ∀ raw ∈ tableNames, raw.drop (raw.length - 2) ≠ pyText ".T" := by decide +kernel

/-! ## Normal forms -/

namespace UnicodeTables

variable (U : UnicodeTables)

theorem normalized_normalized (s : PyText) : U.normalized (U.normalized s) = U.normalized s := by
  have htrimmed : Trimmed (U.normalized s) := U.trimmed_toUpper (trimmed_trim s)
  rw [normalized, htrimmed.trim]
  exact U.toUpper_toUpper (trim s)

theorem normalized_plain {s : PyText} (h : isPlain s = true) : U.normalized s = s := by
  simp only [isPlain, Bool.and_eq_true, List.all_eq_true, decide_eq_true_eq, Option.all_eq_true, Bool.not_eq_true'] at h
  obtain ⟨⟨hchars, hfirst⟩, hlast⟩ := h
  have htrimmed : Trimmed s := ⟨hfirst, hlast⟩
  rw [normalized, htrimmed.trim, U.toUpper_ascii hchars]

/-- A suffix does not change that a text is in its normal form. -/
theorem normalized_append {raw suffix : PyText} (hraw : U.normalized raw = raw) (hne : raw ≠ []) (hsuffix : isPlain suffix = true)
    (hne' : suffix ≠ []) : U.normalized (raw ++ suffix) = raw ++ suffix := by
  have hsuffixNormal := U.normalized_plain hsuffix
  have htrimmedRaw : Trimmed raw := hraw ▸ U.trimmed_toUpper (trimmed_trim raw)
  have htrimmedSuffix : Trimmed suffix := hsuffixNormal ▸ U.trimmed_toUpper (trimmed_trim suffix)
  have hupperRaw : U.toUpper raw = raw := by rwa [normalized, htrimmedRaw.trim] at hraw
  have hupperSuffix : U.toUpper suffix = suffix := by rwa [normalized, htrimmedSuffix.trim] at hsuffixNormal
  have htrimmed : Trimmed (raw ++ suffix) := by
    constructor
    · intro c hc
      rw [List.head?_append_of_ne_nil _ hne] at hc
      exact htrimmedRaw.first c hc
    · intro c hc
      rw [List.getLast?_append_of_ne_nil _ hne'] at hc
      exact htrimmedSuffix.last c hc
  rw [normalized, htrimmed.trim, U.toUpper_append, hupperRaw, hupperSuffix]

theorem resolveSymbol_eq (s : PyText) : U.resolveSymbol s = U.resolve (pyText "XNAS") (U.normalized s) := rfl

/-- An id that is in its normal form, and has not four characters unless a rule knows it. -/
theorem resolveSymbol_id {id : PyText} (hplain : isPlain id = true) (hlength : knownSymbol id = none → id.length ≠ 4) :
    U.resolveSymbol id = resolvedId id := by
  rw [resolveSymbol_eq, U.normalized_plain hplain, resolve, resolvedId]
  cases hknown : knownSymbol id with
  | some info => rfl
  | none => simp [hlength hknown]

/-! ## One rule after the other -/

/-- Entries of the directory. -/
theorem stable_of_tableMatch {s : PyText} {info : SymbolInfo} (h : tableMatch (U.normalized s) = some info) :
    U.Stable s ↔ U.normalized s ∉ indexAndFutureNames := by
  obtain ⟨hplain, hlength, hagain⟩ := tableMatch_again _ (mem_tableNames h) info h
  have hinfo : U.resolveSymbol s = info := by rw [resolveSymbol_eq, resolve, knownSymbol_eq, h, Option.some_or]
  rw [Stable, hinfo, U.resolveSymbol_id hplain hlength]
  exact hagain

/-- An instrument whose id is the name it was resolved from. -/
theorem stable_of_id {s : PyText} (h : (U.resolveSymbol s).canonicalId = U.normalized s) : U.Stable s := by
  have hagain : U.resolveSymbol (U.resolveSymbol s).canonicalId = U.resolveSymbol s := by
    rw [h, resolveSymbol_eq, normalized_normalized, ← resolveSymbol_eq]
  rw [Stable, hagain]
  exact .refl _

end UnicodeTables

/-- The id that the rule for a suffix gives is the name. -/
theorem canonicalId_of_suffixMatch {raw : PyText} {info : SymbolInfo} (h : suffixMatch raw = some info) : info.canonicalId = raw := by
  obtain ⟨rule, -, happly⟩ := List.exists_of_findSome?_eq_some h
  simp only [SuffixRule.apply] at happly
  split at happly
  · rw [← Option.some.inj happly]
  · cases happly

/-- Four characters with the suffix of Tokyo are a name that the rule for it takes. -/
theorem suffixMatch_tokyo {raw : PyText} (h : raw.length = 4) :
    suffixMatch (raw ++ pyText ".T") = some { tokyoCode raw with name := raw ++ pyText " (Tokyo Stock Exchange)" } := by
  match raw, h with
  | [a, b, c, d], _ => simp [suffixMatch, suffixRules, SuffixRule.apply, tokyoCode, pyText]

namespace UnicodeTables

variable (U : UnicodeTables)

/-- Codes of Tokyo. -/
theorem stable_of_tokyo {s : PyText} (h : U.resolveSymbol s = tokyoCode (U.normalized s)) (hlength : (U.normalized s).length = 4) :
    U.Stable s := by
  have hne : U.normalized s ≠ [] := by
    intro hnil
    rw [hnil] at hlength
    cases hlength
  have hnormal := @normalized_append U _ (pyText ".T") (U.normalized_normalized s) hne (by decide) (by decide)
  have htable : tableMatch (U.normalized s ++ pyText ".T") = none := by
    cases hmatch : tableMatch (U.normalized s ++ pyText ".T") with
    | none => rfl
    | some info =>
      refine absurd ?_ (tokyo_notMem _ (mem_tableNames hmatch))
      simp [hlength, pyText]
  have hagain : U.resolveSymbol (tokyoCode (U.normalized s)).canonicalId =
      { tokyoCode (U.normalized s) with name := U.normalized s ++ pyText " (Tokyo Stock Exchange)" } := by
    rw [resolveSymbol_eq]
    show U.resolve _ (U.normalized (U.normalized s ++ pyText ".T")) = _
    rw [hnormal, resolve, knownSymbol_eq, htable, Option.none_or, suffixMatch_tokyo hlength]
  rw [Stable, h, hagain]
  exact ⟨rfl, rfl, rfl, rfl, rfl⟩

/-- The id of what a text resolves to resolves to the same instrument exactly when the text is not a name of an index or a future of the
directory. -/
theorem resolve_stable_iff (s : PyText) : U.Stable s ↔ U.normalized s ∉ indexAndFutureNames := by
  cases htable : tableMatch (U.normalized s) with
  | some info => exact U.stable_of_tableMatch htable
  | none =>
    have hother : U.normalized s ∉ indexAndFutureNames := fun hmem => tableMatch_indexAndFuture _ hmem htable
    refine ⟨fun _ => hother, fun _ => ?_⟩
    have hresolve : U.resolveSymbol s = U.resolve (pyText "XNAS") (U.normalized s) := rfl
    rw [resolve, knownSymbol_eq, htable, Option.none_or] at hresolve
    cases hsuffix : suffixMatch (U.normalized s) with
    | some info =>
      apply U.stable_of_id
      rw [hresolve, hsuffix]
      exact canonicalId_of_suffixMatch hsuffix
    | none =>
      rw [hsuffix] at hresolve
      simp only at hresolve
      split at hresolve
      · rename_i hcode
        exact U.stable_of_tokyo hresolve hcode.1
      · apply U.stable_of_id
        rw [hresolve]
        rfl

end UnicodeTables

/-! ## An index -/

/-- The letters and the digits of ASCII. -/
def asciiTables : UnicodeTables := { asciiCase with isDigit := fun c => 48 ≤ c ∧ c ≤ 57 }

/-- The Nifty is an index of the exchange in India; its id is a ticker of Nasdaq. -/
theorem resolve_stable_false : ¬asciiTables.Stable (pyText "NIFTY") ∧
    (asciiTables.resolveSymbol (pyText "NIFTY")).venueMic = pyText "XNSE" ∧
    (asciiTables.resolveSymbol (asciiTables.resolveSymbol (pyText "NIFTY")).canonicalId).venueMic = pyText "XNAS" := by
  unfold UnicodeTables.Stable
  decide +kernel

end Mdrap
