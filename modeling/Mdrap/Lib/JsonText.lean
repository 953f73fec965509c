import Mdrap.Lib.Json

/-!
# What is written is read back

`Json.loads_dumps`: the bytes of a value, written with no blanks, denote that value. The proof follows the writer: digits,
numbers, strings, then values by induction on the value. A value is read up to the text after it, which starts with none of
the characters that could continue a number (`Stops`).
-/

namespace Lib

/-! ## Digits -/

/-- A text whose first character cannot continue a number and is not blank. -/
def Stops (r : List Char) : Prop := ∀ c ∈ r.head?, c = ',' ∨ c = ']' ∨ c = '\x7d'

theorem stops_nil : Stops [] := by simp [Stops]

theorem stops_cons {c : Char} (h : c = ',' ∨ c = ']' ∨ c = '\x7d') (r : List Char) : Stops (c :: r) := by
  simpa [Stops] using h

/-- A text that does not start with a digit. -/
def NoDigit (r : List Char) : Prop := ∀ c ∈ r.head?, c.isDigit = false

theorem Stops.noDigit {r : List Char} (h : Stops r) : NoDigit r := by
  intro c hc
  rcases h c hc with rfl | rfl | rfl <;> decide

theorem spanDigits_append {ds r : List Char} (hds : ∀ c ∈ ds, c.isDigit = true) (hr : NoDigit r) :
    spanDigits (ds ++ r) = (ds, r) := by
  have htake : r.takeWhile Char.isDigit = [] := by
    cases r with
    | nil => rfl
    | cons c r => simp [hr c rfl]
  have hdrop : r.dropWhile Char.isDigit = r := by
    cases r with
    | nil => rfl
    | cons c r => simp [hr c rfl]
  simp only [spanDigits, List.takeWhile_append_of_pos hds, List.dropWhile_append_of_pos hds, htake, hdrop,
    List.append_nil]

theorem isDigit_toDigits (n : Nat) : ∀ c ∈ Nat.toDigits 10 n, c.isDigit = true := fun _ hc =>
  Nat.isDigit_of_mem_toDigits (by omega) (by omega) hc

/-- The digits of a positive number do not start with a zero. -/
theorem head_toDigits_ne_zero (n : Nat) (hn : n ≠ 0) : (Nat.toDigits 10 n).head? ≠ some '0' := by
  induction n using Nat.strongRecOn with
  | ind n ih =>
    by_cases h : n < 10
    · rw [Nat.toDigits_of_lt_base h]
      have : ∀ m < 10, m ≠ 0 → ([m.digitChar].head? ≠ some '0') := by decide
      exact this n h hn
    · rw [Nat.toDigits_of_base_le (by omega) (by omega)]
      have hd := ih (n / 10) (by omega) (by omega)
      cases hq : Nat.toDigits 10 (n / 10) with
      | nil => exact absurd hq Nat.toDigits_ne_nil
      | cons c cs =>
        rw [hq] at hd
        simpa using hd

/-- An integer part that does not start with a zero is read up to the first character that is not a digit. -/
theorem parseIntPart_digits {ds r : List Char} (hne : ds ≠ []) (hds : ∀ c ∈ ds, c.isDigit = true)
    (h0 : ds.head? ≠ some '0') (hr : NoDigit r) : parseIntPart (ds ++ r) = some (ds, r) := by
  have hspan := spanDigits_append hds hr
  cases ds with
  | nil => exact absurd rfl hne
  | cons c cs =>
    simp only [List.head?_cons, ne_eq, Option.some.injEq] at h0
    rw [List.cons_append] at hspan ⊢
    unfold parseIntPart
    split
    · rename_i heq
      cases heq
      exact absurd rfl h0
    · rw [hspan]
      rfl

/-- The digits of a number are read as an integer part. -/
theorem parseIntPart_toDigits (n : Nat) {r : List Char} (hr : NoDigit r) :
    parseIntPart (Nat.toDigits 10 n ++ r) = some (Nat.toDigits 10 n, r) := by
  by_cases hn : n = 0
  · subst hn
    rfl
  · exact parseIntPart_digits Nat.toDigits_ne_nil (isDigit_toDigits n) (head_toDigits_ne_zero n hn) hr

theorem Stops.parseFrac {r : List Char} (h : Stops r) : parseFrac r = (none, r) := by
  cases r with
  | nil => rfl
  | cons c r => rcases h c rfl with rfl | rfl | rfl <;> rfl

theorem Stops.parseExp {r : List Char} (h : Stops r) : parseExp r = (none, r) := by
  cases r with
  | nil => rfl
  | cons c r => rcases h c rfl with rfl | rfl | rfl <;> rfl

theorem Stops.skipWs {r : List Char} (h : Stops r) : skipWs r = r := by
  cases r with
  | nil => rfl
  | cons c r => rcases h c rfl with rfl | rfl | rfl <;> rfl

/-! ## Numbers -/

/-- An integer without its sign is read back. -/
theorem parseUnsigned_toDigits (neg : Bool) (n : Nat) {r : List Char} (hr : Stops r) :
    parseUnsigned neg (Nat.toDigits 10 n ++ r) = some (.int (if neg then -(n : Int) else n), r) := by
  simp [parseUnsigned, parseIntPart_toDigits n hr.noDigit, hr.parseFrac, hr.parseExp, Nat.ofDigitChars_ten_toDigits]

/-- A digit is not one of the letters that open a word. -/
theorem ne_of_isDigit {c d : Char} (hc : c.isDigit = true) (hd : d.isDigit = false) : c ≠ d := by
  rintro rfl
  rw [hc] at hd
  cases hd

/-- A text that starts with a digit is a number without a sign. -/
theorem parseNumber_digit {c : Char} (hc : c.isDigit = true) (r : List Char) :
    parseNumber (c :: r) = parseUnsigned false (c :: r) := by
  have hN := ne_of_isDigit hc (d := 'N') rfl
  have hI := ne_of_isDigit hc (d := 'I') rfl
  have hm := ne_of_isDigit hc (d := '-') rfl
  unfold parseNumber
  split <;> simp_all

/-- A minus sign before a digit opens a negative number. -/
theorem parseNumber_minus {c : Char} (hc : c.isDigit = true) (r : List Char) :
    parseNumber ('-' :: c :: r) = parseUnsigned true (c :: r) := by
  have hI := ne_of_isDigit hc (d := 'I') rfl
  unfold parseNumber
  split <;> simp_all

/-- A number text: digits, behind an optional sign, is read by `parseUnsigned`. -/
theorem parseNumber_signed (neg : Bool) {ds : List Char} (hne : ∃ c cs, ds = c :: cs ∧ c.isDigit = true) :
    parseNumber ((if neg then ['-'] else []) ++ ds) = parseUnsigned neg ds := by
  obtain ⟨c, cs, rfl, hc⟩ := hne
  cases neg
  · exact parseNumber_digit hc cs
  · exact parseNumber_minus hc cs

/-- The digits of a number, before any text, start with a digit. -/
theorem toDigits_cons (n : Nat) (r : List Char) :
    ∃ c cs, Nat.toDigits 10 n ++ r = c :: cs ∧ c.isDigit = true := by
  cases hd : Nat.toDigits 10 n with
  | nil => exact absurd hd Nat.toDigits_ne_nil
  | cons c cs => exact ⟨c, cs ++ r, rfl, isDigit_toDigits n c (by simp [hd])⟩

/-- An integer is read back. -/
theorem parseNumber_intText (n : Int) {r : List Char} (hr : Stops r) :
    parseNumber (intText n ++ r) = some (.int n, r) := by
  have hsign : intText n ++ r = (if decide (n < 0) then ['-'] else []) ++ (Nat.toDigits 10 n.natAbs ++ r) := by
    simp [intText]
  rw [hsign, parseNumber_signed _ (toDigits_cons _ r), parseUnsigned_toDigits _ _ hr]
  by_cases hn : n < 0
  · have habs : -(n.natAbs : Int) = n := by omega
    simp only [hn, decide_true, if_true, habs]
  · have habs : (n.natAbs : Int) = n := by omega
    simp only [hn, decide_false, Bool.false_eq_true, if_false, habs]

/-- Trailing zeros of a mantissa that ends in none are stripped again. -/
theorem stripZeros_mul_pow {m : Nat} (hm : m % 10 ≠ 0) (k n : Nat) (e : Int) (hk : k ≤ n) :
    stripZeros n (m * 10 ^ k) (e - k) = (m, e) := by
  induction k generalizing n with
  | zero =>
    cases n with
    | zero => simp [stripZeros]
    | succ n => simp [stripZeros, hm]
  | succ k ih =>
    obtain ⟨n, rfl⟩ : ∃ n', n = n' + 1 := ⟨n - 1, by omega⟩
    have hdiv : m * 10 ^ (k + 1) / 10 = m * 10 ^ k := by
      rw [Nat.pow_succ, ← Nat.mul_assoc, Nat.mul_div_cancel _ (by omega)]
    have hmod : m * 10 ^ (k + 1) % 10 = 0 := by
      rw [Nat.pow_succ, ← Nat.mul_assoc, Nat.mul_mod_left]
    rw [stripZeros, if_pos hmod, hdiv]
    have he : e - ((k + 1 : Nat) : Int) + 1 = e - k := by omega
    rw [he]
    exact ih n (by omega)

/-- A decimal is the one its mantissa and exponent denote, however many zeros the mantissa is written with. -/
theorem Decimal.ofParts_mul_pow (d : Decimal) (k : Nat) : Decimal.ofParts d.neg (d.mant * 10 ^ k) (d.exp - k) = d := by
  obtain ⟨neg, m, e, hc⟩ := d
  by_cases hm : m = 0
  · have he : e = 0 := by
      rcases hc with h | h
      · simp [hm] at h
      · exact h.2
    subst hm he
    simp [Decimal.ofParts]
  · have hm10 : m % 10 ≠ 0 := by
      rcases hc with h | h
      · exact h
      · exact absurd h.1 hm
    have hpos : 0 < 10 ^ k := Nat.pos_of_ne_zero (by simp)
    have hmk : m * 10 ^ k ≠ 0 := Nat.mul_ne_zero hm (by omega)
    have hk : k ≤ m * 10 ^ k := by
      have h1 : k < 10 ^ k := Nat.lt_pow_self (by omega)
      have h2 : 1 * 10 ^ k ≤ m * 10 ^ k := Nat.mul_le_mul_right _ (by omega)
      omega
    have hs := stripZeros_mul_pow hm10 k (m * 10 ^ k) e hk
    unfold Decimal.ofParts
    rw [dif_neg hmk]
    simp only [hs]

theorem Decimal.ofParts_self (d : Decimal) : Decimal.ofParts d.neg d.mant d.exp = d := by
  simpa using d.ofParts_mul_pow 0

/-- The digits of an exponent, padded to two: digits that denote the number. -/
theorem expDigits_spec (n : Nat) :
    ∃ ds, (if (Nat.toDigits 10 n).length < 2 then '0' :: Nat.toDigits 10 n else Nat.toDigits 10 n) = ds ∧
      (∀ c ∈ ds, c.isDigit = true) ∧ ds ≠ [] ∧ Nat.ofDigitChars 10 ds 0 = n := by
  by_cases hl : (Nat.toDigits 10 n).length < 2
  · refine ⟨'0' :: Nat.toDigits 10 n, if_pos hl, ?_, by simp, ?_⟩
    · intro c hc
      rcases List.mem_cons.mp hc with rfl | hc
      · rfl
      · exact isDigit_toDigits n c hc
    · rw [Nat.ofDigitChars_cons]
      exact Nat.ofDigitChars_ten_toDigits
  · exact ⟨Nat.toDigits 10 n, if_neg hl, isDigit_toDigits n, Nat.toDigits_ne_nil, Nat.ofDigitChars_ten_toDigits⟩

/-- The exponent part is read back. -/
theorem parseExp_expText (e : Int) {r : List Char} (hr : NoDigit r) : parseExp (expText e ++ r) = (some e, r) := by
  obtain ⟨ds, hds, hdig, hne, hval⟩ := expDigits_spec e.natAbs
  have hspan := spanDigits_append hdig hr
  have htext : expText e ++ r = 'e' :: (if e < 0 then '-' else '+') :: (ds ++ r) := by
    simp only [expText, hds, List.cons_append]
  rw [htext]
  by_cases he : e < 0
  · have habs : -(e.natAbs : Int) = e := by omega
    have hexp : parseExp ('e' :: '-' :: (ds ++ r)) = (some (-(e.natAbs : Int)), r) := by
      simp [parseExp, parseExpSign, hspan, hne, hval]
    rw [if_pos he, hexp, habs]
  · have habs : (e.natAbs : Int) = e := by omega
    have hexp : parseExp ('e' :: '+' :: (ds ++ r)) = (some (e.natAbs : Int), r) := by
      simp [parseExp, parseExpSign, hspan, hne, hval]
    rw [if_neg he, hexp, habs]

/-- A fraction is read up to the first character that is not a digit. -/
theorem parseFrac_digits {ds r : List Char} (hne : ds ≠ []) (hds : ∀ c ∈ ds, c.isDigit = true) (hr : NoDigit r) :
    parseFrac ('.' :: (ds ++ r)) = (some ds, r) := by
  simp [parseFrac, spanDigits_append hds hr, hne]

theorem noDigit_expText (e : Int) (r : List Char) : NoDigit (expText e ++ r) := by
  intro c hc
  simp only [expText, List.cons_append, List.head?_cons, Option.mem_def, Option.some.injEq] at hc
  subst hc
  rfl

theorem noDigit_point (r : List Char) : NoDigit ('.' :: r) := by
  intro c hc
  simp only [List.head?_cons, Option.mem_def, Option.some.injEq] at hc
  subst hc
  rfl

theorem isDigit_replicate (n : Nat) : ∀ c ∈ List.replicate n '0', c.isDigit = true := by
  intro c hc
  rw [(List.mem_replicate.mp hc).2]
  rfl

/-- A number with a fraction, from its integer part, its fraction and the text after it. -/
theorem parseUnsigned_frac (neg : Bool) {ds fs r : List Char} (hi : parseIntPart (ds ++ '.' :: (fs ++ r)) =
    some (ds, '.' :: (fs ++ r))) (hne : fs ≠ []) (hfs : ∀ c ∈ fs, c.isDigit = true) (hr : NoDigit r) :
    parseUnsigned neg (ds ++ '.' :: (fs ++ r)) =
      some (.float (.dec (Decimal.ofParts neg (Nat.ofDigitChars 10 (ds ++ fs) 0) ((parseExp r).1.getD 0 - fs.length))),
        (parseExp r).2) := by
  simp [parseUnsigned, hi, parseFrac_digits hne hfs hr]

/-- A mantissa of one digit with an exponent. -/
theorem parseUnsigned_single (neg : Bool) {c : Char} (hc : c.isDigit = true) (h0 : c ≠ '0') (e : Int) {r : List Char}
    (hr : NoDigit r) : parseUnsigned neg (c :: (expText e ++ r)) =
      some (.float (.dec (Decimal.ofParts neg (Nat.ofDigitChars 10 [c] 0) e)), r) := by
  have hi : parseIntPart ([c] ++ (expText e ++ r)) = some ([c], expText e ++ r) :=
    parseIntPart_digits (by simp) (by simpa using hc) (by simpa using h0) (noDigit_expText e r)
  have hf : parseFrac (expText e ++ r) = (none, expText e ++ r) := rfl
  rw [List.singleton_append] at hi
  simp [parseUnsigned, hi, hf, parseExp_expText e hr]

section Mantissa

variable (d : Decimal) {ds r : List Char} (hval : Nat.ofDigitChars 10 ds 0 = d.mant) (hr : Stops r)

include hval hr

/-- A mantissa with one digit before the point, and an exponent. -/
theorem parseUnsigned_scientific (hdig : ∀ c ∈ ds, c.isDigit = true) {c : Char} {cs : List Char} (hds : ds = c :: cs) (hc0 : c ≠ '0') :
    parseUnsigned d.neg (c :: (if cs = [] then [] else '.' :: cs) ++ expText (ds.length + d.exp - 1) ++ r) =
      some (.float (.dec d), r) := by
  subst hds
  have hc : c.isDigit = true := hdig c (by simp)
  by_cases hcs : cs = []
  · subst hcs
    have he : (([c].length : Nat) : Int) + d.exp - 1 = d.exp := by
      simp only [List.length_singleton]
      omega
    simp only [he, if_true, List.cons_append, List.nil_append]
    rw [parseUnsigned_single d.neg hc hc0 d.exp hr.noDigit, hval, d.ofParts_self]
  · have hi := parseIntPart_digits (List.cons_ne_nil c []) (by simpa using hc) (by simpa using hc0)
      (noDigit_point (cs ++ (expText (((c :: cs).length : Nat) + d.exp - 1) ++ r)))
    have he : ((((c :: cs).length : Nat) : Int) + d.exp - 1) - cs.length = d.exp := by
      simp only [List.length_cons]
      omega
    simp only [hcs, if_false, List.cons_append, List.append_assoc]
    rw [← List.singleton_append,
      parseUnsigned_frac d.neg hi hcs (fun x hx => hdig x (by simp [hx])) (noDigit_expText _ r),
      parseExp_expText _ hr.noDigit]
    simp only [Option.getD_some, he, List.singleton_append, hval, d.ofParts_self]

/-- A mantissa behind the point: zeros stand between the point and its first digit. -/
theorem parseUnsigned_small (hdig : ∀ c ∈ ds, c.isDigit = true) (hne : ds ≠ []) (hpt : (ds.length : Int) + d.exp ≤ 0) :
    parseUnsigned d.neg ('0' :: '.' :: List.replicate (-((ds.length : Int) + d.exp)).toNat '0' ++ ds ++ r) =
      some (.float (.dec d), r) := by
  generalize hk : (-((ds.length : Int) + d.exp)).toNat = k
  have hi : parseIntPart (['0'] ++ '.' :: (List.replicate k '0' ++ ds ++ r)) =
      some (['0'], '.' :: (List.replicate k '0' ++ ds ++ r)) := rfl
  have hfs : ∀ c ∈ List.replicate k '0' ++ ds, c.isDigit = true := by
    intro c hc
    rcases List.mem_append.mp hc with hc | hc
    · exact isDigit_replicate k c hc
    · exact hdig c hc
  have hnum : Nat.ofDigitChars 10 (['0'] ++ (List.replicate k '0' ++ ds)) 0 = d.mant := by
    have hz : Nat.ofDigitChars 10 ['0'] 0 = 0 := rfl
    rw [Nat.ofDigitChars_append, Nat.ofDigitChars_append, Nat.ofDigitChars_replicate_zero, hz, Nat.mul_zero, hval]
  have hexp : (0 : Int) - ((List.replicate k '0' ++ ds).length : Nat) = d.exp := by
    simp only [List.length_append, List.length_replicate]
    omega
  have h := parseUnsigned_frac d.neg hi (by simp [hne]) hfs hr.noDigit
  rw [hr.parseExp, hnum, Option.getD_none, hexp, d.ofParts_self] at h
  simpa using h

/-- A mantissa with the point among its digits. -/
theorem parseUnsigned_middle (hdig : ∀ c ∈ ds, c.isDigit = true) (h0 : ds.head? ≠ some '0') {p : Nat} (hp0 : 0 < p) (hp : p < ds.length)
    (hpe : (p : Int) = ds.length + d.exp) :
    parseUnsigned d.neg (ds.take p ++ '.' :: ds.drop p ++ r) = some (.float (.dec d), r) := by
  have htne : ds.take p ≠ [] := by
    rw [ne_eq, List.take_eq_nil_iff]
    rintro (h | rfl)
    · omega
    · simp at hp
  have hhead : (ds.take p).head? ≠ some '0' := by
    rw [List.head?_take, if_neg (by omega)]
    exact h0
  have hi := parseIntPart_digits htne (fun c hc => hdig c (List.mem_of_mem_take hc)) hhead
    (noDigit_point (ds.drop p ++ r))
  have hdne : ds.drop p ≠ [] := by
    rw [ne_eq, List.drop_eq_nil_iff]
    omega
  have hexp : (0 : Int) - ((ds.drop p).length : Nat) = d.exp := by
    simp only [List.length_drop]
    omega
  have h := parseUnsigned_frac d.neg hi hdne (fun c hc => hdig c (List.mem_of_mem_drop hc)) hr.noDigit
  rw [hr.parseExp, List.take_append_drop, hval, Option.getD_none, hexp, d.ofParts_self] at h
  simpa using h

/-- A mantissa with the point after its last digit and the zeros that fill up to it. -/
theorem parseUnsigned_large {k : Nat} (hi : parseIntPart (ds ++ List.replicate k '0' ++ '.' :: (['0'] ++ r)) =
    some (ds ++ List.replicate k '0', '.' :: (['0'] ++ r))) (hk : d.exp = k) :
    parseUnsigned d.neg (ds ++ List.replicate k '0' ++ ['.', '0'] ++ r) = some (.float (.dec d), r) := by
  have hnum : Nat.ofDigitChars 10 (ds ++ List.replicate k '0' ++ ['0']) 0 = d.mant * 10 ^ (k + 1) := by
    rw [List.append_assoc, ← List.replicate_succ', Nat.ofDigitChars_append, hval, Nat.ofDigitChars_replicate_zero,
      Nat.mul_comm]
  have hexp : (0 : Int) - ((['0'] : List Char).length : Nat) = d.exp - (k + 1 : Nat) := by
    simp only [List.length_singleton]
    omega
  have h := parseUnsigned_frac d.neg hi (by simp) (List.forall_mem_singleton.mpr rfl) hr.noDigit
  rw [hr.parseExp, hnum, Option.getD_none, hexp, d.ofParts_mul_pow] at h
  simpa using h

end Mantissa

/-- The text of a decimal is read back. -/
theorem parseUnsigned_digitsText (d : Decimal) {r : List Char} (hr : Stops r) :
    parseUnsigned d.neg (digitsText (Nat.toDigits 10 d.mant) ((Nat.toDigits 10 d.mant).length + d.exp) ++ r) =
      some (.float (.dec d), r) := by
  have hdig := isDigit_toDigits d.mant
  have hval := Nat.ofDigitChars_ten_toDigits (n := d.mant)
  have hne : Nat.toDigits 10 d.mant ≠ [] := Nat.toDigits_ne_nil
  have hhead : d.mant ≠ 0 → (Nat.toDigits 10 d.mant).head? ≠ some '0' := head_toDigits_ne_zero d.mant
  have hzero : d.mant = 0 → Nat.toDigits 10 d.mant = ['0'] ∧ d.exp = 0 := by
    intro h0
    rcases d.canon with h | h
    · simp [h0] at h
    · exact ⟨by rw [h0]; rfl, h.2⟩
  generalize Nat.toDigits 10 d.mant = ds at *
  unfold digitsText
  split
  · rename_i hexp
    have hm : d.mant ≠ 0 := by
      intro h0
      obtain ⟨rfl, he⟩ := hzero h0
      simp [he] at hexp
    cases ds with
    | nil => exact absurd rfl hne
    | cons c cs => exact parseUnsigned_scientific d hval hr hdig rfl (by simpa using hhead hm)
  · split
    · exact parseUnsigned_small d hval hr hdig hne (by assumption)
    · split
      · rename_i hlt
        have hm : d.mant ≠ 0 := by
          intro h0
          obtain ⟨rfl, he⟩ := hzero h0
          simp [he] at hlt
        exact parseUnsigned_middle d hval hr hdig (hhead hm) (by omega) hlt (by omega)
      · rename_i hle
        refine parseUnsigned_large d hval hr ?_ (by omega)
        by_cases hm : d.mant = 0
        · obtain ⟨rfl, he⟩ := hzero hm
          simp [he, parseIntPart]
        · refine parseIntPart_digits (by simp [hne]) ?_ ?_ (noDigit_point _)
          · intro c hc
            rcases List.mem_append.mp hc with hc | hc
            · exact hdig c hc
            · exact isDigit_replicate _ c hc
          · cases ds with
            | nil => exact absurd rfl hne
            | cons c cs => simpa using hhead hm

/-- The text of a mantissa starts with a digit. -/
theorem digitsText_cons {ds : List Char} (hne : ds ≠ []) (hdig : ∀ c ∈ ds, c.isDigit = true) (point : Int)
    (r : List Char) : ∃ c cs, digitsText ds point ++ r = c :: cs ∧ c.isDigit = true := by
  obtain ⟨c, cs, rfl⟩ : ∃ c cs, ds = c :: cs := List.exists_cons_of_ne_nil hne
  have hc : c.isDigit = true := hdig c (by simp)
  unfold digitsText
  split
  · exact ⟨c, _, rfl, hc⟩
  · split
    · exact ⟨'0', _, rfl, rfl⟩
    · split
      · obtain ⟨p, hp⟩ : ∃ p, point.toNat = p + 1 := ⟨point.toNat - 1, by omega⟩
        rw [hp]
        exact ⟨c, _, rfl, hc⟩
      · exact ⟨c, _, rfl, hc⟩

/-- A decimal is read back. -/
theorem parseNumber_decimal (d : Decimal) {r : List Char} (hr : Stops r) :
    parseNumber (d.repr ++ r) = some (.float (.dec d), r) := by
  rw [Decimal.repr, List.append_assoc,
    parseNumber_signed _ (digitsText_cons Nat.toDigits_ne_nil (isDigit_toDigits d.mant) _ r)]
  exact parseUnsigned_digitsText d hr

/-- A floating-point number is read back. -/
theorem parseNumber_float (x : Float64) {r : List Char} (hr : Stops r) :
    parseNumber (x.repr ++ r) = some (.float x, r) := by
  cases x with
  | nan => rfl
  | inf neg => cases neg <;> rfl
  | dec d => exact parseNumber_decimal d hr

/-! ## Strings -/

theorem hexVal_digitChar : ∀ n < 16, hexVal n.digitChar = some n := by decide

/-- A four-digit escape of a code below 32 is read back. -/
theorem parseUnits_hex {n : Nat} (hn : n < 32) (r : List Char) :
    parseUnits ('\\' :: 'u' :: '0' :: '0' :: (n / 16).digitChar :: (n % 16).digitChar :: r) =
      (parseUnits r).map (fun p => (n :: p.1, p.2)) := by
  have h0 : hexVal '0' = some 0 := rfl
  have hu : hex4 '0' '0' (n / 16).digitChar (n % 16).digitChar = some n := by
    simp only [hex4, h0, hexVal_digitChar (n / 16) (by omega), hexVal_digitChar (n % 16) (by omega), bind, Option.bind,
      pure, Option.some.injEq]
    omega
  rw [parseUnits]
  simp only [hu]

/-- An escape of a control character is read back as its code. -/
theorem parseUnits_escControl {c : Char} {t : List Char} (h : escControl c = some t) (r : List Char) :
    parseUnits (t ++ r) = (parseUnits r).map (fun p => (c.toNat :: p.1, p.2)) := by
  unfold escControl at h
  repeat' split at h
  all_goals try cases h
  · subst c; rfl
  · subst c; rfl
  · subst c; rfl
  · subst c; rfl
  · subst c; rfl
  · rename_i h8
    rw [h8]
    rfl
  · rename_i h12
    rw [h12]
    rfl
  · exact parseUnits_hex (by assumption) r

/-- A character that needs no escape is read as itself. -/
theorem parseUnits_plain {c : Char} (h : escControl c = none) (r : List Char) :
    parseUnits (c :: r) = (parseUnits r).map (fun p => (c.toNat :: p.1, p.2)) := by
  unfold escControl at h
  repeat' split at h
  all_goals try cases h
  rename_i hq hb _ _ _ _ _ h32
  have heq := parseUnits.eq_5 c r hq (fun a b d e r' hc => absurd hc hb) (fun a r' hc => absurd hc hb)
  rw [heq, if_neg h32]

/-- A character of a string is read back as its code. -/
theorem parseUnits_escPlain (c : Char) (r : List Char) :
    parseUnits (escPlain c ++ r) = (parseUnits r).map (fun p => (c.toNat :: p.1, p.2)) := by
  unfold escPlain
  cases h : escControl c with
  | some t => exact parseUnits_escControl h r
  | none => exact parseUnits_plain h r

/-- The characters of a string are read back as their codes, up to the closing quote. -/
theorem parseUnits_flatMap (cs r : List Char) :
    parseUnits (cs.flatMap escPlain ++ '\"' :: r) = some (cs.map Char.toNat, r) := by
  induction cs with
  | nil => rfl
  | cons c cs ih =>
    rw [List.flatMap_cons, List.append_assoc, parseUnits_escPlain, ih]
    rfl

theorem unitChar_toNat (c : Char) : unitChar c.toNat = c := by
  have hv : c.toNat.isValidChar := c.valid
  simp [unitChar, hv]

/-- No character is a surrogate. -/
theorem not_surrogate (c : Char) : ¬(55296 ≤ c.toNat ∧ c.toNat < 56320) := by
  have hv : c.toNat.isValidChar := c.valid
  rcases hv with h | h <;> omega

/-- The codes of characters are never joined. -/
theorem joinUnits_toNat : ∀ cs : List Char, joinUnits (cs.map Char.toNat) = cs
  | [] => rfl
  | [c] => by simp [joinUnits, unitChar_toNat]
  | c :: d :: cs => by
    have hc := not_surrogate c
    have ih := joinUnits_toNat (d :: cs)
    simp only [List.map_cons] at ih ⊢
    rw [joinUnits, if_neg (fun h => hc ⟨h.1, h.2.1⟩), ih, unitChar_toNat]

/-- A string is read back. -/
theorem parseStr_text (s : String) (r : List Char) :
    parseStr (s.toList.flatMap escPlain ++ '\"' :: r) = some (s, r) := by
  simp [parseStr, parseUnits_flatMap, joinUnits_toNat]

/-! ## Values -/

/-- A text that starts as a value does: with a character that is neither blank nor closes an array or an object. -/
def Opens (cs : List Char) : Prop := ∃ c r, cs = c :: r ∧ isWs c = false ∧ c ≠ ']' ∧ c ≠ '\x7d'

theorem Opens.append {cs : List Char} (h : Opens cs) (r : List Char) : Opens (cs ++ r) := by
  obtain ⟨c, cs, rfl, hc⟩ := h
  exact ⟨c, cs ++ r, rfl, hc⟩

theorem Opens.skipWs {cs : List Char} (h : Opens cs) : skipWs cs = cs := by
  obtain ⟨c, r, rfl, hc, _, _⟩ := h
  simp [Lib.skipWs, hc]

/-- A text that starts with a digit, behind an optional sign, is a number to the parser of values. -/
def OpensNumber (cs : List Char) : Prop := ∃ c r, cs = c :: r ∧ (c.isDigit = true ∨ c = '-' ∨ c = 'N' ∨ c = 'I')

theorem OpensNumber.append {cs : List Char} (h : OpensNumber cs) (r : List Char) : OpensNumber (cs ++ r) := by
  obtain ⟨c, cs, rfl, hc⟩ := h
  exact ⟨c, cs ++ r, rfl, hc⟩

/-- A character that opens a number is none of those that open another value or stand between values. -/
theorem OpensNumber.ne {c d : Char} (hc : c.isDigit = true ∨ c = '-' ∨ c = 'N' ∨ c = 'I')
    (hd : d.isDigit = false ∧ d ≠ '-' ∧ d ≠ 'N' ∧ d ≠ 'I') : c ≠ d := by
  rintro rfl
  obtain ⟨h1, h2, h3, h4⟩ := hd
  rcases hc with h | h | h | h
  · rw [h] at h1
    cases h1
  · exact h2 h
  · exact h3 h
  · exact h4 h

theorem OpensNumber.opens {cs : List Char} (h : OpensNumber cs) : Opens cs := by
  obtain ⟨c, r, rfl, hc⟩ := h
  refine ⟨c, r, rfl, ?_, OpensNumber.ne hc (by decide), OpensNumber.ne hc (by decide)⟩
  have h1 : c ≠ ' ' := OpensNumber.ne hc (by decide)
  have h2 : c ≠ '\n' := OpensNumber.ne hc (by decide)
  have h3 : c ≠ '\r' := OpensNumber.ne hc (by decide)
  have h4 : c ≠ '\t' := OpensNumber.ne hc (by decide)
  simp [isWs, h1, h2, h3, h4]

/-- The parser of values hands a number to the parser of numbers. -/
theorem OpensNumber.parseValue {cs : List Char} (h : OpensNumber cs) (n : Nat) :
    parseValue (n + 1) cs = parseNumber cs := by
  obtain ⟨c, r, rfl, hc⟩ := h
  have h1 : c ≠ '\"' := OpensNumber.ne hc (by decide)
  have h2 : c ≠ '\x7b' := OpensNumber.ne hc (by decide)
  have h3 : c ≠ '[' := OpensNumber.ne hc (by decide)
  have h4 : c ≠ 'n' := OpensNumber.ne hc (by decide)
  have h5 : c ≠ 't' := OpensNumber.ne hc (by decide)
  have h6 : c ≠ 'f' := OpensNumber.ne hc (by decide)
  rw [Lib.parseValue.eq_def]
  simp only
  split <;> simp_all

theorem opensNumber_signed (neg : Bool) {ds : List Char} (hne : ∃ c cs, ds = c :: cs ∧ c.isDigit = true) :
    OpensNumber ((if neg then ['-'] else []) ++ ds) := by
  obtain ⟨c, cs, rfl, hc⟩ := hne
  cases neg
  · exact ⟨c, cs, rfl, Or.inl hc⟩
  · exact ⟨'-', c :: cs, rfl, Or.inr (Or.inl rfl)⟩

theorem opensNumber_intText (n : Int) : OpensNumber (intText n) := by
  have h := opensNumber_signed (decide (n < 0)) (by simpa using toDigits_cons n.natAbs [])
  simpa [intText] using h

theorem opensNumber_float (x : Float64) : OpensNumber x.repr := by
  cases x with
  | nan => exact ⟨'N', _, rfl, by simp⟩
  | inf neg =>
    cases neg
    · exact ⟨'I', _, rfl, by simp⟩
    · exact ⟨'-', _, rfl, by simp⟩
  | dec d =>
    refine opensNumber_signed d.neg ?_
    simpa using digitsText_cons Nat.toDigits_ne_nil (isDigit_toDigits d.mant) _ []

/-- Every value opens as a value does. -/
theorem opens_text (st : Style) (j : Json) : Opens (j.text st) := by
  cases j with
  | null => exact ⟨'n', ['u', 'l', 'l'], by rw [Json.text], by decide, by decide, by decide⟩
  | bool b =>
    cases b
    · exact ⟨'f', ['a', 'l', 's', 'e'], by rw [Json.text], by decide, by decide, by decide⟩
    · exact ⟨'t', ['r', 'u', 'e'], by rw [Json.text], by decide, by decide, by decide⟩
  | int n =>
    rw [Json.text]
    exact (opensNumber_intText n).opens
  | float x =>
    rw [Json.text]
    exact (opensNumber_float x).opens
  | str s =>
    rw [Json.text]
    exact ⟨'\"', _, rfl, by decide, by decide, by decide⟩
  | arr xs =>
    cases xs
    all_goals
      rw [Json.text]
      exact ⟨'[', _, rfl, by decide, by decide, by decide⟩
  | obj kvs =>
    cases kvs
    all_goals
      rw [Json.text]
      exact ⟨'\x7b', _, rfl, by decide, by decide, by decide⟩

/-- What follows an item of an array before the closing bracket. -/
theorem stops_items (xs : List Json) (r : List Char) : Stops (itemsText .compact xs ++ ']' :: r) := by
  cases xs with
  | nil => exact stops_cons (Or.inr (Or.inl rfl)) r
  | cons x xs =>
    rw [itemsText]
    exact stops_cons (Or.inl rfl) _

/-- What follows a member of an object before the closing brace. -/
theorem stops_members (kvs : List (String × Json)) (r : List Char) :
    Stops (membersText .compact kvs ++ '\x7d' :: r) := by
  cases kvs with
  | nil => exact stops_cons (Or.inr (Or.inr rfl)) r
  | cons kv kvs =>
    rw [membersText]
    exact stops_cons (Or.inl rfl) _

@[simp] theorem length_itemSep_compact : Style.compact.itemSep.length = 1 := rfl

@[simp] theorem length_keySep_compact : Style.compact.keySep.length = 1 := rfl

theorem strText_append (s : String) (r : List Char) :
    strText .compact s ++ r = '\"' :: (s.toList.flatMap escPlain ++ '\"' :: r) := by
  simp [strText, Style.compact]

/-- After an item, either the array closes or the next item follows. -/
theorem parseItems_step {n : Nat} {cs : List Char} {x : Json} {xs : List Json} {r : List Char}
    (hx : parseValue n cs = some (x, itemsText .compact xs ++ ']' :: r))
    (hxs : ∀ y ys, xs = y :: ys →
      parseItems n (y.text .compact ++ itemsText .compact ys ++ ']' :: r) = some (xs, r)) :
    parseItems (n + 1) cs = some (x :: xs, r) := by
  rw [parseItems, hx]
  cases xs with
  | nil => rfl
  | cons y ys =>
    have hopen := ((opens_text .compact y).append (itemsText .compact ys ++ ']' :: r)).skipWs
    have hrest : itemsText .compact (y :: ys) ++ ']' :: r =
        ',' :: (y.text .compact ++ (itemsText .compact ys ++ ']' :: r)) := by
      simp [itemsText, Style.compact]
    have hskip := (stops_items (y :: ys) r).skipWs
    rw [hrest] at hskip
    have h := hxs y ys rfl
    rw [List.append_assoc] at h
    simp only [hrest, hskip, hopen, h, bind, Option.bind, pure]

/-- After a member, either the object closes or the next member follows. -/
theorem parseMembers_step {n : Nat} {k : String} {v : Json} {kvs : List (String × Json)} {r : List Char}
    (hv : parseValue n (v.text .compact ++ (membersText .compact kvs ++ '\x7d' :: r)) =
      some (v, membersText .compact kvs ++ '\x7d' :: r))
    (hkvs : ∀ k' v' kvs', kvs = (k', v') :: kvs' →
      parseMembers n (strText .compact k' ++ ':' :: (v'.text .compact ++ (membersText .compact kvs' ++ '\x7d' :: r))) =
        some (kvs, r)) :
    parseMembers (n + 1) (strText .compact k ++ ':' :: (v.text .compact ++ (membersText .compact kvs ++ '\x7d' :: r))) =
      some ((k, v) :: kvs, r) := by
  have hcolon : skipWs (':' :: (v.text .compact ++ (membersText .compact kvs ++ '\x7d' :: r))) =
      ':' :: (v.text .compact ++ (membersText .compact kvs ++ '\x7d' :: r)) := rfl
  have hopen := ((opens_text .compact v).append (membersText .compact kvs ++ '\x7d' :: r)).skipWs
  rw [strText_append, parseMembers, parseStr_text]
  simp only [hcolon, hopen, hv, bind, Option.bind, pure]
  cases kvs with
  | nil => rfl
  | cons kv kvs =>
    obtain ⟨k', v'⟩ := kv
    have hrest : membersText .compact ((k', v') :: kvs) ++ '\x7d' :: r =
        ',' :: (strText .compact k' ++ ':' :: (v'.text .compact ++ (membersText .compact kvs ++ '\x7d' :: r))) := by
      simp [membersText, Style.compact]
    have hskip := (stops_members ((k', v') :: kvs) r).skipWs
    have hquote : skipWs (strText .compact k' ++ ':' :: (v'.text .compact ++ (membersText .compact kvs ++ '\x7d' :: r))) =
        strText .compact k' ++ ':' :: (v'.text .compact ++ (membersText .compact kvs ++ '\x7d' :: r)) := rfl
    rw [hrest] at hskip
    simp only [hrest, hskip, hquote, hkvs k' v' kvs rfl]

mutual

/-- A value is read back, up to the text after it. -/
theorem parseValue_text : ∀ (j : Json) (n : Nat) (r : List Char), Stops r → 2 * (j.text .compact).length ≤ n →
    parseValue n (j.text .compact ++ r) = some (j, r)
  | .null, n, r, _, hn => by
    rw [Json.text] at hn ⊢
    obtain ⟨n, rfl⟩ : ∃ n', n = n' + 1 := ⟨n - 1, by simp at hn; omega⟩
    rfl
  | .bool b, n, r, _, hn => by
    cases b
    all_goals
      rw [Json.text] at hn ⊢
      obtain ⟨n, rfl⟩ : ∃ n', n = n' + 1 := ⟨n - 1, by simp at hn; omega⟩
      rfl
  | .int i, n, r, hr, hn => by
    rw [Json.text] at hn ⊢
    obtain ⟨c, cs, hcs, _⟩ := opensNumber_intText i
    obtain ⟨n, rfl⟩ : ∃ n', n = n' + 1 := ⟨n - 1, by simp [hcs] at hn; omega⟩
    rw [((opensNumber_intText i).append r).parseValue, parseNumber_intText i hr]
  | .float x, n, r, hr, hn => by
    rw [Json.text] at hn ⊢
    obtain ⟨c, cs, hcs, _⟩ := opensNumber_float x
    obtain ⟨n, rfl⟩ : ∃ n', n = n' + 1 := ⟨n - 1, by simp [hcs] at hn; omega⟩
    rw [((opensNumber_float x).append r).parseValue, parseNumber_float x hr]
  | .str s, n, r, _, hn => by
    rw [Json.text] at hn ⊢
    obtain ⟨n, rfl⟩ : ∃ n', n = n' + 1 := ⟨n - 1, by simp [strText] at hn; omega⟩
    rw [strText_append, parseValue, parseStr_text]
    rfl
  | .arr [], n, r, _, hn => by
    rw [Json.text] at hn ⊢
    obtain ⟨n, rfl⟩ : ∃ n', n = n' + 1 := ⟨n - 1, by simp at hn; omega⟩
    rfl
  | .arr (x :: xs), n, r, _, hn => by
    rw [Json.text] at hn ⊢
    simp only [List.length_cons, List.length_append, List.cons_append] at hn
    obtain ⟨n, rfl⟩ : ∃ n', n = n' + 1 := ⟨n - 1, by omega⟩
    have hitems := parseItems_text x xs n r (by simp at hn; omega)
    obtain ⟨c, cs, hc, hws, hne, _⟩ := (opens_text .compact x).append (itemsText .compact xs ++ ']' :: r)
    have htext : '[' :: x.text .compact ++ itemsText .compact xs ++ [']'] ++ r = '[' :: c :: cs := by
      rw [← hc]
      simp
    rw [List.append_assoc, hc] at hitems
    have hskip : skipWs (c :: cs) = c :: cs := by simp [skipWs, hws]
    rw [htext, parseValue, hskip]
    split
    · rename_i heq
      cases heq
      exact absurd rfl hne
    · rw [hitems]
      rfl
  | .obj [], n, r, _, hn => by
    rw [Json.text] at hn ⊢
    obtain ⟨n, rfl⟩ : ∃ n', n = n' + 1 := ⟨n - 1, by simp at hn; omega⟩
    rfl
  | .obj ((k, v) :: kvs), n, r, _, hn => by
    rw [Json.text] at hn ⊢
    simp only [List.length_cons, List.length_append, List.cons_append] at hn
    obtain ⟨n, rfl⟩ : ∃ n', n = n' + 1 := ⟨n - 1, by omega⟩
    have hmembers := parseMembers_text k v kvs n r (by simp at hn; omega)
    have htext : '\x7b' :: strText .compact k ++ Style.compact.keySep ++ v.text .compact ++ membersText .compact kvs ++
        ['\x7d'] ++ r = '\x7b' ::
          (strText .compact k ++ ':' :: (v.text .compact ++ (membersText .compact kvs ++ '\x7d' :: r))) := by
      simp [Style.compact]
    rw [htext, parseValue]
    rw [strText_append] at hmembers ⊢
    have hskip : ∀ t, skipWs ('\"' :: t) = '\"' :: t := fun _ => rfl
    rw [hskip]
    split
    · rename_i heq
      cases heq
    · rw [hmembers]
      rfl
termination_by _ n => n

/-- The items of an array are read back, up to the text after its closing bracket. -/
theorem parseItems_text : ∀ (x : Json) (xs : List Json) (n : Nat) (r : List Char),
    2 * ((x.text .compact).length + (itemsText .compact xs).length + 1) ≤ n + 1 →
    parseItems n (x.text .compact ++ itemsText .compact xs ++ ']' :: r) = some (x :: xs, r)
  | x, xs, n, r, hn => by
    obtain ⟨n, rfl⟩ : ∃ n', n = n' + 1 := ⟨n - 1, by omega⟩
    refine parseItems_step ?_ ?_
    · rw [List.append_assoc]
      exact parseValue_text x n _ (stops_items xs r) (by omega)
    · match xs with
      | [] =>
        intro y ys h
        cases h
      | x' :: xs' =>
        rintro y ys ⟨⟩
        rw [itemsText] at hn
        exact parseItems_text x' xs' n r (by simp at hn; omega)
termination_by _ _ n => n

/-- The members of an object are read back, up to the text after its closing brace. -/
theorem parseMembers_text : ∀ (k : String) (v : Json) (kvs : List (String × Json)) (n : Nat) (r : List Char),
    2 * ((strText .compact k).length + (v.text .compact).length + (membersText .compact kvs).length + 2) ≤ n + 1 →
    parseMembers n (strText .compact k ++ ':' :: (v.text .compact ++ (membersText .compact kvs ++ '\x7d' :: r))) =
      some ((k, v) :: kvs, r)
  | k, v, kvs, n, r, hn => by
    obtain ⟨n, rfl⟩ : ∃ n', n = n' + 1 := ⟨n - 1, by omega⟩
    refine parseMembers_step (parseValue_text v n _ (stops_members kvs r) (by omega)) ?_
    match kvs with
    | [] =>
      intro k' v' kvs' h
      cases h
    | (k1, v1) :: kvs1 =>
      rintro k' v' kvs' ⟨⟩
      rw [membersText] at hn
      exact parseMembers_text k1 v1 kvs1 n r (by simp at hn; omega)
termination_by _ _ _ n => n

end

/-- The text of a value denotes the value. -/
theorem Json.ofText_text (j : Json) : Json.ofText (j.text .compact) = some j := by
  have h := parseValue_text j (2 * (j.text .compact).length + 2) [] stops_nil (by omega)
  rw [List.append_nil] at h
  simp only [Json.ofText, (opens_text .compact j).skipWs, h]
  rfl

/-! ## Bytes -/

/-- A text is decoded from its bytes. -/
theorem decodeUtf8_encodeUtf8 (cs : List Char) : decodeUtf8 (encodeUtf8 cs) = some cs := by
  have hb : ByteArray.mk (encodeUtf8 cs).toArray = cs.utf8Encode := by
    rw [List.utf8Encode, encodeUtf8]
    ext1
    simp
  rw [decodeUtf8, hb, List.utf8Decode?_utf8Encode]
  simp

/-- A value is read back from the bytes it was written as. -/
theorem Json.loads_dumps (j : Json) : Json.loads j.dumps = some j := by
  simp [Json.loads, Json.dumps, decodeUtf8_encodeUtf8, Json.ofText_text]

/-- The bytes of an object end in a closing brace. -/
theorem Json.dumps_obj (kvs : List (String × Json)) : ∃ b, (Json.obj kvs).dumps = b ++ [0x7d] := by
  cases kvs with
  | nil => exact ⟨[0x7b], by decide⟩
  | cons kv kvs =>
    obtain ⟨k, v⟩ := kv
    rw [Json.dumps, Json.text, encodeUtf8, List.flatMap_append]
    exact ⟨_, rfl⟩

end Lib
