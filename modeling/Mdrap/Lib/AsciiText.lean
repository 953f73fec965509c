import Mdrap.Lib.JsonText

/-!
# JSON in ASCII

A layout without blanks that writes every character beyond ASCII as an escape. A value that is no array and no object is read back
from the start of a text, whatever stops it; so two arrays of such values with the same text are the same array.
-/

namespace Lib

/-- No blanks, and only ASCII characters. -/
def Style.ascii : Style := { itemSep := [','], keySep := [':'], esc := escAscii }

/-! ## Strings -/

/-- The code units of a character. -/
def charUnits (c : Char) : List Nat :=
  if c.toNat < 65536 then [c.toNat] else [55296 + (c.toNat - 65536) / 1024, 56320 + (c.toNat - 65536) % 1024]

theorem parseUnits_hexUnit {n : Nat} (hn : n < 65536) (r : List Char) :
    parseUnits (hexUnit n ++ r) = (parseUnits r).map (fun p => (n :: p.1, p.2)) := by
  have hu : hex4 (n / 4096 % 16).digitChar (n / 256 % 16).digitChar (n / 16 % 16).digitChar (n % 16).digitChar = some n := by
    simp only [hex4, hexVal_digitChar (n / 4096 % 16) (by omega), hexVal_digitChar (n / 256 % 16) (by omega),
      hexVal_digitChar (n / 16 % 16) (by omega), hexVal_digitChar (n % 16) (by omega), bind, Option.bind, pure, Option.some.injEq]
    omega
  simp only [hexUnit, List.cons_append, List.nil_append]
  rw [parseUnits]
  simp only [hu]

/-- A character of a string is read back as its code units. -/
theorem parseUnits_escAscii (c : Char) (r : List Char) :
    parseUnits (escAscii c ++ r) = (parseUnits r).map (fun p => (charUnits c ++ p.1, p.2)) := by
  have hv : c.toNat.isValidChar := c.valid
  have hmax : c.toNat < 1114112 := by rcases hv with h | h <;> omega
  unfold escAscii charUnits
  cases h : escControl c with
  | some t =>
    have hsmall : c.toNat < 65536 := by
      unfold escControl at h
      repeat' split at h
      all_goals first | omega | (subst c; decide) | cases h
    simp only [if_pos hsmall]
    exact parseUnits_escControl h r
  | none =>
    simp only
    split
    · rw [if_pos (by omega)]
      exact parseUnits_plain h r
    · split
      · exact parseUnits_hexUnit (by assumption) r
      · rw [List.append_assoc, parseUnits_hexUnit (by omega), parseUnits_hexUnit (by omega), Option.map_map]
        rfl

theorem parseUnits_ascii (cs r : List Char) :
    parseUnits (cs.flatMap escAscii ++ '\"' :: r) = some (cs.flatMap charUnits, r) := by
  induction cs with
  | nil => rfl
  | cons c cs ih =>
    rw [List.flatMap_cons, List.append_assoc, parseUnits_escAscii, ih, List.flatMap_cons]
    rfl

/-- A code unit that is not the first of a pair is a character of its own. -/
theorem joinUnits_single {u : Nat} (hu : ¬(55296 ≤ u ∧ u < 56320)) (us : List Nat) :
    joinUnits (u :: us) = unitChar u :: joinUnits us := by
  cases us with
  | nil => rfl
  | cons v vs => rw [joinUnits, if_neg (fun h => hu ⟨h.1, h.2.1⟩)]

theorem joinUnits_charUnits (cs : List Char) : joinUnits (cs.flatMap charUnits) = cs := by
  induction cs with
  | nil => rfl
  | cons c cs ih =>
    have hv : c.toNat.isValidChar := c.valid
    have hmax : c.toNat < 1114112 := by rcases hv with h | h <;> omega
    rw [List.flatMap_cons, charUnits]
    split
    · rw [List.singleton_append, joinUnits_single (not_surrogate c), unitChar_toNat, ih]
    · have hjoin : 65536 + (55296 + (c.toNat - 65536) / 1024 - 55296) * 1024 +
          (56320 + (c.toNat - 65536) % 1024 - 56320) = c.toNat := by omega
      rw [List.cons_append, List.singleton_append, joinUnits, if_pos (by omega), hjoin, unitChar_toNat, ih]

/-- A string is read back. -/
theorem parseStr_ascii (s : String) (r : List Char) : parseStr (s.toList.flatMap escAscii ++ '\"' :: r) = some (s, r) := by
  simp [parseStr, parseUnits_ascii, joinUnits_charUnits]

/-! ## Arrays of simple values -/

/-- Neither an array nor an object. -/
def Json.isScalar : Json → Bool
  | .arr _ => false
  | .obj _ => false
  | _ => true

@[simp] theorem Json.isScalar_str (s : String) : (Json.str s).isScalar = true := rfl

@[simp] theorem Json.isScalar_int (n : Int) : (Json.int n).isScalar = true := rfl

theorem parseValue_scalar {j : Json} (hj : j.isScalar = true) {r : List Char} (hr : Stops r) :
    parseValue 1 (j.text .ascii ++ r) = some (j, r) := by
  cases j with
  | null => rfl
  | bool b => cases b <;> rfl
  | int n =>
    rw [Json.text, ((opensNumber_intText n).append r).parseValue]
    exact parseNumber_intText n hr
  | float x =>
    rw [Json.text, ((opensNumber_float x).append r).parseValue]
    exact parseNumber_float x hr
  | str s =>
    have hstr := parseStr_ascii s r
    simp [Json.text, strText, Style.ascii, parseValue, hstr]
  | arr xs => cases hj
  | obj kvs => cases hj

/-- A simple value is the only one that its text begins with. -/
theorem text_ascii_inj {j j' : Json} (hj : j.isScalar = true) (hj' : j'.isScalar = true) {r r' : List Char} (hr : Stops r)
    (hr' : Stops r') (h : j.text .ascii ++ r = j'.text .ascii ++ r') : j = j' ∧ r = r' := by
  have hread := parseValue_scalar hj hr
  rw [h, parseValue_scalar hj' hr'] at hread
  cases hread
  exact ⟨rfl, rfl⟩

/-- A layout with only ASCII characters and a comma between items. -/
structure Style.IsAscii (st : Style) : Prop where
  esc : st.esc = escAscii
  itemSep : ∃ r, st.itemSep = ',' :: r

theorem isAscii_ascii : Style.ascii.IsAscii := ⟨rfl, [], rfl⟩

theorem isAscii_default : Style.default.IsAscii := ⟨rfl, [' '], rfl⟩

section

variable {st : Style}

theorem Style.IsAscii.text_eq (hst : st.IsAscii) {j : Json} (hj : j.isScalar = true) : j.text st = j.text .ascii := by
  cases j with
  | bool b => cases b <;> simp [Json.text]
  | str s =>
    rw [Json.text, Json.text, strText, strText, hst.esc]
    rfl
  | arr xs => cases hj
  | obj kvs => cases hj
  | _ => simp [Json.text]

theorem Style.IsAscii.stops_itemsText (hst : st.IsAscii) (xs : List Json) : Stops (itemsText st xs ++ [']']) := by
  cases xs with
  | nil => exact stops_cons (.inr (.inl rfl)) _
  | cons x xs =>
    obtain ⟨r, hsep⟩ := hst.itemSep
    rw [itemsText, hsep]
    exact stops_cons (.inl rfl) _

theorem Style.IsAscii.itemsText_inj (hst : st.IsAscii) {xs ys : List Json} (hxs : ∀ j ∈ xs, j.isScalar = true)
    (hys : ∀ j ∈ ys, j.isScalar = true) (h : itemsText st xs ++ [']'] = itemsText st ys ++ [']']) : xs = ys := by
  obtain ⟨sep, hsep⟩ := hst.itemSep
  induction xs generalizing ys with
  | nil =>
    cases ys with
    | nil => rfl
    | cons y ys => simp [itemsText, hsep] at h
  | cons x xs ih =>
    cases ys with
    | nil => simp [itemsText, hsep] at h
    | cons y ys =>
      rw [itemsText, itemsText, List.append_assoc, List.append_assoc, List.append_assoc, List.append_assoc,
        hst.text_eq (hxs x (by simp)), hst.text_eq (hys y (by simp))] at h
      obtain ⟨hx, hrest⟩ := text_ascii_inj (hxs x (by simp)) (hys y (by simp)) (hst.stops_itemsText xs) (hst.stops_itemsText ys)
        (List.append_cancel_left h)
      rw [hx, ih (fun j hj => hxs j (by simp [hj])) (fun j hj => hys j (by simp [hj])) hrest]

/-- No simple value begins as an array ends. -/
theorem Style.IsAscii.text_ne (hst : st.IsAscii) {j : Json} (hj : j.isScalar = true) (r : List Char) : j.text st ++ r ≠ [']'] := by
  rw [hst.text_eq hj]
  obtain ⟨c, cs, htext, -, hc, -⟩ := opens_text .ascii j
  rw [htext]
  intro h
  exact hc (List.cons.inj h).1

/-- Arrays of simple values with the same text are the same. -/
theorem Style.IsAscii.arr_inj (hst : st.IsAscii) {xs ys : List Json} (hxs : ∀ j ∈ xs, j.isScalar = true)
    (hys : ∀ j ∈ ys, j.isScalar = true) (h : (Json.arr xs).text st = (Json.arr ys).text st) : xs = ys := by
  cases xs with
  | nil =>
    cases ys with
    | nil => rfl
    | cons y ys =>
      simp only [Json.text, List.cons_append, List.append_assoc, List.cons.injEq, true_and] at h
      exact absurd h.symm (hst.text_ne (hys y (by simp)) _)
  | cons x xs =>
    cases ys with
    | nil =>
      simp only [Json.text, List.cons_append, List.append_assoc, List.cons.injEq, true_and] at h
      exact absurd h (hst.text_ne (hxs x (by simp)) _)
    | cons y ys =>
      simp only [Json.text, List.cons_append, List.append_assoc, List.cons.injEq, true_and] at h
      rw [hst.text_eq (hxs x (by simp)), hst.text_eq (hys y (by simp))] at h
      obtain ⟨hx, hrest⟩ := text_ascii_inj (hxs x (by simp)) (hys y (by simp)) (hst.stops_itemsText xs) (hst.stops_itemsText ys) h
      rw [hx, hst.itemsText_inj (fun j hj => hxs j (by simp [hj])) (fun j hj => hys j (by simp [hj])) hrest]

end

end Lib
