import Mathlib.Tactic.Common
import Mathlib.Algebra.Order.Ring.Int
import Mathlib.Algebra.BigOperators.Group.List.Basic

/-!
# JSON: values, the text a value is written as, and the values a text denotes

A number with a fraction or an exponent is a floating-point number. It is given here by its shortest decimal, which is what
is written (`Decimal.repr`) and what is read back (`Decimal.ofParts`); no other property of the format is used. A text is a
list of characters; `encodeUtf8` and `decodeUtf8` relate it to bytes.

An object is the list of its members in the order they were written. Where a text repeats a key, the last member wins
(`Json.get`), as it does in a dictionary.
-/

namespace Lib

/-- A finite floating-point number, by its shortest decimal `± mant * 10 ^ exp`: the mantissa ends in no zero. -/
structure Decimal where
  neg : Bool
  mant : Nat
  exp : Int
  canon : mant % 10 ≠ 0 ∨ (mant = 0 ∧ exp = 0)
  deriving DecidableEq

/-- A floating-point number. -/
inductive Float64 where
  | nan
  | inf (neg : Bool)
  | dec (d : Decimal)
  deriving DecidableEq

/-- A JSON value. -/
inductive Json where
  | null
  | bool (b : Bool)
  | int (n : Int)
  | float (x : Float64)
  | str (s : String)
  | arr (xs : List Json)
  | obj (kvs : List (String × Json))

instance : Inhabited Json := ⟨.null⟩

/-- The member of a name, `null` and missing members told apart. -/
def Json.get? (k : String) : Json → Option Json
  | .obj kvs => (kvs.reverse.find? (fun kv => kv.1 == k)).map (·.2)
  | _ => none

/-- The member of a name, with `null` for a missing one. -/
def Json.get (j : Json) (k : String) : Json := (j.get? k).getD .null

/-- An object, as opposed to any other value. -/
def Json.isObj : Json → Bool
  | .obj _ => true
  | _ => false

/-! ## Decimals -/

/-- Move trailing zeros of the mantissa to the exponent, at most as many as the first argument. -/
def stripZeros : Nat → Nat → Int → Nat × Int
  | 0, m, e => (m, e)
  | n + 1, m, e => if m % 10 = 0 then stripZeros n (m / 10) (e + 1) else (m, e)

/-- Enough rounds leave a mantissa with no trailing zero. -/
theorem stripZeros_canon (n m : Nat) (e : Int) (hm : m ≠ 0) (h : m ≤ n) : (stripZeros n m e).1 % 10 ≠ 0 := by
  induction n generalizing m e with
  | zero => omega
  | succ n ih =>
    rw [stripZeros]
    split
    · exact ih (m / 10) (e + 1) (by omega) (by omega)
    · assumption

/-- The decimal `± m * 10 ^ e`. -/
def Decimal.ofParts (neg : Bool) (m : Nat) (e : Int) : Decimal :=
  if hm : m = 0 then ⟨neg, 0, 0, Or.inr ⟨rfl, rfl⟩⟩
  else ⟨neg, (stripZeros m m e).1, (stripZeros m m e).2, Or.inl (stripZeros_canon m m e hm (Nat.le_refl m))⟩

/-- The exponent part of a number: a sign and at least two digits. -/
def expText (e : Int) : List Char :=
  let ds := Nat.toDigits 10 e.natAbs
  'e' :: (if e < 0 then '-' else '+') :: (if ds.length < 2 then '0' :: ds else ds)

/-- A number without its sign, from the digits of the mantissa and the place of the decimal point after the first digit:
an exponent for a point at or before `-4` or beyond `16`, and positional otherwise. -/
def digitsText (ds : List Char) (point : Int) : List Char :=
  if point ≤ -4 ∨ 16 < point then
    match ds with
    | [] => []
    | d :: rest => d :: (if rest = [] then [] else '.' :: rest) ++ expText (point - 1)
  else if point ≤ 0 then '0' :: '.' :: List.replicate (-point).toNat '0' ++ ds
  else if point.toNat < ds.length then ds.take point.toNat ++ '.' :: ds.drop point.toNat
  else ds ++ List.replicate (point.toNat - ds.length) '0' ++ ['.', '0']

/-- The text of a decimal. -/
def Decimal.repr (d : Decimal) : List Char :=
  let ds := Nat.toDigits 10 d.mant
  (if d.neg then ['-'] else []) ++ digitsText ds (ds.length + d.exp)

/-- The text of a floating-point number. -/
def Float64.repr : Float64 → List Char
  | .nan => ['N', 'a', 'N']
  | .inf neg => (if neg then ['-'] else []) ++ ['I', 'n', 'f', 'i', 'n', 'i', 't', 'y']
  | .dec d => d.repr

/-- The text of an integer. -/
def intText (n : Int) : List Char := (if n < 0 then ['-'] else []) ++ Nat.toDigits 10 n.natAbs

/-! ## Writing -/

/-- How a value is laid out: what stands between items, what stands after a key, and how a character of a string is
written. -/
structure Style where
  itemSep : List Char
  keySep : List Char
  esc : Char → List Char

/-- The two escapes every style shares: the quote and the backslash, and the control characters. -/
def escControl (c : Char) : Option (List Char) :=
  if c = '\"' then some ['\\', '\"']
  else if c = '\\' then some ['\\', '\\']
  else if c = '\n' then some ['\\', 'n']
  else if c = '\r' then some ['\\', 'r']
  else if c = '\t' then some ['\\', 't']
  else if c.toNat = 8 then some ['\\', 'b']
  else if c.toNat = 12 then some ['\\', 'f']
  else if c.toNat < 32 then some ['\\', 'u', '0', '0', (c.toNat / 16).digitChar, (c.toNat % 16).digitChar]
  else none

/-- A character written as itself where no escape is needed. -/
def escPlain (c : Char) : List Char := (escControl c).getD [c]

/-- The four hexadecimal digits of a code unit. -/
def hexUnit (n : Nat) : List Char :=
  ['\\', 'u', (n / 4096 % 16).digitChar, (n / 256 % 16).digitChar, (n / 16 % 16).digitChar, (n % 16).digitChar]

/-- A character written with an escape where it is not a printable one of ASCII, as a pair of code units beyond the basic plane. -/
def escAscii (c : Char) : List Char :=
  match escControl c with
  | some t => t
  | none =>
    if c.toNat < 127 then [c]
    else if c.toNat < 65536 then hexUnit c.toNat
    else hexUnit (55296 + (c.toNat - 65536) / 1024) ++ hexUnit (56320 + (c.toNat - 65536) % 1024)

/-- No blanks, and every character but the escapes written as itself. -/
def Style.compact : Style := { itemSep := [','], keySep := [':'], esc := escPlain }

/-- A blank after every separator, and only ASCII characters. -/
def Style.default : Style := { itemSep := [',', ' '], keySep := [':', ' '], esc := escAscii }

/-- The text of a string. -/
def strText (st : Style) (s : String) : List Char := '\"' :: s.toList.flatMap st.esc ++ ['\"']

mutual

/-- The text of a value. -/
def Json.text (st : Style) : Json → List Char
  | .null => ['n', 'u', 'l', 'l']
  | .bool true => ['t', 'r', 'u', 'e']
  | .bool false => ['f', 'a', 'l', 's', 'e']
  | .int n => intText n
  | .float x => x.repr
  | .str s => strText st s
  | .arr [] => ['[', ']']
  | .arr (x :: xs) => '[' :: x.text st ++ itemsText st xs ++ [']']
  | .obj [] => ['\x7b', '\x7d']
  | .obj ((k, v) :: kvs) => '\x7b' :: strText st k ++ st.keySep ++ v.text st ++ membersText st kvs ++ ['\x7d']

/-- The items of an array after the first. -/
def itemsText (st : Style) : List Json → List Char
  | [] => []
  | x :: xs => st.itemSep ++ x.text st ++ itemsText st xs

/-- The members of an object after the first. -/
def membersText (st : Style) : List (String × Json) → List Char
  | [] => []
  | (k, v) :: kvs => st.itemSep ++ strText st k ++ st.keySep ++ v.text st ++ membersText st kvs

end

/-! ## Reading -/

/-- Blanks between tokens. -/
def isWs (c : Char) : Bool := c == ' ' || c == '\n' || c == '\r' || c == '\t'

def skipWs (cs : List Char) : List Char := cs.dropWhile isWs

/-- The value of a hexadecimal digit. -/
def hexVal (c : Char) : Option Nat :=
  if '0' ≤ c ∧ c ≤ '9' then some (c.toNat - 48)
  else if 'a' ≤ c ∧ c ≤ 'f' then some (c.toNat - 87)
  else if 'A' ≤ c ∧ c ≤ 'F' then some (c.toNat - 55)
  else none

/-- The code unit of four hexadecimal digits. -/
def hex4 (a b c d : Char) : Option Nat := do
  let a ← hexVal a
  let b ← hexVal b
  let c ← hexVal c
  let d ← hexVal d
  return ((a * 16 + b) * 16 + c) * 16 + d

/-- The character of a code point. A surrogate that stands alone has no character and is read as the replacement
character. -/
def unitChar (n : Nat) : Char := if n.isValidChar then Char.ofNat n else Char.ofNat 65533

/-- The character of a one-letter escape. -/
def unescape (c : Char) : Option Char :=
  if c = '\"' ∨ c = '\\' ∨ c = '/' then some c
  else if c = 'n' then some '\n'
  else if c = 'r' then some '\r'
  else if c = 't' then some '\t'
  else if c = 'b' then some (Char.ofNat 8)
  else if c = 'f' then some (Char.ofNat 12)
  else none

/-- The code units of a string up to its closing quote, and the text after it. -/
def parseUnits : List Char → Option (List Nat × List Char)
  | [] => none
  | '\"' :: r => some ([], r)
  | '\\' :: 'u' :: a :: b :: c :: d :: r =>
    match hex4 a b c d with
    | none => none
    | some u => (parseUnits r).map (fun p => (u :: p.1, p.2))
  | '\\' :: c :: r =>
    match unescape c with
    | none => none
    | some x => (parseUnits r).map (fun p => (x.toNat :: p.1, p.2))
  | c :: r => if c.toNat < 32 then none else (parseUnits r).map (fun p => (c.toNat :: p.1, p.2))

/-- The characters of code units: a high surrogate and the low one after it are one character. -/
def joinUnits : List Nat → List Char
  | [] => []
  | [u] => [unitChar u]
  | hi :: lo :: r =>
    if 55296 ≤ hi ∧ hi < 56320 ∧ 56320 ≤ lo ∧ lo < 57344 then
      unitChar (65536 + (hi - 55296) * 1024 + (lo - 56320)) :: joinUnits r
    else unitChar hi :: joinUnits (lo :: r)

/-- The string up to its closing quote, and the text after it. -/
def parseStr (cs : List Char) : Option (String × List Char) :=
  (parseUnits cs).map (fun p => (String.ofList (joinUnits p.1), p.2))

/-- The digits a text starts with, and the text after them. -/
def spanDigits (cs : List Char) : List Char × List Char := (cs.takeWhile Char.isDigit, cs.dropWhile Char.isDigit)

/-- The integer part of a number: a single zero, or digits. -/
def parseIntPart : List Char → Option (List Char × List Char)
  | '0' :: r => some (['0'], r)
  | cs => if (spanDigits cs).1 = [] then none else some (spanDigits cs)

/-- The fraction of a number, if it has one. -/
def parseFrac : List Char → Option (List Char) × List Char
  | '.' :: r => if (spanDigits r).1 = [] then (none, '.' :: r) else (some (spanDigits r).1, (spanDigits r).2)
  | r => (none, r)

/-- The sign of an exponent. -/
def parseExpSign : List Char → Bool × List Char
  | '-' :: r => (true, r)
  | '+' :: r => (false, r)
  | r => (false, r)

/-- The exponent of a number, if it has one. -/
def parseExp : List Char → Option Int × List Char
  | c :: r =>
    if c = 'e' ∨ c = 'E' then
      let (neg, r') := parseExpSign r
      let (ds, r'') := spanDigits r'
      if ds = [] then (none, c :: r)
      else (some (if neg then -(Nat.ofDigitChars 10 ds 0 : Int) else (Nat.ofDigitChars 10 ds 0 : Int)), r'')
    else (none, c :: r)
  | [] => (none, [])

/-- A number without its sign: an integer, or a floating-point number when it has a fraction or an exponent. -/
def parseUnsigned (neg : Bool) (cs : List Char) : Option (Json × List Char) := do
  let (ds, r) ← parseIntPart cs
  match parseFrac r with
  | (none, r) =>
    match parseExp r with
    | (none, r) =>
      let n : Int := Nat.ofDigitChars 10 ds 0
      return (.int (if neg then -n else n), r)
    | (some e, r) => return (.float (.dec (Decimal.ofParts neg (Nat.ofDigitChars 10 ds 0) e)), r)
  | (some fs, r) =>
    let (e, r) := parseExp r
    return (.float (.dec (Decimal.ofParts neg (Nat.ofDigitChars 10 (ds ++ fs) 0) (e.getD 0 - fs.length))), r)

/-- A number, or one of the three words for a number that is not finite. -/
def parseNumber : List Char → Option (Json × List Char)
  | 'N' :: 'a' :: 'N' :: r => some (.float .nan, r)
  | 'I' :: 'n' :: 'f' :: 'i' :: 'n' :: 'i' :: 't' :: 'y' :: r => some (.float (.inf false), r)
  | '-' :: 'I' :: 'n' :: 'f' :: 'i' :: 'n' :: 'i' :: 't' :: 'y' :: r => some (.float (.inf true), r)
  | '-' :: r => parseUnsigned true r
  | r => parseUnsigned false r

mutual

/-- A value at the start of a text, and the text after it. The first argument bounds the depth of the calls. -/
def parseValue : Nat → List Char → Option (Json × List Char)
  | 0, _ => none
  | n + 1, cs =>
    match cs with
    | '\"' :: r => (parseStr r).map (fun p => (.str p.1, p.2))
    | '\x7b' :: r =>
      match skipWs r with
      | '\x7d' :: r' => some (.obj [], r')
      | r' => (parseMembers n r').map (fun p => (.obj p.1, p.2))
    | '[' :: r =>
      match skipWs r with
      | ']' :: r' => some (.arr [], r')
      | r' => (parseItems n r').map (fun p => (.arr p.1, p.2))
    | 'n' :: 'u' :: 'l' :: 'l' :: r => some (.null, r)
    | 't' :: 'r' :: 'u' :: 'e' :: r => some (.bool true, r)
    | 'f' :: 'a' :: 'l' :: 's' :: 'e' :: r => some (.bool false, r)
    | r => parseNumber r

/-- The items of an array, from a value to the closing bracket. -/
def parseItems : Nat → List Char → Option (List Json × List Char)
  | 0, _ => none
  | n + 1, cs => do
    let (x, r) ← parseValue n cs
    match skipWs r with
    | ']' :: r' => return ([x], r')
    | ',' :: r' =>
      let (xs, r'') ← parseItems n (skipWs r')
      return (x :: xs, r'')
    | _ => none

/-- The members of an object, from a key to the closing brace. -/
def parseMembers : Nat → List Char → Option (List (String × Json) × List Char)
  | 0, _ => none
  | n + 1, cs =>
    match cs with
    | '\"' :: r => do
      let (k, r) ← parseStr r
      match skipWs r with
      | ':' :: r' =>
        let (v, r'') ← parseValue n (skipWs r')
        match skipWs r'' with
        | '\x7d' :: r3 => return ([(k, v)], r3)
        | ',' :: r3 =>
          let (kvs, r4) ← parseMembers n (skipWs r3)
          return ((k, v) :: kvs, r4)
        | _ => none
      | _ => none
    | _ => none

end

/-- The value a whole text denotes. Every call consumes a character or is made once for a character, so twice the length
is enough depth. -/
def Json.ofText (cs : List Char) : Option Json :=
  match parseValue (2 * cs.length + 2) (skipWs cs) with
  | some (j, r) => if skipWs r = [] then some j else none
  | none => none

/-! ## Bytes -/

/-- The UTF-8 bytes of a text. -/
def encodeUtf8 (cs : List Char) : List UInt8 := cs.flatMap String.utf8EncodeChar

/-- The text of UTF-8 bytes, if they are valid. -/
def decodeUtf8 (b : List UInt8) : Option (List Char) := (ByteArray.mk b.toArray).utf8Decode?.map (·.toList)

/-- A value written as bytes. -/
def Json.dumps (j : Json) : List UInt8 := encodeUtf8 (j.text .compact)

/-- The value bytes denote. -/
def Json.loads (b : List UInt8) : Option Json := (decodeUtf8 b).bind Json.ofText

end Lib
