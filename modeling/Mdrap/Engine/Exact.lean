import Mdrap.Engine.Types
import Mathlib.Algebra.Order.Field.Rat

/-!
# The built-ins, with exact floating-point numbers

Integers are unbounded, and floating-point numbers are read as exact rationals: nothing is rounded. What is left of the format is
its range: a conversion, a quotient of integers and a power raise where the result is beyond the largest number. A root is taken
to sixty binary places.
-/

namespace Mdrap

open Lib

/-- A floating-point number, not rounded. -/
inductive ExactFloat where
  | nan
  | inf (neg : Bool)
  | fin (q : Rat)
  deriving DecidableEq

/-- A number of Python. -/
inductive PyNum where
  | int (n : Int)
  | float (x : ExactFloat)
  deriving DecidableEq

namespace PyNum

/-- The first magnitude that is not rounded to a finite number. -/
def floatBound : Rat := 2 ^ 1024 - 2 ^ 970

/-- The rational of a decimal. -/
def ofDecimal (d : Decimal) : Rat :=
  (if d.neg then -1 else 1) * (if 0 ≤ d.exp then (d.mant : Rat) * 10 ^ d.exp.toNat else (d.mant : Rat) / 10 ^ (-d.exp).toNat)

def ofFloat64 : Float64 → ExactFloat
  | .nan => .nan
  | .inf neg => .inf neg
  | .dec d => .fin (ofDecimal d)

/-- The decimal of a rational that has one. -/
def toFloat64 : ExactFloat → Float64
  | .nan => .nan
  | .inf neg => .inf neg
  | .fin q =>
    let k := q.den.log2
    if 10 ^ k % q.den = 0 then .dec (Decimal.ofParts (q < 0) (q.num.natAbs * (10 ^ k / q.den)) (-(k : Int))) else .nan

/-- An integer as a floating-point number. -/
def intToFloat (n : Int) : Except PyError ExactFloat :=
  if |(n : Rat)| < floatBound then .ok (.fin n) else .error ⟨"OverflowError", "int too large to convert to float"⟩

def toFloat : PyNum → Except PyError ExactFloat
  | .int n => intToFloat n
  | .float x => .ok x

/-- The name of the type of a value. -/
def typeName : Json → String
  | .null => "NoneType"
  | .bool _ => "bool"
  | .int _ => "int"
  | .float _ => "float"
  | .str _ => "str"
  | .arr _ => "list"
  | .obj _ => "dict"

/-- A value as an operand. -/
def ofJson : Json → Except PyError PyNum
  | .bool b => .ok (.int (if b then 1 else 0))
  | .int n => .ok (.int n)
  | .float x => .ok (.float (ofFloat64 x))
  | j => .error ⟨"TypeError", s!"unsupported operand type: {typeName j}"⟩

/-- `float`. -/
def pyFloat : Json → Except PyError PyNum
  | .bool b => .ok (.float (.fin (if b then 1 else 0)))
  | .int n => (intToFloat n).map .float
  | .float x => .ok (.float (ofFloat64 x))
  | .str s =>
    match Json.ofText s.toList with
    | some (.int n) => (intToFloat n).map .float
    | some (.float x) => .ok (.float (ofFloat64 x))
    | _ => .error ⟨"ValueError", s!"could not convert string to float: {s}"⟩
  | j => .error ⟨"TypeError", s!"float() argument must be a string or a real number, not {typeName j}"⟩

def negInf : ExactFloat → Bool
  | .inf neg => neg
  | .fin q => q < 0
  | .nan => false

def neg : ExactFloat → ExactFloat
  | .nan => .nan
  | .inf s => .inf (!s)
  | .fin q => .fin (-q)

def addFloat : ExactFloat → ExactFloat → ExactFloat
  | .fin a, .fin b => .fin (a + b)
  | .nan, _ => .nan
  | _, .nan => .nan
  | .inf s, .inf t => if s = t then .inf s else .nan
  | .inf s, .fin _ => .inf s
  | .fin _, .inf s => .inf s

def mulFloat : ExactFloat → ExactFloat → ExactFloat
  | .fin a, .fin b => .fin (a * b)
  | .nan, _ => .nan
  | _, .nan => .nan
  | x, y => if x = .fin 0 ∨ y = .fin 0 then .nan else .inf (negInf x != negInf y)

def divFloat : ExactFloat → ExactFloat → Except PyError ExactFloat
  | _, .fin 0 => .error ⟨"ZeroDivisionError", "float division by zero"⟩
  | .fin a, .fin b => .ok (.fin (a / b))
  | .nan, _ => .ok .nan
  | _, .nan => .ok .nan
  | .inf _, .inf _ => .ok .nan
  | .inf s, y => .ok (.inf (s != negInf y))
  | .fin _, .inf _ => .ok (.fin 0)

/-- An operation that keeps integers. -/
def arith (onInt : Int → Int → Int) (onFloat : ExactFloat → ExactFloat → ExactFloat) (a b : PyNum) : Except PyError PyNum :=
  match a, b with
  | .int m, .int n => .ok (.int (onInt m n))
  | a, b => do return .float (onFloat (← a.toFloat) (← b.toFloat))

def div (a b : PyNum) : Except PyError PyNum :=
  match a, b with
  | .int _, .int 0 => .error ⟨"ZeroDivisionError", "division by zero"⟩
  | .int m, .int n =>
    if |(m : Rat) / n| < floatBound then .ok (.float (.fin (m / n)))
    else .error ⟨"OverflowError", "integer division result too large for a float"⟩
  | a, b => do return .float (← divFloat (← a.toFloat) (← b.toFloat))

/-- `x ** 2`. -/
def square : PyNum → Except PyError PyNum
  | .int n => .ok (.int (n * n))
  | .float (.fin q) =>
    if q * q < floatBound then .ok (.float (.fin (q * q))) else .error ⟨"OverflowError", "(34, 'Numerical result out of range')"⟩
  | .float x => .ok (.float (mulFloat x x))

/-- `math.sqrt`. -/
def sqrt (a : PyNum) : Except PyError PyNum := do
  match ← a.toFloat with
  | .fin q =>
    if q < 0 then .error ⟨"ValueError", "math domain error"⟩
    else .ok (.float (.fin ((Nat.sqrt (q.num.natAbs * q.den * 2 ^ 120) : Rat) / (q.den * 2 ^ 60))))
  | .inf true => .error ⟨"ValueError", "math domain error"⟩
  | x => .ok (.float x)

def abs : PyNum → PyNum
  | .int n => .int n.natAbs
  | .float (.fin q) => .float (.fin |q|)
  | .float (.inf _) => .float (.inf false)
  | .float .nan => .float .nan

/-- A number as it is compared: integers are not converted. -/
def value : PyNum → ExactFloat
  | .int n => .fin n
  | .float x => x

def ltFloat : ExactFloat → ExactFloat → Bool
  | .fin a, .fin b => a < b
  | .nan, _ => false
  | _, .nan => false
  | .inf s, .inf t => s && !t
  | .inf s, .fin _ => s
  | .fin _, .inf s => !s

def eqFloat : ExactFloat → ExactFloat → Bool
  | .nan, _ => false
  | x, y => x = y

/-- The number as JSON. -/
def toJson : PyNum → Json
  | .int n => .int n
  | .float x => .float (toFloat64 x)

end PyNum

/-! ## Texts -/

/-- `repr` of a string. -/
def reprStr (s : String) : String :=
  let q := if s.toList.contains '\x27' && !s.toList.contains '\"' then '\"' else '\x27'
  let esc (c : Char) : List Char :=
    if c = '\\' ∨ c = q then ['\\', c]
    else if c = '\n' then ['\\', 'n']
    else if c = '\r' then ['\\', 'r']
    else if c = '\t' then ['\\', 't']
    else if c.toNat < 32 ∨ c.toNat = 127 then ['\\', 'x', (c.toNat / 16).digitChar, (c.toNat % 16).digitChar]
    else [c]
  String.ofList (q :: s.toList.flatMap esc ++ [q])

def reprFloat : Float64 → String
  | .nan => "nan"
  | .inf neg => if neg then "-inf" else "inf"
  | .dec d => String.ofList d.repr

mutual

/-- `repr`. -/
def pyRepr : Json → String
  | .null => "None"
  | .bool b => if b then "True" else "False"
  | .int n => String.ofList (intText n)
  | .float x => reprFloat x
  | .str s => reprStr s
  | .arr xs => "[" ++ ", ".intercalate (reprItems xs) ++ "]"
  | .obj kvs => "\x7b" ++ ", ".intercalate (reprMembers kvs) ++ "\x7d"

def reprItems : List Json → List String
  | [] => []
  | x :: xs => pyRepr x :: reprItems xs

def reprMembers : List (String × Json) → List String
  | [] => []
  | (k, v) :: kvs => (reprStr k ++ ": " ++ pyRepr v) :: reprMembers kvs

end

/-- `str`: a string stands for itself. -/
def pyStr : Json → String
  | .str s => s
  | j => pyRepr j

/-- The built-ins with exact numbers. -/
def exactPy : Py PyNum where
  str := pyStr
  repr := pyRepr
  num := PyNum.ofJson
  float := PyNum.pyFloat
  toJson := PyNum.toJson
  lit d := .float (.fin (PyNum.ofDecimal d))
  add := PyNum.arith (· + ·) PyNum.addFloat
  sub := PyNum.arith (· - ·) (fun a b => PyNum.addFloat a (PyNum.neg b))
  mul := PyNum.arith (· * ·) PyNum.mulFloat
  div := PyNum.div
  square := PyNum.square
  sqrt := PyNum.sqrt
  sum xs := xs.foldlM (PyNum.arith (· + ·) PyNum.addFloat) (.int 0)
  abs := PyNum.abs
  lt a b := PyNum.ltFloat a.value b.value
  eq a b := PyNum.eqFloat a.value b.value
  isNan a := a = .float .nan

/-- One tenth and a half are added as they are. -/
example : exactPy.add (.float (.fin (1 / 10))) (.float (.fin (1 / 2))) = .ok (.float (.fin (3 / 5))) := by decide +kernel

end Mdrap
