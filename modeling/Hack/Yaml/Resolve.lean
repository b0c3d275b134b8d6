/-
What a plain scalar means: a null, a truth value, an integer, a finite number or just its text.
Integers may be decimal, hexadecimal, octal or binary; digits after a leading zero are text.
-/
import Hack.Text.Read
namespace Hack.Yaml

open Text

/-! ## Integers -/

/-- The bases that two characters announce. -/
def bases : List (List Char × Nat) :=
  [(['0', 'x'], 16), (['0', 'o'], 8), (['0', 'b'], 2)]

def digit? (base : Nat) (c : Char) : Option Nat :=
  let value :=
    if c.isDigit then some (c.toNat - '0'.toNat)
    else if 'a' ≤ c ∧ c ≤ 'z' then some (c.toNat - 'a'.toNat + 10)
    else if 'A' ≤ c ∧ c ≤ 'Z' then some (c.toNat - 'A'.toNat + 10)
    else none
  value.filter (· < base)

/-- The value of a non-empty run of digits. -/
def digits? (base : Nat) (s : List Char) : Option Nat :=
  if s.isEmpty then none
  else (s.mapM (digit? base)).map fun ds => ds.foldl (fun n d => base * n + d) 0

/-- A number without a sign. A leading zero may only stand alone or announce a base. -/
def magnitude? (s : List Char) : Option Nat :=
  match bases.lookup (s.take 2) with
  | some base => digits? base (s.drop 2)
  | none => if s.length > 1 && s.head? = some '0' then none else digits? 10 s

def integer? : List Char → Option Int
  | '+' :: s => (magnitude? s).map Int.ofNat
  | '-' :: s => (magnitude? s).map fun n => -(n : Int)
  | s => (magnitude? s).map Int.ofNat

/-- Integers are told from text as far as 128 bits hold them. -/
def fits (i : Int) : Bool :=
  -Int.pow 2 127 ≤ i && i < Int.pow 2 128

/-! ## Other numbers -/

/-- A decimal number as its digits and the power of ten that they count. -/
structure Decimal where
  digits : List Char
  exponent : Int

/-- The digits before and after a point; there must be some. -/
def mantissa? (s : List Char) : Option Decimal :=
  let whole := s.takeWhile Char.isDigit
  match s.dropWhile Char.isDigit with
  | [] => if whole.isEmpty then none else some ⟨whole, 0⟩
  | c :: fraction =>
    if c = '.' && fraction.all Char.isDigit && !(whole.isEmpty && fraction.isEmpty) then
      some ⟨whole ++ fraction, -(fraction.length : Int)⟩
    else none

def exponent? : List Char → Option Int
  | '+' :: s => (digits? 10 s).map Int.ofNat
  | '-' :: s => (digits? 10 s).map fun n => -(n : Int)
  | s => (digits? 10 s).map Int.ofNat

def decimalNumber? (s : List Char) : Option Decimal := do
  let isE := fun c => c = 'e' || c = 'E'
  let m ← mantissa? (s.takeWhile fun c => !isE c)
  match s.dropWhile fun c => !isE c with
  | [] => some m
  | _ :: rest => do
    let e ← exponent? rest
    some { m with exponent := m.exponent + e }

/-- The least number that rounds to infinity in 64-bit floating point. -/
def overflowBound : Nat := Nat.pow 2 1024 - Nat.pow 2 970

/-- Whether a number is finite in 64-bit floating point. Far from the bound the number of digits
before the point decides. -/
def Decimal.finite (d : Decimal) : Bool :=
  let digits := d.digits.dropWhile (· = '0')
  let size := (digits.length : Int) + d.exponent
  if digits.isEmpty || size < 308 then true
  else if 310 < size then false
  else
    let value := (digits? 10 digits).getD 0
    if 0 ≤ d.exponent then value * Nat.pow 10 d.exponent.toNat < overflowBound
    else value < overflowBound * Nat.pow 10 (-d.exponent).toNat

def specialNumbers : List (List Char) :=
  [".inf", ".Inf", ".INF", "+.inf", "+.Inf", "+.INF", "-.inf", "-.Inf", "-.INF", ".nan", ".NaN",
    ".NAN"].map String.toList

def isNumber (s : List Char) : Bool :=
  let unsigned := match s with
    | '+' :: rest => rest
    | '-' :: rest => rest
    | _ => s
  let leadingZero := unsigned.length > 1 && unsigned.head? = some '0' && unsigned.all Char.isDigit
  !leadingZero && (s ∈ specialNumbers || (decimalNumber? unsigned).any Decimal.finite)

/-! ## Resolution -/

inductive Meaning
  | null
  | truth
  | integer (i : Int)
  | number
  | text
  deriving DecidableEq, Repr

def nullTexts : List (List Char) :=
  ["", "null", "Null", "NULL", "~"].map String.toList

def truthTexts : List (List Char) :=
  ["true", "True", "TRUE", "false", "False", "FALSE"].map String.toList

def meaning (s : List Char) : Meaning :=
  if s ∈ nullTexts then .null
  else if s ∈ truthTexts then .truth
  else match (integer? s).filter fits with
    | some i => .integer i
    | none => if isNumber s then .number else .text

end Hack.Yaml
