/-
The three fields of a computing instruction. A computation of the ALU takes the data register D as its first input,
and the address register A or the cell M that A points at as its second; it has a text, a seven-bit code and a
value, and each of the twenty-eight can be read back from its text, which for sums, conjunctions and disjunctions
may also have its operands exchanged. A destination is any set of A, D and M, and a jump condition any set of the
three signs that the output can have; the empty set stores nothing, or never jumps, and has no text of its own.
-/
namespace Hack

/-! ## Computations -/

/-- What the ALU's second input is connected to. -/
inductive Input
  | a
  | m
  deriving DecidableEq, Repr

inductive Comp
  | zero | one | negOne
  | d | notD | negD | succD | predD
  | y (i : Input) | notY (i : Input) | negY (i : Input) | succY (i : Input) | predY (i : Input)
  | add (i : Input)
  /-- D minus the second input. -/
  | sub (i : Input)
  /-- The second input minus D. -/
  | subD (i : Input)
  | and (i : Input) | or (i : Input)
  deriving DecidableEq, Repr

def Input.letter : Input → String
  | .a => "A"
  | .m => "M"

/-- The value at the second input. -/
def Input.pick (a m : UInt16) : Input → UInt16
  | .a => a
  | .m => m

namespace Comp

/-! ## Meaning -/

/-- The second input, if the computation uses it. -/
def input? : Comp → Option Input
  | .y i | .notY i | .negY i | .succY i | .predY i | .add i | .sub i | .subD i | .and i | .or i =>
    some i
  | _ => none

def readsMemory (c : Comp) : Bool :=
  c.input? = some .m

/-- The output on the registers `a` and `d` and the cell `m`; arithmetic wraps around. -/
def eval (a d m : UInt16) : Comp → UInt16
  | .zero => 0
  | .one => 1
  | .negOne => 0xFFFF
  | .d => d
  | .notD => ~~~d
  | .negD => -d
  | .succD => d + 1
  | .predD => d - 1
  | .y i => i.pick a m
  | .notY i => ~~~(i.pick a m)
  | .negY i => -(i.pick a m)
  | .succY i => i.pick a m + 1
  | .predY i => i.pick a m - 1
  | .add i => d + i.pick a m
  | .sub i => d - i.pick a m
  | .subD i => i.pick a m - d
  | .and i => d &&& i.pick a m
  | .or i => d ||| i.pick a m

/-- A computation that does not read memory gives the same output whatever the cell holds. -/
theorem eval_of_not_readsMemory {c : Comp} (h : c.readsMemory = false) (a d m m' : UInt16) :
    c.eval a d m = c.eval a d m' := by
  have pick {i : Input} (hi : i ≠ .m) : i.pick a m = i.pick a m' := by
    cases i <;> simp_all [Input.pick]
  cases c <;> simp_all [readsMemory, input?, eval]

/-! ## Code -/

/-- The six control bits of the ALU: zero the first input, complement it, zero the second input,
complement it, add instead of taking the conjunction, complement the output. -/
def control : Comp → UInt16
  | .zero => 0b101010
  | .one => 0b111111
  | .negOne => 0b111010
  | .d => 0b001100
  | .notD => 0b001101
  | .negD => 0b001111
  | .succD => 0b011111
  | .predD => 0b001110
  | .y _ => 0b110000
  | .notY _ => 0b110001
  | .negY _ => 0b110011
  | .succY _ => 0b110111
  | .predY _ => 0b110010
  | .add _ => 0b000010
  | .sub _ => 0b010011
  | .subD _ => 0b000111
  | .and _ => 0b000000
  | .or _ => 0b010101

/-- The control bits behind a bit that selects the cell as second input. -/
def bits (c : Comp) : UInt16 :=
  (if c.readsMemory then 0b1000000 else 0) ||| c.control

/-! ## Text -/

def text : Comp → String
  | .zero => "0"
  | .one => "1"
  | .negOne => "-1"
  | .d => "D"
  | .notD => "!D"
  | .negD => "-D"
  | .succD => "D+1"
  | .predD => "D-1"
  | .y i => i.letter
  | .notY i => "!" ++ i.letter
  | .negY i => "-" ++ i.letter
  | .succY i => i.letter ++ "+1"
  | .predY i => i.letter ++ "-1"
  | .add i => "D+" ++ i.letter
  | .sub i => "D-" ++ i.letter
  | .subD i => i.letter ++ "-D"
  | .and i => "D&" ++ i.letter
  | .or i => "D|" ++ i.letter

/-- Every computation, once. -/
def all : List Comp :=
  [.zero, .one, .negOne, .d, .notD, .negD, .succD, .predD] ++
    [Input.a, Input.m].flatMap fun i =>
      [.y i, .notY i, .negY i, .succY i, .predY i, .add i, .sub i, .subD i, .and i, .or i]

theorem mem_all (c : Comp) : c ∈ all := by
  cases c with
  | y i | notY i | negY i | succY i | predY i | add i | sub i | subD i | and i | or i =>
    cases i <;> decide
  | _ => decide

/-- The texts with exchanged operands. -/
def exchanged : List (String × Comp) :=
  [Input.a, Input.m].flatMap fun i =>
    [(i.letter ++ "+D", .add i), (i.letter ++ "&D", .and i), (i.letter ++ "|D", .or i)]

def spellings : List (String × Comp) :=
  all.map (fun c => (c.text, c)) ++ exchanged

def parse? (s : String) : Option Comp :=
  spellings.lookup s

theorem parse?_text (c : Comp) : parse? c.text = some c :=
  have table : ∀ c ∈ all, parse? c.text = some c := by decide
  table c (mem_all c)

end Comp

/-! ## Destinations -/

/-- Which of the three places take the output. -/
structure Dest where
  a : Bool
  d : Bool
  m : Bool
  deriving DecidableEq, Repr

namespace Dest

def null : Dest :=
  ⟨false, false, false⟩

def toA : Dest :=
  ⟨true, false, false⟩

def toD : Dest :=
  ⟨false, true, false⟩

def toM : Dest :=
  ⟨false, false, true⟩

/-- The three-bit code. -/
def bits (x : Dest) : UInt16 :=
  (if x.a then 4 else 0) ||| (if x.d then 2 else 0) ||| (if x.m then 1 else 0)

/-- The destination with a given code; a number that is no code gives the empty set. -/
def ofBits (n : Nat) : Dest :=
  if n < 8 then ⟨n.testBit 2, n.testBit 1, n.testBit 0⟩ else null

theorem ofBits_bits (x : Dest) : ofBits x.bits.toNat = x := by
  obtain ⟨a, d, m⟩ := x
  cases a <;> cases d <;> cases m <;> rfl

/-- The letters in the order A, M, D. -/
def text (x : Dest) : String :=
  (if x.a then "A" else "") ++ (if x.m then "M" else "") ++ (if x.d then "D" else "")

/-- Every way to write a destination. -/
def spellings : List (String × Dest) :=
  [("M", toM), ("D", toD), ("A", toA), ("MD", ⟨false, true, true⟩), ("DM", ⟨false, true, true⟩),
    ("AM", ⟨true, false, true⟩), ("MA", ⟨true, false, true⟩), ("AD", ⟨true, true, false⟩),
    ("DA", ⟨true, true, false⟩), ("AMD", ⟨true, true, true⟩), ("ADM", ⟨true, true, true⟩)]

def parse? (s : String) : Option Dest :=
  spellings.lookup s

theorem parse?_text {x : Dest} (h : x ≠ null) : parse? x.text = some x :=
  have table : ∀ a d m, mk a d m ≠ null → parse? (mk a d m).text = some (mk a d m) := by decide
  table x.a x.d x.m h

end Dest

/-! ## Jump conditions -/

/-- On which signs of the output a jump is taken. -/
structure Jump where
  lt : Bool
  eq : Bool
  gt : Bool
  deriving DecidableEq, Repr

namespace Jump

def null : Jump :=
  ⟨false, false, false⟩

def jgt : Jump :=
  ⟨false, false, true⟩

def jeq : Jump :=
  ⟨false, true, false⟩

def jge : Jump :=
  ⟨false, true, true⟩

def jlt : Jump :=
  ⟨true, false, false⟩

def jne : Jump :=
  ⟨true, false, true⟩

def jle : Jump :=
  ⟨true, true, false⟩

def jmp : Jump :=
  ⟨true, true, true⟩

/-- Decides on an output, read as a signed number. -/
def taken (j : Jump) (output : UInt16) : Bool :=
  if output = 0 then j.eq else if output.toInt16 < 0 then j.lt else j.gt

/-- The three-bit code. -/
def bits (j : Jump) : UInt16 :=
  (if j.lt then 4 else 0) ||| (if j.eq then 2 else 0) ||| (if j.gt then 1 else 0)

/-- The condition with a given code; a number that is no code gives the empty set. -/
def ofBits (n : Nat) : Jump :=
  if n < 8 then ⟨n.testBit 2, n.testBit 1, n.testBit 0⟩ else null

theorem ofBits_bits (j : Jump) : ofBits j.bits.toNat = j := by
  obtain ⟨lt, eq, gt⟩ := j
  cases lt <;> cases eq <;> cases gt <;> rfl

def text : Jump → String
  | ⟨false, false, false⟩ => ""
  | ⟨false, false, true⟩ => "JGT"
  | ⟨false, true, false⟩ => "JEQ"
  | ⟨false, true, true⟩ => "JGE"
  | ⟨true, false, false⟩ => "JLT"
  | ⟨true, false, true⟩ => "JNE"
  | ⟨true, true, false⟩ => "JLE"
  | ⟨true, true, true⟩ => "JMP"

/-- The seven conditions that have a text. -/
def all : List Jump :=
  [jgt, jeq, jge, jlt, jne, jle, jmp]

def parse? (s : String) : Option Jump :=
  (all.map fun j => (j.text, j)).lookup s

theorem parse?_text {j : Jump} (h : j ≠ null) : parse? j.text = some j :=
  have table : ∀ l e g, mk l e g ≠ null → parse? (mk l e g).text = some (mk l e g) := by decide
  table j.lt j.eq j.gt h

end Jump

end Hack
