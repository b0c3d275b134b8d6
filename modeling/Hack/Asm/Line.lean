/-
Lines of assembly: instructions, which become one word each, and labels, which name the place of the
instruction after them. Reading a line checks its parts in a fixed order and names the first one
that is wrong.
-/
import Hack.Asm.Fields
import Hack.Asm.Symbol
import Hack.Text.Write
import Hack.Text.Read
namespace Hack

open Text

/-! ## Types -/

/-- What a load puts into the address register. -/
inductive Operand
  | number (n : UInt16)
  | symbol (name : String)
  deriving DecidableEq, Repr, Inhabited

inductive Instr
  /-- Loads the address register. -/
  | load (v : Operand)
  /-- Stores the output of the ALU and jumps on it. -/
  | compute (dest : Dest) (comp : Comp) (jump : Jump)
  deriving DecidableEq, Repr

inductive Line
  | instr (i : Instr)
  | label (name : String)
  deriving DecidableEq, Repr

/-- The largest number that fits into a load. -/
def maxLiteral : UInt16 := 0x7FFF

/-- A computation that never jumps. -/
def Line.assign (dest : Dest) (comp : Comp) : Line :=
  .instr (.compute dest comp .null)

/-- A computation that stores nothing. -/
def Line.branch (comp : Comp) (jump : Jump) : Line :=
  .instr (.compute .null comp jump)

def Line.load (v : Operand) : Line :=
  .instr (.load v)

def Line.isCode : Line → Bool
  | .instr _ => true
  | .label _ => false

/-! ## Errors -/

/-- The three fields of a computing instruction. -/
inductive Field
  | destination | computation | jump
  deriving DecidableEq, Repr

def Field.name : Field → String
  | .destination => "destination"
  | .computation => "computation"
  | .jump => "jump"

/-- Why a line has no instruction's shape. -/
inductive Malformed
  | unclosedLabel
  | unknown (field : Field) (text : String)
  deriving DecidableEq, Repr

def Malformed.message : Malformed → String
  | .unclosedLabel => "unclosed label"
  | .unknown field text => "Unknown " ++ field.name ++ ": " ++ text

inductive LineError
  | malformed (line : String) (why : Malformed)
  | literalTooLarge (digits : String)
  | invalidSymbol (text : String)
  deriving DecidableEq, Repr

def LineError.message : LineError → String
  | .malformed line why => "Cannot parse `" ++ line ++ "`: " ++ why.message
  | .literalTooLarge digits => "Literal out of range: " ++ digits ++ " (max 32767)"
  | .invalidSymbol text => "Invalid symbol: `" ++ text ++ "`"

/-! ## Reading -/

def Comp.parse (s : String) : Except Malformed Comp :=
  match Comp.parse? s with
  | some c => .ok c
  | none => .error (.unknown .computation s)

def Dest.parse (s : String) : Except Malformed Dest :=
  match Dest.parse? s with
  | some d => .ok d
  | none => .error (.unknown .destination s)

def Jump.parse (s : String) : Except Malformed Jump :=
  match Jump.parse? s with
  | some j => .ok j
  | none => .error (.unknown .jump s)

/-- A text that starts with a digit can only be a number, all others only a symbol. -/
def Operand.parse (s : List Char) : Except LineError Operand :=
  if s.head?.any Char.isDigit then
    match decimal? s with
    | some n =>
      if n ≤ maxLiteral.toNat then .ok (.number (UInt16.ofNat n))
      else .error (.literalTooLarge (String.ofList s))
    | none => .error (.invalidSymbol (String.ofList s))
  else if Symbol.isSymbol s then .ok (.symbol (String.ofList s))
  else .error (.invalidSymbol (String.ofList s))

/-- Reads the fields of `dest=comp;jump` from left to right, except that the computation comes
last; the first and the last field may be missing together with their mark. -/
def Instr.parseCompute (s : List Char) : Except Malformed Instr := do
  let (dest, rest) ← match cutFirst '=' s with
    | some (dest, rest) => do pure ((← Dest.parse (String.ofList dest)), rest)
    | none => pure (Dest.null, s)
  let (comp, jump) ← match cutFirst ';' rest with
    | some (comp, jump) => do pure (comp, (← Jump.parse (String.ofList jump)))
    | none => pure (rest, Jump.null)
  let comp ← Comp.parse (String.ofList comp)
  pure (.compute dest comp jump)

/-- The name between the parentheses of a label. -/
def Line.parseLabel (line : String) (s : List Char) : Except LineError Line :=
  if s.getLast? = some ')' then
    if Symbol.isSymbol s.dropLast then .ok (.label (String.ofList s.dropLast))
    else .error (.invalidSymbol (String.ofList s.dropLast))
  else .error (.malformed line .unclosedLabel)

/-- Reads a line without comment and without blanks around it. -/
def Line.parse (line : String) : Except LineError Line :=
  match line.toList with
  | '@' :: v => (Operand.parse v).map Line.load
  | '(' :: name => Line.parseLabel line name
  | s => ((Instr.parseCompute s).map Line.instr).mapError (LineError.malformed line)

/-! ## Writing -/

def Operand.text : Operand → String
  | .number n => toString n.toNat
  | .symbol name => name

def Instr.text : Instr → String
  | .load v => "@" ++ v.text
  | .compute dest comp jump =>
    (if dest = .null then "" else dest.text ++ "=") ++ comp.text ++
      (if jump = .null then "" else ";" ++ jump.text)

def Line.text : Line → String
  | .instr i => i.text
  | .label name => "(" ++ name ++ ")"

/-! ## Writing in colours -/

def Operand.painted : Operand → String
  | .number n => Colour.yellow.paint (toString n.toNat)
  | .symbol name => Colour.cyan.paint name

/-- The colour of the mark before a load's operand is not taken back, as another one follows it. -/
def Instr.painted : Instr → String
  | .load v => escape Colour.blue.code ++ "@" ++ v.painted
  | .compute dest comp jump =>
    (if dest = .null then "" else Colour.blue.paint dest.text ++ "=") ++ comp.text ++
      (if jump = .null then "" else ";" ++ Colour.red.paint jump.text)

def Line.painted : Line → String
  | .instr i => i.painted
  | .label name => Colour.green.paint ("(" ++ name ++ ")")

end Hack
