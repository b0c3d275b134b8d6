/-
Commands of the stack machine, one to a line: a push or a pop names a segment, a region of memory that turns an
operand into an address, and the nine operations stand alone. The cell on top of the stack is a segment too, which
source text cannot name. Reading a line decides first on the number of words, then word by word from the left.
-/
import Hack.Asm.Symbol
import Hack.Text.Read
namespace Hack.Vm

open Text

/-! ## Segments -/

inductive Segment
  | constant | locals | argument | this | that | temp | pointer | static
  /-- The first free cell of the stack. -/
  | stack
  deriving DecidableEq, Repr

namespace Segment

def text : Segment → String
  | .constant => "CONSTANT"
  | .locals => "LOCAL"
  | .argument => "ARGUMENT"
  | .this => "THIS"
  | .that => "THAT"
  | .temp => "TEMP"
  | .pointer => "POINTER"
  | .static => "STATIC"
  | .stack => "STACK"

/-- The segments that source text can name. -/
def named : List Segment :=
  [.constant, .locals, .argument, .this, .that, .temp, .pointer, .static]

def parse? (s : String) : Option Segment :=
  (named.map fun seg => (seg.text, seg)).lookup s

end Segment

/-! ## Addressing -/

/-- How a segment turns an operand into an address. -/
inductive Policy
  /-- The operand is the value itself. -/
  | value
  /-- Counts from the address in the cell `base`. -/
  | indirect (base : String)
  /-- Counts from `base`, below `len`. -/
  | fixed (base len : UInt16)
  /-- Picks one of a few cells. -/
  | select (cells : List String)
  /-- A symbol made of the unit's name and the operand. -/
  | unit
  /-- The cell that the stack pointer points at. -/
  | stack
  deriving DecidableEq, Repr

def Segment.policy : Segment → Policy
  | .constant => .value
  | .locals => .indirect Symbol.lcl
  | .argument => .indirect Symbol.arg
  | .this => .indirect Symbol.this
  | .that => .indirect Symbol.that
  | .temp => .fixed 5 8
  | .pointer => .select [Symbol.this, Symbol.that]
  | .static => .unit
  | .stack => .stack

/-- Whether a pop must find its destination before it reads the stack: finding it overwrites D, or
the destination is itself a pointer. -/
def Policy.staged : Policy → Bool
  | .indirect _ | .select _ => true
  | _ => false

/-! ## Commands -/

inductive Op
  | add | sub | neg | eq | gt | lt | and | or | not
  deriving DecidableEq, Repr

inductive Command
  | push (seg : Segment) (n : UInt16)
  | pop (seg : Segment) (n : UInt16)
  | arith (op : Op)
  deriving DecidableEq, Repr

/-- Why a line is not a command, or a command cannot be compiled. -/
inductive CommandError
  | malformed (line : String)
  | invalidOperand (line : String)
  | unknownOperation (word : String)
  | unknownSegment (word : String)
  | operandOutOfRange (seg : Segment) (n max : UInt16)
  | literalTooLarge (n : UInt16)
  | notWritable (seg : Segment)
  deriving DecidableEq, Repr

def CommandError.message : CommandError → String
  | .malformed line => "Malformed instruction: `" ++ line ++ "`"
  | .invalidOperand line => "Cannot parse operand of `" ++ line ++ "` as a non-negative integer"
  | .unknownOperation word => "Unknown operation: `" ++ word ++ "`"
  | .unknownSegment word => "Unknown segment: `" ++ word ++ "`"
  | .operandOutOfRange seg n max =>
    "Operand " ++ toString n.toNat ++ " out of range for segment " ++ seg.text ++ " (max " ++
      toString max.toNat ++ ")"
  | .literalTooLarge n => "Literal out of range: " ++ toString n.toNat ++ " (max 32767)"
  | .notWritable seg => "Cannot pop into segment " ++ seg.text

/-! ## Reading -/

namespace Op

def text : Op → String
  | .add => "ADD"
  | .sub => "SUB"
  | .neg => "NEG"
  | .eq => "EQ"
  | .gt => "GT"
  | .lt => "LT"
  | .and => "AND"
  | .or => "OR"
  | .not => "NOT"

def all : List Op :=
  [.add, .sub, .neg, .eq, .gt, .lt, .and, .or, .not]

/-- The operations that answer with a truth value about the order of their operands. -/
def compares : Op → Bool
  | .eq | .gt | .lt => true
  | _ => false

def parse? (s : String) : Option Op :=
  (all.map fun op => (op.text, op)).lookup s

end Op

/-- The commands that take a segment and an operand. -/
def transfers : List (String × (Segment → UInt16 → Command)) :=
  [("PUSH", .push), ("POP", .pop)]

/-- An operand is a run of ASCII digits whose value fits into a word. -/
def operand? (s : List Char) : Option UInt16 :=
  ((decimal? s).filter (· < 0x10000)).map UInt16.ofNat

namespace Command

def parseTransfer (line : String) (make : Segment → UInt16 → Command) (seg operand : List Char) :
    Except CommandError Command :=
  match Segment.parse? (String.ofList seg) with
  | none => .error (.unknownSegment (String.ofList seg))
  | some seg =>
    match operand? operand with
    | none => .error (.invalidOperand line)
    | some n => .ok (make seg n)

/-- Whether a command is a comparison. -/
def compares : Command → Bool
  | .arith op => op.compares
  | _ => false

/-- Reads a line in upper case, without comment and without blanks around it. -/
def parse (line : String) : Except CommandError Command :=
  match words line.toList with
  | [word] =>
    let word := String.ofList word
    match Op.parse? word with
    | some op => .ok (.arith op)
    | none =>
      if (transfers.lookup word).isSome then .error (.malformed line)
      else .error (.unknownOperation word)
  | [word, seg, operand] =>
    let word := String.ofList word
    match transfers.lookup word with
    | some make => parseTransfer line make seg operand
    | none =>
      if (Op.parse? word).isSome then .error (.malformed line)
      else .error (.unknownOperation word)
  | _ => .error (.malformed line)

end Command

end Hack.Vm
