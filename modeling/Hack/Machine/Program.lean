/-
Programs: the words of an assembly text with every symbol resolved, each with its sixteen-bit code: a load has a
leading zero and fifteen bits of value, and a computation has three leading ones and the codes of its three fields.
Loading takes two passes. The first reads the lines and notes which instruction each label precedes; the second
replaces symbols by addresses, giving each name that is neither fixed nor a label the next free cell, at its first
use. The first wrong line ends the first pass; limits are checked after it.
-/
import Hack.Asm.Line
import Std.Data.HashMap
namespace Hack

open Text

/-! ## Words -/

inductive Word
  | load (v : UInt16)
  | compute (dest : Dest) (comp : Comp) (jump : Jump)
  deriving DecidableEq, Repr

namespace Word

/-- The code of a word; a load keeps the low fifteen bits of its value. -/
def encode : Word → UInt16
  | .load v => v &&& 0x7FFF
  | .compute dest comp jump =>
    (0xE000 : UInt16) ||| (comp.bits <<< 6) ||| (dest.bits <<< 3) ||| jump.bits

/-- Whether a word reads or writes the cell that the address register points at. -/
def touchesMemory : Word → Bool
  | .load _ => false
  | .compute dest comp _ => comp.readsMemory || dest.m

end Word

/-! ## Limits -/

/-- How many words a program may have. -/
def romSize : Nat := 0x8000

/-- The first cell for variables, behind the sixteen registers. -/
def variableBase : Nat := 16

/-- The end of the cells for variables, where the screen's memory map starts. -/
def variableEnd : Nat := 0x4000

/-! ## Errors -/

inductive LoadError
  /-- A line, counted from 1, that does not read. -/
  | line (number : Nat) (cause : LineError)
  | redefinedLabel (name : String)
  | romOverflow (count : Nat)
  | ramOverflow (name : String)
  deriving DecidableEq, Repr

def LoadError.message : LoadError → String
  | .line number cause => "Line " ++ toString number ++ ": " ++ cause.message
  | .redefinedLabel name => "Re-defined label: `" ++ name ++ "`"
  | .romOverflow count => "Program too large: " ++ toString count ++ " instructions"
  | .ramOverflow name => "Out of memory allocating variable `" ++ name ++ "`"

/-! ## First pass -/

/-- The lines that hold more than blanks and comment, with their numbers from 1. -/
def codeLines (text : List Char) : List (Nat × List Char) :=
  (lines text).zipIdx 1 |>.filterMap fun (raw, number) =>
    let code := trim (beforeComment raw)
    if code.isEmpty then none else some (number, code)

/-- The instructions read so far and the labels among them. -/
structure Layout where
  code : Array Instr := #[]
  labels : Std.HashMap String UInt16 := {}

namespace Layout

/-- A label stands for the number of instructions before it. -/
def add (l : Layout) : Line → Except LoadError Layout
  | .instr i => .ok { l with code := l.code.push i }
  | .label name =>
    if name ∈ l.labels then .error (.redefinedLabel name)
    else .ok { l with labels := l.labels.insert name (UInt16.ofNat l.code.size) }

def addSource (l : Layout) (source : Nat × List Char) : Except LoadError Layout :=
  match Line.parse (String.ofList source.2) with
  | .ok line => l.add line
  | .error e => .error (.line source.1 e)

def ofText (text : List Char) : Except LoadError Layout :=
  (codeLines text).foldlM addSource {}

end Layout

/-! ## Second pass -/

/-- Variables in the order of their cells, which are consecutive. -/
structure Variables where
  names : Array String := #[]
  addresses : Std.HashMap String UInt16 := {}

namespace Variables

/-- The next free cell. -/
def next (vars : Variables) : Nat :=
  variableBase + vars.names.size

def allocate (vars : Variables) (name : String) : Variables where
  names := vars.names.push name
  addresses := vars.addresses.insert name (UInt16.ofNat vars.next)

/-- The variable at an address. -/
def name? (vars : Variables) (addr : UInt16) : Option String :=
  if variableBase ≤ addr.toNat then vars.names[addr.toNat - variableBase]? else none

end Variables

/-- The words made so far and the variables met in them. -/
structure Resolution where
  words : Array Word := #[]
  vars : Variables := {}

namespace Resolution

def push (r : Resolution) (w : Word) : Resolution :=
  { r with words := r.words.push w }

/-- A fixed name goes before a label, and a label before a variable. -/
def add (labels : Std.HashMap String UInt16) (r : Resolution) :
    Instr → Except LoadError Resolution
  | .compute dest comp jump => .ok (r.push (.compute dest comp jump))
  | .load (.number n) => .ok (r.push (.load n))
  | .load (.symbol name) =>
    match Symbol.predefined? name with
    | some addr => .ok (r.push (.load addr))
    | none =>
      match labels[name]? with
      | some addr => .ok (r.push (.load addr))
      | none =>
        match r.vars.addresses[name]? with
        | some addr => .ok (r.push (.load addr))
        | none =>
          let addr := r.vars.next
          if addr < variableEnd then
            .ok { words := r.words.push (.load (UInt16.ofNat addr)), vars := r.vars.allocate name }
          else .error (.ramOverflow name)

end Resolution

/-! ## Programs -/

structure Program where
  words : Array Word := #[]
  /-- The instruction that each word was made from. -/
  code : Array Instr := #[]
  labels : Std.HashMap String UInt16 := {}
  vars : Variables := {}

namespace Program

def ofLayout (l : Layout) : Except LoadError Program := do
  if romSize < l.code.size then throw (.romOverflow l.code.size)
  let r ← l.code.toList.foldlM (Resolution.add l.labels) {}
  pure { words := r.words, code := l.code, labels := l.labels, vars := r.vars }

def parse (text : String) : Except LoadError Program :=
  Layout.ofText text.toList >>= ofLayout

/-- The address of a fixed name or a variable. -/
def cell? (p : Program) (name : String) : Option UInt16 :=
  Symbol.predefined? name <|> p.vars.addresses[name]?

/-- The name of an address, if it has one. -/
def cellName? (p : Program) (addr : UInt16) : Option String :=
  Symbol.predefinedName? addr <|> p.vars.name? addr

/-- The program as a file of binary numbers, a word to a line. -/
def binaryText (p : Program) : String :=
  String.ofList (p.words.toList.flatMap fun w => binary16 w.encode ++ ['\n'])

end Program

end Hack
