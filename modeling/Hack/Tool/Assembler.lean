/-
The assembler's command line: reads an assembly text and writes its words as binary numbers.
-/
import Hack.Machine.Program
import Hack.Path
import Hack.Tool.Script
namespace Hack.Tool.Assembler

open Text

def grammar : Grammar where
  switches := [⟨some 'o', "output", .value fun _ => true⟩, ⟨some 'd', "dump", .flag⟩]
  manyOperands := false

/-! ## Paths -/

/-- A file that does not have the extension `asm`. -/
structure NotAsmFile where
  path : String
  deriving DecidableEq, Repr

def NotAsmFile.message (e : NotAsmFile) : String :=
  "Expected a Hack assembly (.asm) file: " ++ e.path

/-- Where the words of an assembly file go unless told otherwise. -/
def hackPath (path : String) : Except NotAsmFile String :=
  if Path.hasExtension "asm".toList path.toList then
    .ok (String.ofList (Path.withExtension "hack".toList path.toList))
  else .error ⟨path⟩

def outputPath (a : Arguments) (input : String) : Except NotAsmFile String :=
  match a.value? "output" with
  | some path => .ok path
  | none => hackPath input

/-! ## Running -/

/-- The text of a file, if it holds one. -/
def textOf (read : String → Found) (path : String) : Except FileError String :=
  match read path with
  | .file bytes =>
    match String.fromUTF8? bytes with
    | some text => .ok text
    | none => .error (.cannotOpen path)
  | _ => .error (.cannotOpen path)

/-- A row for a word: its address, its code and the instruction it was made from. -/
def dumpRow (pc : Nat) (w : Word) (i : Instr) : String :=
  "[" ++ hex4 pc ++ "] " ++ Colour.black.paint (String.ofList (binary16 w.encode)) ++ " | " ++
    i.painted

def dumpRows (p : Program) : List String :=
  (p.words.toList.zip p.code.toList).mapIdx fun pc row => dumpRow pc row.1 row.2

def counts (p : Program) : String :=
  "  * " ++ toString p.words.size ++ " words, " ++ toString p.labels.size ++ " labels, " ++
    toString p.vars.names.size ++ " variables"

/-- Works on the only operand. -/
def runOn (a : Arguments) (read : String → Found) (input : String) : Script :=
  let opening := [Action.say "Hack Assembler"]
  match outputPath a input with
  | .error e => .failing opening e.message
  | .ok out =>
    let reading := opening ++ [.say "1. Read File", .say ("  < " ++ input)]
    match textOf read input with
    | .error e => .failing reading e.message
    | .ok text =>
      let resolving := reading ++ [.say "2. Resolve Symbols & Encode"]
      match Program.parse text with
      | .error e => .failing resolving e.message
      | .ok p =>
        let rows := if a.has "dump" then (dumpRows p).map Action.say else []
        ⟨resolving ++ [.say (counts p), .say "3. Write", .say ("  > " ++ out),
          .write out p.binaryText] ++ rows, 0⟩

def run (a : Arguments) (read : String → Found) : Script :=
  match a.operands with
  | input :: _ => runOn a read input
  | [] => ⟨[], 2⟩

def tool : Tool where
  name := "hackasm"
  grammar := grammar
  reads := (·.operands)
  run := run

end Hack.Tool.Assembler
