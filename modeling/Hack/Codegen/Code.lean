/-
The code of a whole unit. The emitter and the number of comparisons so far are all that one command
leaves to the next. Compiling stops at the first line that is no command or cannot be compiled, and
the error is pinned to that line; otherwise every line has the span of code made from it, and the
spans follow each other without gaps.
-/
import Hack.Codegen.Lowering
import Hack.Vm.Source
namespace Hack.Codegen

open Vm

/-! ## Commands -/

/-- What the commands so far leave to the next. -/
structure Context where
  /-- The unit's name. -/
  unit : String
  emitter : Emitter := {}
  /-- How many comparisons came before. -/
  comparisons : Nat := 0

namespace Context

/-- Compiles one command; one that fails leaves what it emitted before. -/
def compile (c : Context) (cmd : Command) : Context × Option CommandError :=
  let lowered := lower c.unit c.comparisons cmd
  ({ c with
      emitter := c.emitter.emitAll lowered.steps
      comparisons := if cmd.compares then c.comparisons + 1 else c.comparisons },
    lowered.error)

/-- How many lines have been emitted. -/
def size (c : Context) : Nat :=
  c.emitter.output.size

end Context

/-! ## Units -/

/-- An error and the line that caused it. -/
structure Diagnosis where
  file : String
  /-- The line's place in the file, from 0. -/
  index : Nat
  raw : String
  cause : CommandError
  deriving DecidableEq, Repr

/-- The output made from one line: lines `start` up to, but without, `stop`. -/
structure Span where
  line : SourceLine
  start : Nat
  stop : Nat
  deriving DecidableEq, Repr

structure Code where
  output : Array Line
  spans : List Span

/-- The assembly text, a line feed after every line. -/
def Code.text (code : Code) : String :=
  String.ofList (code.output.toList.flatMap fun l => l.text.toList ++ ['\n'])

/-- Compiles one line. -/
def Context.compileLine (c : Context) (line : SourceLine) : Context × Option CommandError :=
  match Command.parse line.code with
  | .ok cmd => c.compile cmd
  | .error e => (c, some e)

/-- Compiles lines, `spans` being those of the lines before with the last one first. -/
def compileFrom (file : String) (c : Context) (spans : List Span) :
    List SourceLine → Except Diagnosis Code
  | [] => .ok ⟨c.emitter.output, spans.reverse⟩
  | line :: rest =>
    let start := c.size
    match c.compileLine line with
    | (_, some e) => .error ⟨file, line.index, line.raw, e⟩
    | (c, none) => compileFrom file c (⟨line, start, c.size⟩ :: spans) rest

def compile (unit : Source) : Except Diagnosis Code :=
  compileFrom unit.path { unit := unit.name } [] unit.lines

/-- Compiles a text as the unit of a given name. -/
def compileText (name text : String) : Except Diagnosis Code :=
  compile (Source.ofText name text)

end Hack.Codegen
