/-
The program: its first argument names a tool, and the others are that tool's command line. Files are
read before the tool runs and its script is carried out after it; all that is decided in between is
decided without access to anything.
-/
import Hack.Tool.Assembler
import Hack.Tool.Emulator
import Hack.Tool.Translator
namespace Hack.Main

open Tool

def tools : List Tool :=
  [Translator.tool, Assembler.tool, Emulator.tool]

/-- The result of an action, or what stands for its failure. -/
def orElse {α : Type} (action : IO α) (failed : α) : IO α :=
  try action catch _ => pure failed

/-- Opening a directory succeeds and reading it fails. -/
def find (path : String) : IO Found :=
  orElse (do
    let file ← IO.FS.Handle.mk path .read
    orElse (do pure (.file (← file.readBinToEnd))) .directory) .nothing

def write (path text : String) : IO (Option WriteFault) :=
  orElse (do
    let file ← IO.FS.Handle.mk path .write
    orElse (do file.putStr text; file.flush; pure none) (some .write)) (some .create)

def carryOut (exit : UInt32) : List Action → IO UInt32
  | [] => pure exit
  | .say line :: rest => do
    IO.println line
    carryOut exit rest
  | .write path text :: rest => do
    -- the file may be the output itself
    (← IO.getStdout).flush
    match ← write path text with
    | none => carryOut exit rest
    | some fault => do
      IO.println (errorLine (fault.error path).message)
      pure 1

def run (tool : Tool) (args : List String) : IO UInt32 := do
  let paths := match tool.grammar.read args with
    | .ok a => tool.reads a
    | .error _ => []
  let found ← paths.mapM fun path => do pure (path, ← find path)
  let script := tool.script args fun path => (found.lookup path).getD .nothing
  carryOut script.exit script.actions

end Hack.Main

def main (args : List String) : IO UInt32 := do
  match args with
  | name :: rest =>
    match Hack.Main.tools.find? (·.name = name) with
    | some tool => Hack.Main.run tool rest
    | none => pure 2
  | [] => pure 2
