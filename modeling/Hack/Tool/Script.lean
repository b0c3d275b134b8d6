/-
Scripts: what a tool does on its surroundings, in order, once it has read its files. A script is
carried out up to the first file that cannot be written, which ends it with an error.
-/
import Hack.Text.Write
import Hack.Tool.Files
import Hack.Tool.Options
namespace Hack.Tool

open Text

/-! ## Scripts -/

inductive Action
  | say (line : String)
  | write (path text : String)
  deriving DecidableEq, Repr

structure Script where
  actions : List Action
  exit : UInt32 := 0

/-- An access to a file that failed. -/
inductive FileError
  | cannotOpen (path : String)
  | cannotRead (path : String)
  | cannotCreate (path : String)
  | cannotWrite (path : String)
  deriving DecidableEq, Repr

def FileError.message : FileError → String
  | .cannotOpen path => "Failed to open file: " ++ path
  | .cannotRead path => "Failed to read file: " ++ path
  | .cannotCreate path => "Failed to create file: " ++ path
  | .cannotWrite path => "Failed to write file: " ++ path

def WriteFault.error (path : String) : WriteFault → FileError
  | .create => .cannotCreate path
  | .write => .cannotWrite path

/-- The line that tells an error. -/
def errorLine (message : String) : String :=
  errorTag ++ ": " ++ message

/-- Ends a script with an error. -/
def Script.failing (actions : List Action) (message : String) : Script :=
  ⟨actions ++ [.say (errorLine message)], 1⟩

/-! ## Carrying out -/

structure Outcome where
  /-- The pieces of text printed, last one first. -/
  printed : List String := []
  files : Files
  exit : UInt32

def lineText (line : String) : String :=
  line ++ "\n"

/-- Carries out actions; `printed` are the pieces of text before, last one first. -/
def perform (files : Files) (exit : UInt32) (printed : List String) : List Action → Outcome
  | [] => ⟨printed, files, exit⟩
  | .say line :: rest => perform files exit (lineText line :: printed) rest
  | .write path text :: rest =>
    match files.write path text with
    | .ok w => perform w.files exit (w.printed :: printed) rest
    | .error fault => ⟨lineText (errorLine (fault.error path).message) :: printed, files, 1⟩

def Script.perform (s : Script) (files : Files) : Outcome :=
  Tool.perform files s.exit [] s.actions

/-- All that was printed. -/
def Outcome.stdout (o : Outcome) : String :=
  String.join o.printed.reverse

end Hack.Tool

namespace Hack

open Tool

/-! ## Tools -/

/-- A program with a command line. -/
structure Tool where
  name : String
  grammar : Grammar
  /-- The files that a command line asks to read. -/
  reads : Arguments → List String
  run : Arguments → (String → Found) → Script

namespace Tool

def version : String := "0.1.0"

/-- What to do on a command line, if files hold what `read` finds in them. -/
def script (t : Tool) (args : List String) (read : String → Found) : Script :=
  match t.grammar.read args with
  | .ok a => t.run a read
  | .error .usage => ⟨[], 2⟩
  | .error .version => ⟨[.say (t.name ++ " " ++ version)], 0⟩
  | .error .help => ⟨[.say ("Usage: " ++ t.name ++ " [OPTIONS] <INPUT>")], 0⟩

/-- Runs a tool on files. -/
def onFiles (t : Tool) (args : List String) (files : Files) : Outcome :=
  (t.script args files.read).perform files

end Tool

end Hack
