/-
Source units: the lines of a text that carry a command, each with its place in the text. A unit is
named after its file, and the name must be a symbol, because it begins the names of the unit's
static cells and labels.
-/
import Hack.Asm.Symbol
import Hack.Path
import Hack.Text.Read
import Hack.Text.Uppercase
namespace Hack.Vm

open Text

/-! ## Lines -/

/-- A line that carries a command. -/
structure SourceLine where
  /-- Its place among all lines, from 0. -/
  index : Nat
  raw : String
  /-- Its text in upper case, without comment and without blanks around it. -/
  code : String
  deriving DecidableEq, Repr

/-- The code of a line, if it has any. -/
def normalize? (raw : List Char) : Option (List Char) :=
  let code := trim (beforeComment raw)
  if code.isEmpty then none else some (upper code)

/-- One compilation unit. -/
structure Source where
  path : String
  /-- Begins the names of static cells and labels. -/
  name : String
  lines : List SourceLine
  deriving DecidableEq, Repr

namespace Source

def ofFile (path name : String) (text : List Char) : Source where
  path := path
  name := name
  lines := (Text.lines text).zipIdx.filterMap fun (raw, index) =>
    (normalize? raw).map fun code => ⟨index, String.ofList raw, String.ofList code⟩

/-- A unit that is given a name instead of a file. -/
def ofText (name text : String) : Source :=
  ofFile (name ++ ".vm") name text.toList

end Source

/-! ## Names -/

inductive NameError
  | notVmFile (path : String)
  | invalidUnitName (stem : String)
  deriving DecidableEq, Repr

def NameError.message : NameError → String
  | .notVmFile path => "Expected a Hack VM (.vm) file: " ++ path
  | .invalidUnitName stem => "File name `" ++ stem ++ "` is not usable as a static symbol prefix"

/-- The stem of a file with the extension `vm`. -/
def unitName (path : String) : Except NameError String :=
  if Path.hasExtension "vm".toList path.toList then
    match Path.stem? path.toList with
    | some stem =>
      if Symbol.isSymbol stem then .ok (String.ofList stem)
      else .error (.invalidUnitName (String.ofList stem))
    | none => .error (.notVmFile path)
  else .error (.notVmFile path)

/-- Where a unit's assembly text goes unless told otherwise. -/
def asmPath (path : String) : String :=
  String.ofList (Path.withExtension "asm".toList path.toList)

end Hack.Vm
