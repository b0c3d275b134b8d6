/-
The translator's command line: reads units of stack commands, compiles all of them, and writes an
assembly file for each only if every one could be compiled.
-/
import Hack.Codegen.Listing
import Hack.Tool.Script
namespace Hack.Tool.Translator

open Vm Codegen

def grammar : Grammar where
  switches := [⟨some 'o', "output", .value fun _ => true⟩, ⟨some 'd', "dump", .flag⟩,
    ⟨some 'q', "quiet", .flag⟩]
  manyOperands := true

/-! ## Reading -/

/-- Reads a unit, or says why not. -/
def loadUnit (read : String → Found) (path : String) : Except String Source :=
  match unitName path with
  | .error e => .error e.message
  | .ok name =>
    match read path with
    | .nothing => .error (FileError.cannotOpen path).message
    | .directory => .error (FileError.cannotRead path).message
    | .file bytes =>
      match String.fromUTF8? bytes with
      | some text => .ok (Source.ofFile path name text.toList)
      | none => .error (FileError.cannotRead path).message

/-- Reads units up to the first that cannot be read, naming each one before. -/
def loadUnits (say : String → List Action) (read : String → Found) :
    List String → List Action × Except String (List Source)
  | [] => ([], .ok [])
  | path :: rest =>
    match loadUnit read path with
    | .error message => (say ("  < " ++ path), .error message)
    | .ok unit =>
      let (actions, units) := loadUnits say read rest
      (say ("  < " ++ path) ++ actions, units.map (unit :: ·))

/-- Each path once, at the place where it came first. -/
def distinct (units : List Source) : List Source :=
  units.foldl (fun kept unit => if kept.any (·.path = unit.path) then kept else kept ++ [unit]) []

/-! ## Compiling and writing -/

/-- A unit with its code. -/
abbrev Compiled := Source × Code

def reportUnit (say : String → List Action) (unit : Source) :
    Except Diagnosis Code → List Action
  | .ok t => say ("  * " ++ unit.name ++ " (" ++ toString t.output.size ++ " lines)")
  | .error d => d.rows.map .say

/-- The units with their code, if every one has code. -/
def allCompiled : List Source → Option (List Compiled)
  | [] => some []
  | unit :: rest =>
    match compile unit with
    | .ok t => (allCompiled rest).map ((unit, t) :: ·)
    | .error _ => none

def outputPath (output : Option String) (unit : Source) : String :=
  output.getD (asmPath unit.path)

def writeUnit (say : String → List Action) (output : Option String) (u : Compiled) :
    List Action :=
  say ("  > " ++ outputPath output u.1) ++ [.write (outputPath output u.1) u.2.text]

/-- Works on units that have been read, each path once. -/
def process (a : Arguments) (say : String → List Action) (units : List Source) : Script :=
  let reports := units.flatMap fun unit => reportUnit say unit (compile unit)
  let actions := say "2. Translate" ++ reports
  match allCompiled units with
  | none => ⟨actions, 1⟩
  | some compiled =>
    let writes := compiled.flatMap (writeUnit say (a.value? "output"))
    let listings :=
      if a.has "dump" then compiled.flatMap fun u => (listing u.1 u.2).map .say else []
    ⟨actions ++ say "3. Write" ++ writes ++ listings, 0⟩

def run (a : Arguments) (read : String → Found) : Script :=
  let say := fun line => if a.has "quiet" then [] else [Action.say line]
  if a.has "output" ∧ a.operands.length > 1 then
    ⟨[.say (errorLine "--output needs exactly one input file")], 2⟩
  else
    let opening := say "Hack VM Translator" ++ say "1. Read Files"
    match loadUnits say read a.operands with
    | (loading, .error message) => .failing (opening ++ loading) message
    | (loading, .ok units) =>
      let rest := process a say (distinct units)
      { rest with actions := opening ++ loading ++ rest.actions }

def tool : Tool where
  name := "vmt"
  grammar := grammar
  reads := (·.operands)
  run := run

end Hack.Tool.Translator
