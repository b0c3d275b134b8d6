/-
The emulator's command line: loads an assembly text, gives cells their first values, runs the
machine up to a limit and shows chosen cells. On demand it prints every instruction it executes.
-/
import Hack.Machine.Setup
import Hack.Text.Write
import Hack.Tool.Assembler
namespace Hack.Tool.Emulator

open Text

/-- The largest limit of a run, which is also the limit if none is given. -/
def maxLimit : Nat := 0xFFFFFFFFFFFFFFFF

def limit? (s : String) : Option Nat :=
  unsigned? (maxLimit + 1) s.toList

def grammar : Grammar where
  switches := [⟨some 't', "tmax", .value fun s => (limit? s).isSome⟩,
    ⟨some 'c', "config", .value fun _ => true⟩, ⟨none, "trace", .flag⟩]
  manyOperands := false

/-! ## Setup -/

inductive SetupError
  | file (e : FileError)
  | invalid (path : String)
  deriving DecidableEq, Repr

def SetupError.message : SetupError → String
  | .file e => e.message
  | .invalid path => "Invalid setup file: " ++ path

/-- Reads the setup file, if one is named. -/
def loadSetup (read : String → Found) : Option String → Except SetupError Setup
  | none => .ok {}
  | some path =>
    match read path with
    | .nothing => .error (.file (.cannotOpen path))
    | .directory => .error (.invalid path)
    | .file bytes =>
      match (String.fromUTF8? bytes).bind Setup.parse? with
      | some s => .ok s
      | none => .error (.invalid path)

def setupRow (path : String) (s : Setup) : String :=
  " * Setup " ++ quoted path ++ ": init[" ++ toString s.init.length ++ "] dump[" ++
    toString s.dump.length ++ "]"

/-! ## Tracing -/

/-- The row of the instruction executed at `pc`, with the registers after it. -/
def traceRow (time : Nat) (pc : UInt16) (i : Option Instr) (m : Machine) : String :=
  " " ++ Colour.black.paint (padLeft 6 (toString time)) ++ " [" ++ hex4 pc.toNat ++ "] " ++
    padRight 24 ((i.map Instr.painted).getD "") ++ " | A=" ++ hex4 m.a.toNat ++ " D=" ++
    hex4 m.d.toNat

/-- A run with the rows printed during it, last one first. -/
structure Traced where
  run : Program.Run
  rows : List String

/-- Runs on from time `steps`; `rows` are those printed before. -/
def trace (p : Program) (enabled : Bool) (steps : Nat) (rows : List String) :
    Nat → Machine → Traced
  | 0, m => ⟨⟨m, steps, none⟩, rows⟩
  | limit + 1, m =>
    match p.words[m.pc.toNat]? with
    | none => ⟨⟨m, steps, none⟩, rows⟩
    | some w =>
      match m.fault? w with
      | some f => ⟨⟨m, steps, some f⟩, rows⟩
      | none =>
        let pc := m.pc
        let m := m.exec w
        let rows := if enabled then traceRow steps pc p.code[pc.toNat]? m :: rows else rows
        trace p enabled (steps + 1) rows limit m

/-! ## Dump -/

/-- A cell as it was given, an address with its name if it has one. -/
def cellLabel (p : Program) : Cell → String
  | .name s => s
  | .addr n =>
    match p.cellName? n with
    | some name => toString n.toNat ++ " (" ++ name ++ ")"
    | none => toString n.toNat

def dumpRow (p : Program) (m : Machine) (c : Cell) : String :=
  " | " ++ padRight 18 (cellLabel p c) ++ " | " ++
    match p.get m c with
    | .ok v => padLeft 6 (toString v.toInt16.toInt) ++ " |"
    | .error e => e.message

def dumpRule : String := " +--------------------+--------+"

def dumpRows (p : Program) (m : Machine) (cells : List Cell) : List String :=
  if cells.isEmpty then [] else [dumpRule] ++ cells.map (dumpRow p m) ++ [dumpRule]

/-! ## Running -/

def banner (input : String) : List String :=
  let rule := "+-----------------------------------------------+"
  ["Hack Emulator", rule, "| " ++ padRight 45 input ++ " |", rule]

def exitRow (r : Program.Run) : String :=
  "[EXIT] " ++ toString r.steps ++ " steps, pc=" ++ hex4 r.machine.pc.toNat

/-- Runs a program whose setup has been read. -/
def simulate (a : Arguments) (opening : List Action) (p : Program) (s : Setup) : Script :=
  let opening := opening ++ ((a.value? "config").map (setupRow · s)).toList.map .say
  match s.apply p .start with
  | (_, some e) => .failing opening e.message
  | (m, none) =>
    let limit := ((a.value? "tmax").bind limit?).getD maxLimit
    let t := trace p (a.has "trace") 0 [] limit m
    let traced := opening ++ t.rows.reverse.map .say
    match t.run.fault with
    | some f => .failing traced f.message
    | none =>
      let closing := [exitRow t.run] ++ dumpRows p t.run.machine s.dump ++
        ["================================================="]
      ⟨traced ++ closing.map .say, 0⟩

/-- Works on the only operand. -/
def runOn (a : Arguments) (read : String → Found) (input : String) : Script :=
  let opening := (banner input).map Action.say
  match Assembler.textOf read input with
  | .error e => .failing opening e.message
  | .ok text =>
    match Program.parse text with
    | .error e => .failing opening e.message
    | .ok p =>
      let opening := opening ++ [.say "[INIT]"]
      match loadSetup read (a.value? "config") with
      | .error e => .failing opening e.message
      | .ok s => simulate a opening p s

def run (a : Arguments) (read : String → Found) : Script :=
  match a.operands with
  | input :: _ => runOn a read input
  | [] => ⟨[], 2⟩

def tool : Tool where
  name := "hackemu"
  grammar := grammar
  reads := fun a => a.operands ++ (a.value? "config").toList
  run := run

end Hack.Tool.Emulator
