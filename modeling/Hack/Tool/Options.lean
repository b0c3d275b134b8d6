/-
Command lines: switches, some of which take a value, and operands between them. Short switches may
be written together, a value may be attached to its switch, and after `--` all are operands. What
makes a command line wrong is found from left to right, and so is a request for the version.
-/
import Hack.Text.Read
namespace Hack.Tool

open Text

/-! ## Grammar -/

/-- Why a command line is not to be carried out. -/
inductive Stop
  | usage | version | help
  deriving DecidableEq, Repr

inductive Kind
  | flag
  /-- Takes a value, which must be of the right form. -/
  | value (accepts : String → Bool)
  | stop (reason : Stop)

structure Switch where
  short : Option Char
  long : String
  kind : Kind

structure Grammar where
  switches : List Switch
  /-- Whether more than one operand is possible; one is always needed. -/
  manyOperands : Bool

/-- The switches that every tool has. -/
def commonSwitches : List Switch :=
  [⟨some 'h', "help", .stop .help⟩, ⟨some 'V', "version", .stop .version⟩]

def Grammar.ofShort? (g : Grammar) (c : Char) : Option Switch :=
  (g.switches ++ commonSwitches).find? (·.short = some c)

def Grammar.ofLong? (g : Grammar) (name : String) : Option Switch :=
  (g.switches ++ commonSwitches).find? (·.long = name)

/-! ## Arguments -/

/-- What a command line says. -/
structure Arguments where
  /-- The switches by their long names, with their values. -/
  given : List (String × Option String) := []
  operands : List String := []

namespace Arguments

def has (a : Arguments) (long : String) : Bool :=
  (a.given.lookup long).isSome

def value? (a : Arguments) (long : String) : Option String :=
  (a.given.lookup long).join

/-- No switch may be given twice. -/
def addSwitch (a : Arguments) (s : Switch) (value : Option String) : Except Stop Arguments :=
  if a.has s.long then .error .usage else .ok { a with given := a.given ++ [(s.long, value)] }

def addValue (a : Arguments) (s : Switch) (value : String) : Except Stop Arguments :=
  match s.kind with
  | .value accepts => if accepts value then a.addSwitch s (some value) else .error .usage
  | _ => .error .usage

def addOperand (g : Grammar) (a : Arguments) (operand : String) : Except Stop Arguments :=
  if g.manyOperands || a.operands.isEmpty then .ok { a with operands := a.operands ++ [operand] }
  else .error .usage

end Arguments

/-! ## Reading -/

/-- The arguments so far, and a switch whose value comes next. -/
abbrev Progress := Arguments × Option Switch

/-- Adds a switch written with its long name. -/
def readLong (g : Grammar) (a : Arguments) (s : List Char) : Except Stop Progress :=
  let (name, value) := match cutFirst '=' s with
    | some (name, value) => (name, some (String.ofList value))
    | none => (s, none)
  match g.ofLong? (String.ofList name) with
  | none => .error .usage
  | some switch =>
    match switch.kind, value with
    | .stop reason, none => .error reason
    | .flag, none => (a.addSwitch switch none).map (·, none)
    | .value _, none => .ok (a, some switch)
    | .value _, some v => (a.addValue switch v).map (·, none)
    | _, some _ => .error .usage

/-- Adds switches written together; what follows one that takes a value is its value. -/
def readShort (g : Grammar) (a : Arguments) : List Char → Except Stop Progress
  | [] => .ok (a, none)
  | c :: rest =>
    match g.ofShort? c with
    | none => .error .usage
    | some switch =>
      match switch.kind with
      | .stop reason => .error reason
      | .flag => (a.addSwitch switch none).bind fun a => readShort g a rest
      | .value _ =>
        match rest with
        | [] => .ok (a, some switch)
        | '=' :: v => (a.addValue switch (String.ofList v)).map (·, none)
        | v => (a.addValue switch (String.ofList v)).map (·, none)

/-- Whether an argument can only be a switch, or the mark that ends them. -/
def isSwitch (arg : List Char) : Bool :=
  arg.head? = some '-' && arg ≠ ['-']

def readFrom (g : Grammar) (a : Arguments) (pending : Option Switch) :
    List String → Except Stop Arguments
  | [] => if pending.isSome || a.operands.isEmpty then .error .usage else .ok a
  | arg :: rest =>
    match pending with
    | some switch =>
      if isSwitch arg.toList then .error .usage
      else (a.addValue switch arg).bind fun a => readFrom g a none rest
    | none =>
      match arg.toList with
      | ['-', '-'] => do
        let a ← rest.foldlM (Arguments.addOperand g) a
        if a.operands.isEmpty then .error .usage else .ok a
      | '-' :: '-' :: s => (readLong g a s).bind fun p => readFrom g p.1 p.2 rest
      | '-' :: c :: s => (readShort g a (c :: s)).bind fun p => readFrom g p.1 p.2 rest
      | _ => (a.addOperand g arg).bind fun a => readFrom g a none rest

def Grammar.read (g : Grammar) (args : List String) : Except Stop Arguments :=
  readFrom g {} none args

end Hack.Tool
