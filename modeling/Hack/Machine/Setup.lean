/-
Setups: the values that cells have before a run and the cells that are shown after it, read from a
YAML mapping. A cell that is an integer is an address, any other text is a name; a cell given twice
has the last of its values.
-/
import Hack.Machine.Basic
import Hack.Yaml.Node
import Hack.Yaml.Resolve
namespace Hack

structure Setup where
  /-- Cells with their values, each cell once. -/
  init : List (Cell × Int16) := []
  dump : List Cell := []

namespace Setup

/-! ## Reading -/

def cellOfInteger? (i : Int) : Option Cell :=
  if 0 ≤ i ∧ i < 0x10000 then some (.addr (UInt16.ofNat i.toNat)) else none

/-- The cell that a plain scalar without a tag stands for. -/
def plainCell? (text : String) : Option Cell :=
  match Yaml.meaning text.toList with
  | .integer i => cellOfInteger? i
  | .text => some (.name text)
  | _ => none

/-- The cell that a scalar stands for. Its tag may ask for an integer or, if it is no tag of the
stream's own, for text; one of the stream's own that is no text counts for nothing. -/
def cell? : Yaml.Node → Option Cell
  | .scalar none style text => if style = .plain then plainCell? text else some (.name text)
  | .scalar (some tag) style text =>
    if tag.isLocal then
      if tag.isText then none else if style = .plain then plainCell? text else some (.name text)
    else if tag = .standard "int" then
      ((Yaml.integer? text.toList).filter Yaml.fits).bind cellOfInteger?
    else if tag ∈ ["bool", "float", "null"].map Yaml.Tag.standard then none
    else some (.name text)
  | _ => none

/-- The value that a scalar stands for. A literal block must be tagged as an integer. -/
def value? : Yaml.Node → Option Int16
  | .scalar tag style text =>
    if style = .plain ∨ style = .literal ∧ tag = some (.standard "int") then
      match Yaml.integer? text.toList with
      | some i => if -0x8000 ≤ i ∧ i < 0x8000 then some (Int16.ofInt i) else none
      | none => none
    else none
  | _ => none

/-- Replaces the value of a cell or adds the cell at the end. -/
def assign (c : Cell) (v : Int16) : List (Cell × Int16) → List (Cell × Int16)
  | [] => [(c, v)]
  | entry :: rest => if entry.1 = c then (c, v) :: rest else entry :: assign c v rest

/-- The cells keep the places where they come first. Where nothing is written there are none. -/
def init? (d : Yaml.Document) (n : Yaml.Node) : Option (List (Cell × Int16)) :=
  match d.follow n with
  | .scalar _ .plain "" => some []
  | .mapping entries =>
    entries.foldlM
      (fun init entry => do
        let c ← cell? (d.follow entry.1)
        let v ← value? (d.follow entry.2)
        some (assign c v init))
      []
  | _ => none

def dump? (d : Yaml.Document) (n : Yaml.Node) : Option (List Cell) :=
  match d.follow n with
  | .scalar _ .plain "" => some []
  | .sequence items => items.mapM fun item => cell? (d.follow item)
  | _ => none

/-- What has been read of a setup. -/
structure Draft where
  init : Option (List (Cell × Int16)) := none
  dump : Option (List Cell) := none

/-- Adds an entry of a document. The two entries of a setup may not come twice; unknown ones do not
count, but their keys are scalars too. -/
def Draft.add (d : Yaml.Document) (draft : Draft) (entry : Yaml.Node × Yaml.Node) :
    Option Draft :=
  match d.follow entry.1 with
  | .scalar _ _ "init" =>
    if draft.init.isSome then none
    else (init? d entry.2).map fun init => { draft with init := some init }
  | .scalar _ _ "dump" =>
    if draft.dump.isSome then none
    else (dump? d entry.2).map fun dump => { draft with dump := some dump }
  | .scalar .. => some draft
  | _ => none

def ofDocument? (d : Yaml.Document) : Option Setup :=
  match d.root with
  | .scalar _ .plain "" => some {}
  | .mapping entries => do
    let draft ← entries.foldlM (Draft.add d) {}
    some { init := draft.init.getD [], dump := draft.dump.getD [] }
  | _ => none

/-- Reads a setup, or nothing if the text is none. -/
def parse? (text : String) : Option Setup :=
  match Yaml.document? text.toList with
  | some (some d) => ofDocument? d
  | some none => some {}
  | none => none

/-! ## Applying -/

/-- Writes values one after the other up to the first cell that cannot be found. -/
def write (p : Program) (m : Machine) : List (Cell × Int16) → Machine × Option UnknownCell
  | [] => (m, none)
  | (c, v) :: rest =>
    match p.set m c v.toUInt16 with
    | .ok m => write p m rest
    | .error e => (m, some e)

def apply (s : Setup) (p : Program) (m : Machine) : Machine × Option UnknownCell :=
  write p m s.init

end Setup

end Hack
