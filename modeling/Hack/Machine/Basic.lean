/-
The machine: two registers, a program counter and data memory. A step executes the word at the
program counter; it fails, and then changes nothing, exactly if the word touches the cell under the
address register and there is no such cell. The machine halts when the counter leaves the program.
-/
import Hack.Machine.Program
namespace Hack

open Text

/-! ## Memory -/

def ramSize : Nat := 0x8000

structure Ram where
  cells : Vector UInt16 ramSize
  deriving DecidableEq

namespace Ram

def zero : Ram :=
  ⟨Vector.replicate ramSize 0⟩

/-- The content of a cell; there is nothing but zeros beyond the last one. -/
def read (r : Ram) (addr : UInt16) : UInt16 :=
  if h : addr.toNat < ramSize then r.cells[addr.toNat] else 0

/-- Beyond the last cell nothing is written. -/
def write (r : Ram) (addr v : UInt16) : Ram :=
  ⟨r.cells.setIfInBounds addr.toNat v⟩

theorem read_write_self {r : Ram} {addr : UInt16} (h : addr.toNat < ramSize) (v : UInt16) :
    (r.write addr v).read addr = v := by
  simp [read, write, h]

theorem read_write_of_ne {r : Ram} {addr other : UInt16} (h : addr ≠ other) (v : UInt16) :
    (r.write addr v).read other = r.read other := by
  have : addr.toNat ≠ other.toNat := fun e => h (UInt16.toNat_inj.1 e)
  simp [read, write, this]

theorem read_zero (addr : UInt16) : zero.read addr = 0 := by
  simp [read, zero]

end Ram

/-! ## Steps -/

/-- Registers and memory at one moment. -/
structure Machine where
  a : UInt16
  d : UInt16
  pc : UInt16
  ram : Ram
  deriving DecidableEq

/-- An access to a cell that does not exist. -/
structure Fault where
  addr : UInt16
  pc : UInt16
  deriving DecidableEq, Repr

def Fault.message (f : Fault) : String :=
  "Memory access out of range: 0x" ++ hex4 f.addr.toNat ++ " at pc 0x" ++ hex4 f.pc.toNat

namespace Machine

/-- All registers and cells zero. -/
def start : Machine :=
  ⟨0, 0, 0, .zero⟩

/-- The effect of a word. A jump goes where the address register pointed before the word. -/
def exec (m : Machine) : Word → Machine
  | .load v => { m with a := v, pc := m.pc + 1 }
  | .compute dest comp jump =>
    let ⟨a, d, pc, ram⟩ := m
    let out := comp.eval a d (ram.read a)
    { a := if dest.a then out else a
      d := if dest.d then out else d
      pc := if jump.taken out then a else pc + 1
      ram := if dest.m then ram.write a out else ram }

/-- The fault of a word, if it has one. -/
def fault? (m : Machine) (w : Word) : Option Fault :=
  if w.touchesMemory && !(m.a.toNat < ramSize) then some ⟨m.a, m.pc⟩ else none

end Machine

namespace Program

def halted (p : Program) (m : Machine) : Bool :=
  p.words.size ≤ m.pc.toNat

inductive Step
  | halted
  | fault (f : Fault)
  | next (m : Machine)

def step (p : Program) (m : Machine) : Step :=
  match p.words[m.pc.toNat]? with
  | none => .halted
  | some w =>
    match m.fault? w with
    | some f => .fault f
    | none => .next (m.exec w)

/-! ## Runs -/

/-- Where a run ended, after how many steps, and the fault that ended it. -/
structure Run where
  machine : Machine
  steps : Nat
  fault : Option Fault

/-- Counts on from `steps`. -/
def runFrom (p : Program) (steps : Nat) : Nat → Machine → Run
  | 0, m => ⟨m, steps, none⟩
  | limit + 1, m =>
    match p.words[m.pc.toNat]? with
    | none => ⟨m, steps, none⟩
    | some w =>
      match m.fault? w with
      | some f => ⟨m, steps, some f⟩
      | none => p.runFrom (steps + 1) limit (m.exec w)

/-- Steps until the machine halts, a step fails or `limit` steps are done. -/
def run (p : Program) (limit : Nat) (m : Machine) : Run :=
  p.runFrom 0 limit m

/-! ## Cells -/

end Program

/-- A cell given by its address or by a name. -/
inductive Cell
  | addr (n : UInt16)
  | name (s : String)
  deriving DecidableEq, Repr

/-- A cell that cannot be found, as it was given. -/
structure UnknownCell where
  text : String
  deriving DecidableEq, Repr

def UnknownCell.message (e : UnknownCell) : String :=
  "Unknown cell: `" ++ e.text ++ "`"

namespace Program

def inRam (addr : UInt16) : Except UnknownCell UInt16 :=
  if addr.toNat < ramSize then .ok addr else .error ⟨toString addr.toNat⟩

/-- The address of a cell in memory. -/
def address (p : Program) : Cell → Except UnknownCell UInt16
  | .addr n => inRam n
  | .name s =>
    match p.cell? s with
    | some n => inRam n
    | none => .error ⟨s⟩

def get (p : Program) (m : Machine) (c : Cell) : Except UnknownCell UInt16 :=
  (p.address c).map m.ram.read

def set (p : Program) (m : Machine) (c : Cell) (v : UInt16) : Except UnknownCell Machine :=
  (p.address c).map fun addr => { m with ram := m.ram.write addr v }

end Program

end Hack
