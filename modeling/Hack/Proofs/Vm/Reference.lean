/-
The reference machine: what commands do to memory, read off the commands themselves. Cell 0 holds the
stack pointer, cells 1 to 4 the base addresses of the four segments that move. The machine that runs
compiled code does the same as long as every cell in use exists, nothing is read from the scratch
cell, and no operand of an operation is in the cell of the stack pointer itself.
-/
import Hack.Machine.Basic
import Hack.Vm.Command

namespace Hack.Vm

/-! ## Meaning -/

/-- The cell of an operand; `static` says where the unit's static cells are. A constant has no cell
and stands for itself. -/
def Segment.cell (static : UInt16 → UInt16) (ram : Ram) (n : UInt16) : Segment → UInt16
  | .constant => n
  | .locals => ram.read 1 + n
  | .argument => ram.read 2 + n
  | .this => ram.read 3 + n
  | .that => ram.read 4 + n
  | .temp => 5 + n
  | .pointer => 3 + n
  | .static => static n
  | .stack => ram.read 0

/-- The word of a truth value. -/
def truthWord (b : Bool) : UInt16 :=
  if b then 0xFFFF else 0

namespace Op

/-- Whether an operation has the topmost value as its only operand. -/
def unary : Op → Bool
  | .neg | .not => true
  | _ => false

/-- The result of an operation; `y` is the topmost value and `x` the one below it. -/
def eval (x y : UInt16) : Op → UInt16
  | .neg => -y
  | .not => ~~~y
  | .add => x + y
  | .sub => x - y
  | .and => x &&& y
  | .or => x ||| y
  | .eq => truthWord (x = y)
  | .gt => truthWord (y.toInt16 < x.toInt16)
  | .lt => truthWord (x.toInt16 < y.toInt16)

end Op

/-- Puts a value on the stack. -/
def pushValue (ram : Ram) (v : UInt16) : Ram :=
  let ram := ram.write (ram.read 0) v
  ram.write 0 (ram.read 0 + 1)

/-- Takes the topmost value off the stack. -/
def dropValue (ram : Ram) : Ram :=
  ram.write 0 (ram.read 0 - 1)

namespace Command

/-- What a command does. A pop fixes its destination first; the result of an operation takes the place
of its lowest operand. -/
def exec (static : UInt16 → UInt16) (ram : Ram) : Command → Ram
  | .push seg n =>
    let cell := seg.cell static ram n
    pushValue ram (if seg = .constant then n else ram.read cell)
  | .pop seg n =>
    let cell := seg.cell static ram n
    (dropValue ram).write cell (ram.read (ram.read 0 - 1))
  | .arith op =>
    let sp := ram.read 0
    let v := op.eval (ram.read (sp - 2)) (ram.read (sp - 1))
    if op.unary then ram.write (sp - 1) v else dropValue (ram.write (sp - 2) v)

/-- Commands one after the other. -/
def execAll (static : UInt16 → UInt16) (ram : Ram) (cmds : List Command) : Ram :=
  cmds.foldl (exec static) ram

/-! ## Cells in use -/

/-- The cells whose values a command reads. -/
def reads (static : UInt16 → UInt16) (ram : Ram) : Command → List UInt16
  | .push seg n => if seg = .constant then [] else [seg.cell static ram n]
  | .pop _ _ => [ram.read 0 - 1]
  | .arith op => if op.unary then [ram.read 0 - 1] else [ram.read 0 - 1, ram.read 0 - 2]

/-- The cell that a command puts a value into. -/
def target (static : UInt16 → UInt16) (ram : Ram) : Command → UInt16
  | .push _ _ => ram.read 0
  | .pop seg n => seg.cell static ram n
  | .arith op => if op.unary then ram.read 0 - 1 else ram.read 0 - 2

/-- Whether a command operates on values of the stack. -/
def operates : Command → Bool
  | .arith _ => true
  | _ => false

/-- Whether every cell in use exists, none of the values comes from the scratch cell, and no operand of
an operation from the cell of the stack pointer. -/
def Safe (static : UInt16 → UInt16) (ram : Ram) (cmd : Command) : Prop :=
  (cmd.target static ram).toNat < ramSize ∧
    ∀ addr ∈ cmd.reads static ram, addr.toNat < ramSize ∧ addr ≠ 13 ∧ (cmd.operates → addr ≠ 0)

instance (static : UInt16 → UInt16) (ram : Ram) (cmd : Command) : Decidable (cmd.Safe static ram) :=
  inferInstanceAs (Decidable (_ ∧ _))

/-- Whether commands are safe where they come in the reference machine's run. -/
def SafeAll (static : UInt16 → UInt16) (ram : Ram) : List Command → Prop
  | [] => True
  | cmd :: cmds => cmd.Safe static ram ∧ SafeAll static (cmd.exec static ram) cmds

end Command

end Hack.Vm
