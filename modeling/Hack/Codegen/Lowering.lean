/-
Lowering of commands to assembly lines. Lines are emitted in order, with a cursor that says what the address register
is known to hold: pointing the register somewhere emits only the loads that the cursor does not make needless, and
every line that may change the register moves the cursor. A command lowers to emission steps; one that fails may have
steps before the failure, which stay. The stack pointer's cell holds the address of the first free cell, and
operations work in D; the cell R13 keeps the destination of a pop, or the right operand of a comparison, while the
stack is read. A comparison branches to five labels, made of the unit's name, the number of the comparison in the unit
and a tag, so that no two labels are the same.
-/
import Hack.Asm.Line
import Hack.Vm.Command
namespace Hack.Codegen

open Vm

/-! ## The cursor -/

/-- What the address register can be known to hold. -/
inductive Target
  /-- A number or a symbol's address. -/
  | direct (v : Operand)
  /-- The content of a symbol's cell. -/
  | deref (name : String)
  deriving DecidableEq, Repr

structure Emitter where
  output : Array Line := #[]
  /-- Nothing is known without a cursor. -/
  cursor : Option Target := none

namespace Emitter

/-- What is known of the address register behind a line. A label may be jumped to from anywhere. -/
def cursorAfter (cursor : Option Target) : Line → Option Target
  | .instr (.load v) => some (.direct v)
  | .instr (.compute dest _ _) => if dest.a then none else cursor
  | .label _ => none

def append (e : Emitter) (l : Line) : Emitter where
  output := e.output.push l
  cursor := cursorAfter e.cursor l

/-- Loads an operand unless the register holds it. -/
def pointDirect (e : Emitter) (v : Operand) : Emitter :=
  if e.cursor = some (.direct v) then e else e.append (.load v)

/-- Makes the address register hold `target`. -/
def pointTo (e : Emitter) (target : Target) : Emitter :=
  if e.cursor = some target then e
  else match target with
    | .direct v => e.pointDirect v
    | .deref name =>
      { (e.pointDirect (.symbol name)).append (.assign .toA (.y .m)) with
        cursor := some (.deref name) }

end Emitter

/-! ## Emission steps -/

/-- What generated code is made of: address loads, which may turn out needless, and lines, which
may not. -/
inductive Emission
  | point (target : Target)
  | line (l : Line)
  deriving DecidableEq, Repr

namespace Emitter

def emit (e : Emitter) : Emission → Emitter
  | .point target => e.pointTo target
  | .line l => e.append l

def emitAll (e : Emitter) (steps : List Emission) : Emitter :=
  steps.foldl emit e

end Emitter

/-! ## Single steps -/

/-- The cell that keeps a value while the stack is read. -/
def scratch : String := "R13"

def pointSymbol (name : String) : Emission :=
  .point (.direct (.symbol name))

def pointDeref (name : String) : Emission :=
  .point (.deref name)

def assign (dest : Dest) (comp : Comp) : Emission :=
  .line (.assign dest comp)

/-- A jump to a label. -/
def jumpTo (name : String) (comp : Comp) (jump : Jump) : List Emission :=
  [pointSymbol name, .line (.branch comp jump)]

/-! ## The stack -/

/-- Points at the topmost value of the stack. -/
def pointTop : List Emission :=
  [pointSymbol Symbol.sp, assign .toA (.predY .m)]

/-- Drops the topmost value. -/
def dropTop : List Emission :=
  [pointSymbol Symbol.sp, assign .toM (.predY .m)]

/-- Moves the topmost value to D. -/
def popD : List Emission :=
  pointTop ++ [assign .toD (.y .m)] ++ dropTop

/-- Puts D behind the topmost value. -/
def pushD : List Emission :=
  [pointDeref Symbol.sp, assign .toM .d, pointSymbol Symbol.sp, assign .toM (.succY .m)]

/-! ## Labels of comparisons -/

/-- Where the branches of one comparison go. -/
structure CompareLabels where
  /-- The left operand is negative. -/
  negative : String
  /-- The operands have the same sign, so that their difference does not overflow. -/
  sameSign : String
  /-- D has the sign that tells the operands' order. -/
  ready : String
  onTrue : String
  done : String
  deriving DecidableEq, Repr

namespace CompareLabels

/-- The text before the tag. -/
def stem (unit : String) (n : Nat) : String :=
  unit ++ "$CMP_" ++ toString n ++ "_"

/-- The labels of the `n`-th comparison of a unit. -/
def make (unit : String) (n : Nat) : CompareLabels where
  negative := stem unit n ++ "XNEG"
  sameSign := stem unit n ++ "SAME"
  ready := stem unit n ++ "READY"
  onTrue := stem unit n ++ "TRUE"
  done := stem unit n ++ "END"

def toList (l : CompareLabels) : List String :=
  [l.negative, l.sameSign, l.ready, l.onTrue, l.done]

end CompareLabels

/-! ## Comparisons -/

/-- The right operand is in D and the left one on the stack; leaves in D a value that is negative,
zero or positive as the left operand is below, equal to or above the right one. The difference
tells it if the signs agree; else the sign of the left operand does. -/
def order (l : CompareLabels) : List Emission :=
  [pointSymbol scratch, assign .toM .d] ++ pointTop ++ [assign .toD (.y .m)] ++
    jumpTo l.negative .d .jlt ++
    [pointSymbol scratch, assign .toD (.y .m)] ++ jumpTo l.sameSign .d .jge ++
    [assign .toD .one] ++ jumpTo l.ready .zero .jmp ++
    [.line (.label l.negative)] ++
    [pointSymbol scratch, assign .toD (.y .m)] ++ jumpTo l.sameSign .d .jlt ++
    [assign .toD .negOne] ++ jumpTo l.ready .zero .jmp ++
    [.line (.label l.sameSign)] ++
    pointTop ++ [assign .toD (.y .m), pointSymbol scratch, assign .toD (.sub .m)] ++
    [.line (.label l.ready)]

/-- Replaces D by -1 if the jump is taken on it and by 0 if not. -/
def truth (jump : Jump) (l : CompareLabels) : List Emission :=
  jumpTo l.onTrue .d jump ++ [assign .toD .zero] ++ jumpTo l.done .zero .jmp ++
    [.line (.label l.onTrue), assign .toD .negOne, .line (.label l.done)]

def compare (jump : Jump) (labels : CompareLabels) : List Emission :=
  order labels ++ truth jump labels ++ dropTop

/-! ## Addresses -/

def literal (n : UInt16) : Except CommandError Emission :=
  if n ≤ maxLiteral then .ok (.point (.direct (.number n))) else .error (.literalTooLarge n)

/-- The symbol of a unit's static cell. -/
def staticName (unit : String) (n : UInt16) : String :=
  unit ++ "." ++ toString n.toNat

/-- Steps that point at the cell of a segment, or make the register hold the value of a constant.
An indirect segment takes D on the way. -/
def resolve (unit : String) (seg : Segment) (n : UInt16) : Except CommandError (List Emission) :=
  match seg.policy with
  | .value => (literal n).map fun load => [load]
  | .indirect base =>
    (literal n).map fun load =>
      [load, assign .toD (.y .a), pointSymbol base, assign .toA (.add .m)]
  | .fixed base len =>
    if n < len then .ok [.point (.direct (.number (base + n)))]
    else .error (.operandOutOfRange seg n (len - 1))
  | .select cells =>
    match cells[n.toNat]? with
    | some cell => .ok [pointSymbol cell]
    | none => .error (.operandOutOfRange seg n (UInt16.ofNat (cells.length - 1)))
  | .unit => .ok [pointSymbol (staticName unit n)]
  | .stack => .ok [pointDeref Symbol.sp]

/-! ## Commands -/

/-- The steps of a command up to its end or its failure. -/
structure Lowered where
  steps : List Emission
  error : Option CommandError := none

/-- Adds steps in front. -/
def Lowered.after (first : List Emission) (l : Lowered) : Lowered :=
  { l with steps := first ++ l.steps }

/-- Goes on with the steps of an address, or fails. -/
def withAddress (address : Except CommandError (List Emission))
    (rest : List Emission → List Emission) : Lowered :=
  match address with
  | .ok steps => ⟨rest steps, none⟩
  | .error e => ⟨[], some e⟩

def lowerPush (unit : String) (seg : Segment) (n : UInt16) : Lowered :=
  match seg with
  | .stack => ⟨popD ++ pushD, none⟩
  | .constant =>
    withAddress (resolve unit seg n) fun address => address ++ [assign .toD (.y .a)] ++ pushD
  | _ => withAddress (resolve unit seg n) fun address => address ++ [assign .toD (.y .m)] ++ pushD

/-- A staged pop finds its destination first and keeps it in the scratch cell. -/
def lowerPop (unit : String) (seg : Segment) (n : UInt16) : Lowered :=
  match seg with
  | .constant => ⟨[], some (.notWritable seg)⟩
  | .stack => ⟨popD ++ pushD, none⟩
  | _ =>
    if seg.policy.staged then
      withAddress (resolve unit seg n) fun address =>
        address ++ [assign .toD (.y .a), pointSymbol scratch, assign .toM .d] ++ popD ++
          [pointDeref scratch, assign .toM .d]
    else
      (withAddress (resolve unit seg n) fun address => address ++ [assign .toM .d]).after popD

/-- The right operand is in D and the left one on the stack; leaves in D the result, which takes
the place of both. -/
def binary (comp : Comp) : List Emission :=
  pointTop ++ [assign .toD comp] ++ dropTop

/-- The steps of an operation with its operand, or its right operand, in D. -/
def operate (labels : CompareLabels) : Op → List Emission
  | .neg => [assign .toD .negD]
  | .not => [assign .toD .notD]
  | .add => binary (.add .m)
  | .sub => binary (.subD .m)
  | .and => binary (.and .m)
  | .or => binary (.or .m)
  | .eq => compare .jeq labels
  | .gt => compare .jgt labels
  | .lt => compare .jlt labels

/-- The steps of a command of a unit; a comparison uses the labels of its number. -/
def lower (unit : String) (comparison : Nat) : Command → Lowered
  | .push seg n => lowerPush unit seg n
  | .pop seg n => lowerPop unit seg n
  | .arith op => ⟨popD ++ operate (.make unit comparison) op ++ pushD, none⟩

end Hack.Codegen
