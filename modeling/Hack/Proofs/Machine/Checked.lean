/-
The machine with every access checked. Its memory is an array of any size; an index out of range is a
violation, and so is a counter that does not fit into a word when it moves on. The machine's own checks come
before the accesses: whether the counter is within the program, and whether the address register and the
cells that are named are below the size of memory.

Of a program that loads, the checked machine never comes to a violation, whatever is done with it in whatever
order and whatever values its registers are given. It always answers as the machine does.
-/
import Hack.Machine.Setup
import Hack.Proofs.Machine.Parse
import Hack.Proofs.Machine.Setup

namespace Hack

/-! ## Checked accesses -/

/-- What must not happen. -/
inductive Violation
  /-- An index that is not below the size of what it goes into. -/
  | index (i size : Nat)
  /-- A counter that does not fit into a word. -/
  | overflow (pc : UInt16)
  deriving DecidableEq, Repr

/-- A machine whose accesses are checked. -/
structure Checked where
  a : UInt16
  d : UInt16
  pc : UInt16
  ram : Array UInt16

namespace Checked

def fetch {α : Type} (xs : Array α) (i : UInt16) : Except Violation α :=
  if h : i.toNat < xs.size then .ok xs[i.toNat] else .error (.index i.toNat xs.size)

def store {α : Type} (xs : Array α) (i : UInt16) (x : α) : Except Violation (Array α) :=
  if h : i.toNat < xs.size then .ok (xs.set i.toNat x h) else .error (.index i.toNat xs.size)

/-- The counter's next value. -/
def advance (pc : UInt16) : Except Violation UInt16 :=
  if pc.toNat + 1 < UInt16.size then .ok (pc + 1) else .error (.overflow pc)

/-! ## Steps and runs -/

inductive Step
  | halted
  | fault (f : Fault)
  | next (c : Checked)

/-- Whether the address register points at a cell. -/
def pointsAtCell (c : Checked) : Bool :=
  c.a.toNat < ramSize

/-- What a computation reads from memory, if it reads any. -/
def input (c : Checked) (comp : Comp) : Except Violation UInt16 :=
  if comp.readsMemory then fetch c.ram c.a else .ok 0

/-- Memory behind an output. -/
def output (c : Checked) (dest : Dest) (out : UInt16) : Except Violation (Array UInt16) :=
  if dest.m then store c.ram c.a out else .ok c.ram

/-- The counter behind an output. -/
def target (c : Checked) (jump : Jump) (out : UInt16) : Except Violation UInt16 :=
  if jump.taken out then .ok c.a else advance c.pc

/-- A computing word. The machine checks the address before each of the two accesses to memory. -/
def compute (c : Checked) (dest : Dest) (comp : Comp) (jump : Jump) : Except Violation Step := do
  if comp.readsMemory && !c.pointsAtCell then return .fault ⟨c.a, c.pc⟩
  let out := comp.eval c.a c.d (← c.input comp)
  if dest.m && !c.pointsAtCell then return .fault ⟨c.a, c.pc⟩
  let ram ← c.output dest out
  let pc ← c.target jump out
  return .next ⟨if dest.a then out else c.a, if dest.d then out else c.d, pc, ram⟩

def step (p : Program) (c : Checked) : Except Violation Step := do
  if p.words.size ≤ c.pc.toNat then return .halted
  match ← fetch p.words c.pc with
  | .load v => return .next { c with a := v, pc := ← advance c.pc }
  | .compute dest comp jump => c.compute dest comp jump

structure Run where
  machine : Checked
  steps : Nat
  fault : Option Fault

/-- Counts on from `steps`. -/
def runFrom (p : Program) (steps : Nat) : Nat → Checked → Except Violation Run
  | 0, c => .ok ⟨c, steps, none⟩
  | limit + 1, c => do
    match ← c.step p with
    | .halted => return ⟨c, steps, none⟩
    | .fault f => return ⟨c, steps, some f⟩
    | .next c => runFrom p (steps + 1) limit c

/-! ## Cells -/

def get (p : Program) (c : Checked) (cell : Cell) : Except Violation (Except UnknownCell UInt16) :=
  match p.address cell with
  | .ok addr => (fetch c.ram addr).map .ok
  | .error e => .ok (.error e)

def set (p : Program) (c : Checked) (cell : Cell) (v : UInt16) : Except Violation (Except UnknownCell Checked) :=
  match p.address cell with
  | .ok addr => (store c.ram addr v).map fun ram => .ok { c with ram }
  | .error e => .ok (.error e)

/-- Writes values one after the other up to the first cell that cannot be found. -/
def write (p : Program) (c : Checked) : List (Cell × Int16) → Except Violation (Checked × Option UnknownCell)
  | [] => .ok (c, none)
  | (cell, v) :: rest => do
    match ← c.set p cell v.toUInt16 with
    | .ok c => write p c rest
    | .error e => return (c, some e)

end Checked

/-! ## Operations -/

/-- What can be done with a machine. -/
inductive Operation
  /-- A step, and a look at the instruction that it has executed. -/
  | step
  | run (limit : Nat)
  | get (c : Cell)
  | set (c : Cell) (v : UInt16)
  | address (c : Cell)
  /-- The values of a setup, in any order. -/
  | apply (entries : List (Cell × Int16))
  | setA (v : UInt16)
  | setD (v : UInt16)
  | setPc (v : UInt16)

inductive Answer
  | done
  | halted
  /-- The address of the instruction that has been executed, and the instruction. -/
  | executed (pc : UInt16) (i : Option Instr)
  | steps (n : Nat)
  | word (v : UInt16)
  | fault (f : Fault)
  | unknown (e : UnknownCell)

namespace Answer

def ofRun (steps : Nat) : Option Fault → Answer
  | none => .steps steps
  | some f => .fault f

def ofWord : Except UnknownCell UInt16 → Answer
  | .ok v => .word v
  | .error e => .unknown e

def ofUnknown : Option UnknownCell → Answer
  | none => .done
  | some e => .unknown e

end Answer

/-- An operation on the machine. -/
def Operation.perform (p : Program) (m : Machine) : Operation → Machine × Answer
  | .step =>
    match p.step m with
    | .halted => (m, .halted)
    | .fault f => (m, .fault f)
    | .next m' => (m', .executed m.pc p.code[m.pc.toNat]?)
  | .run limit => let r := p.run limit m; (r.machine, .ofRun r.steps r.fault)
  | .get c => (m, .ofWord (p.get m c))
  | .set c v =>
    match p.set m c v with
    | .ok m => (m, .done)
    | .error e => (m, .unknown e)
  | .address c => (m, .ofWord (p.address c))
  | .apply entries => let (m, e) := Setup.write p m entries; (m, .ofUnknown e)
  | .setA v => ({ m with a := v }, .done)
  | .setD v => ({ m with d := v }, .done)
  | .setPc v => ({ m with pc := v }, .done)

/-- Operations one after the other. -/
def Operation.performAll (p : Program) (m : Machine) : List Operation → Machine × List Answer
  | [] => (m, [])
  | op :: ops =>
    let (m, answer) := op.perform p m
    let (m, answers) := performAll p m ops
    (m, answer :: answers)

namespace Checked

/-- An operation on the checked machine. -/
def perform (p : Program) (c : Checked) : Operation → Except Violation (Checked × Answer)
  | .step => do
    match ← c.step p with
    | .halted => return (c, .halted)
    | .fault f => return (c, .fault f)
    | .next c' => return (c', .executed c.pc (some (← fetch p.code c.pc)))
  | .run limit => do let r ← runFrom p 0 limit c; return (r.machine, .ofRun r.steps r.fault)
  | .get cell => do return (c, .ofWord (← c.get p cell))
  | .set cell v => do
    match ← c.set p cell v with
    | .ok c => return (c, .done)
    | .error e => return (c, .unknown e)
  | .address cell => .ok (c, .ofWord (p.address cell))
  | .apply entries => do let (c, e) ← c.write p entries; return (c, .ofUnknown e)
  | .setA v => .ok ({ c with a := v }, .done)
  | .setD v => .ok ({ c with d := v }, .done)
  | .setPc v => .ok ({ c with pc := v }, .done)

/-- Operations one after the other. -/
def performAll (p : Program) (c : Checked) : List Operation → Except Violation (Checked × List Answer)
  | [] => .ok (c, [])
  | op :: ops => do
    let (c, answer) ← c.perform p op
    let (c, answers) ← performAll p c ops
    return (c, answer :: answers)

/-- All registers and cells zero. -/
def start : Checked :=
  ⟨0, 0, 0, .replicate ramSize 0⟩

end Checked

/-- The machine as a checked one. -/
def Machine.checked (m : Machine) : Checked :=
  ⟨m.a, m.d, m.pc, m.ram.cells.toArray⟩

section

variable (m : Machine)

@[simp] theorem Machine.checked_a : m.checked.a = m.a := rfl

@[simp] theorem Machine.checked_d : m.checked.d = m.d := rfl

@[simp] theorem Machine.checked_pc : m.checked.pc = m.pc := rfl

@[simp] theorem Machine.checked_ram : m.checked.ram = m.ram.cells.toArray := rfl

end

namespace Checked

/-! ## No violations -/

theorem ok_bind {α β : Type} (a : α) (f : α → Except Violation β) : (Except.ok a >>= f) = f a := rfl

theorem fetch_eq {α : Type} {xs : Array α} {i : UInt16} {x : α} (h : xs[i.toNat]? = some x) :
    fetch xs i = .ok x := by
  obtain ⟨hlt, hx⟩ := Array.getElem?_eq_some_iff.1 h
  rw [fetch, dif_pos hlt, hx]

theorem fetch_ram (r : Ram) {addr : UInt16} (h : addr.toNat < ramSize) :
    fetch r.cells.toArray addr = .ok (r.read addr) := by
  apply fetch_eq
  rw [Ram.read, dif_pos h]
  simp [h]

theorem store_ram (r : Ram) {addr : UInt16} (h : addr.toNat < ramSize) (v : UInt16) :
    store r.cells.toArray addr v = .ok (r.write addr v).cells.toArray := by
  have hsize : addr.toNat < r.cells.toArray.size := by rw [Vector.size_toArray]; exact h
  rw [store, dif_pos hsize, Ram.write, Vector.toArray_setIfInBounds, Array.setIfInBounds, dif_pos hsize]

/-- Within a program the counter fits when it moves on. -/
theorem advance_eq {p : Program} (h : p.words.size ≤ romSize) {pc : UInt16} (hpc : pc.toNat < p.words.size) :
    advance pc = .ok (pc + 1) := by
  rw [advance, if_pos]
  simp only [romSize] at h
  change _ < 65536
  omega

/-- What a step comes to. -/
def Step.ofStep : Program.Step → Step
  | .halted => .halted
  | .fault f => .fault f
  | .next m => .next m.checked

section

variable {p : Program} {m : Machine}

theorem input_checked {comp : Comp} (h : comp.readsMemory = true → m.a.toNat < ramSize) (d : UInt16) :
    ∃ v, m.checked.input comp = .ok v ∧ comp.eval m.a d v = comp.eval m.a d (m.ram.read m.a) := by
  cases hr : comp.readsMemory with
  | true => exact ⟨_, by rw [input, if_pos hr]; exact fetch_ram m.ram (h hr), rfl⟩
  | false =>
    refine ⟨0, ?_, Comp.eval_of_not_readsMemory hr _ _ _ _⟩
    simp [input, hr]

theorem output_checked {dest : Dest} (h : dest.m = true → m.a.toNat < ramSize) (out : UInt16) :
    m.checked.output dest out = .ok (if dest.m then m.ram.write m.a out else m.ram).cells.toArray := by
  unfold output
  split
  · exact store_ram m.ram (h ‹_›) out
  · rfl

theorem target_checked (h : advance m.pc = .ok (m.pc + 1)) (jump : Jump) (out : UInt16) :
    m.checked.target jump out = .ok (if jump.taken out then m.a else m.pc + 1) := by
  unfold target
  split
  · rfl
  · exact h

/-- A computing word that touches no cell, or one that exists. -/
theorem compute_checked_of_lt {dest : Dest} {comp : Comp}
    (h : (comp.readsMemory || dest.m) = true → m.a.toNat < ramSize) (hpc : advance m.pc = .ok (m.pc + 1))
    (jump : Jump) :
    m.checked.compute dest comp jump = .ok (.next (m.exec (.compute dest comp jump)).checked) := by
  have hread : comp.readsMemory = true → m.a.toNat < ramSize := fun hr => h (by rw [hr, Bool.true_or])
  have hwrite : dest.m = true → m.a.toNat < ramSize := fun hm => h (by rw [hm, Bool.or_true])
  have passes {b : Bool} (hb : b = true → m.a.toNat < ramSize) : (b && !m.checked.pointsAtCell) = false := by
    cases b with
    | false => rfl
    | true => simp [pointsAtCell, hb rfl]
  obtain ⟨v, hv, hout⟩ := input_checked hread m.d
  unfold compute
  simp only [passes hread, passes hwrite, Bool.false_eq_true, if_false, hv, ok_bind, Machine.checked_a,
    Machine.checked_d, hout, output_checked hwrite, target_checked hpc]
  rfl

/-- One that touches a cell that does not exist. -/
theorem compute_checked_of_not_lt {dest : Dest} {comp : Comp} (h : (comp.readsMemory || dest.m) = true)
    (ha : ¬ m.a.toNat < ramSize) (jump : Jump) :
    m.checked.compute dest comp jump = .ok (.fault ⟨m.a, m.pc⟩) := by
  have hcell : m.checked.pointsAtCell = false := decide_eq_false ha
  unfold compute
  rw [hcell]
  cases hr : comp.readsMemory with
  | true => rfl
  | false =>
    have hm : dest.m = true := by simpa [hr] using h
    rw [input, hr, hm]
    rfl

theorem compute_checked (hpc : advance m.pc = .ok (m.pc + 1)) (dest : Dest) (comp : Comp) (jump : Jump) :
    m.checked.compute dest comp jump =
      .ok (match m.fault? (.compute dest comp jump) with
        | some f => .fault f
        | none => .next (m.exec (.compute dest comp jump)).checked) := by
  unfold Machine.fault? Word.touchesMemory
  dsimp only
  by_cases hf : ((comp.readsMemory || dest.m) && !decide (m.a.toNat < ramSize)) = true
  · rw [if_pos hf]
    rw [Bool.and_eq_true, Bool.not_eq_true', decide_eq_false_iff_not] at hf
    exact compute_checked_of_not_lt hf.1 hf.2 jump
  · rw [if_neg hf]
    refine compute_checked_of_lt ?_ hpc jump
    intro ht
    by_contra ha
    exact hf (by rw [ht, decide_eq_false ha]; rfl)

/-- A step of the checked machine is a step of the machine. -/
theorem step_checked (h : p.words.size ≤ romSize) (m : Machine) :
    m.checked.step p = .ok (.ofStep (p.step m)) := by
  unfold step Program.step
  rw [Machine.checked_pc]
  rcases Nat.lt_or_ge m.pc.toNat p.words.size with hlt | hge
  · obtain ⟨w, hw⟩ : ∃ w, p.words[m.pc.toNat]? = some w := ⟨_, Array.getElem?_eq_getElem hlt⟩
    have hpc := advance_eq h hlt
    rw [if_neg (Nat.not_le_of_lt hlt), hw, fetch_eq hw, ok_bind]
    cases w with
    | load v =>
      dsimp only
      rw [hpc]
      rfl
    | compute dest comp jump =>
      dsimp only
      rw [compute_checked hpc]
      cases m.fault? (.compute dest comp jump) <;> rfl
  · rw [if_pos hge, Array.getElem?_eq_none hge]
    rfl

theorem runFrom_checked (h : p.words.size ≤ romSize) (limit : Nat) : ∀ (steps : Nat) (m : Machine),
    runFrom p steps limit m.checked =
      .ok ⟨(p.runFrom steps limit m).machine.checked, (p.runFrom steps limit m).steps,
        (p.runFrom steps limit m).fault⟩ := by
  induction limit with
  | zero => exact fun _ _ => rfl
  | succ limit ih =>
    intro steps m
    rw [runFrom, Program.runFrom_succ, step_checked h, ok_bind]
    cases p.step m with
    | halted => rfl
    | fault f => rfl
    | next m' => exact ih (steps + 1) m'

/-! ## No violations: cells -/

theorem get_checked (p : Program) (m : Machine) (cell : Cell) : m.checked.get p cell = .ok (p.get m cell) := by
  unfold get Program.get
  cases hc : p.address cell with
  | error e => rfl
  | ok addr =>
    dsimp only
    rw [Machine.checked_ram, fetch_ram m.ram (Program.address_lt hc)]
    rfl

theorem set_checked (p : Program) (m : Machine) (cell : Cell) (v : UInt16) :
    m.checked.set p cell v = .ok ((p.set m cell v).map Machine.checked) := by
  unfold set Program.set
  cases hc : p.address cell with
  | error e => rfl
  | ok addr =>
    dsimp only
    rw [Machine.checked_ram, store_ram m.ram (Program.address_lt hc)]
    rfl

theorem write_checked (p : Program) (m : Machine) (entries : List (Cell × Int16)) :
    m.checked.write p entries = .ok ((Setup.write p m entries).1.checked, (Setup.write p m entries).2) := by
  induction entries generalizing m with
  | nil => rfl
  | cons entry entries ih =>
    obtain ⟨cell, v⟩ := entry
    rw [write, Setup.write, set_checked, ok_bind]
    cases p.set m cell v.toUInt16 with
    | error e => rfl
    | ok m' => exact ih m'

/-! ## No violations: operations -/

/-- Where a step goes on, it has executed an instruction of the program. -/
theorem fetch_code (h : p.words.size = p.code.size) {m m' : Machine} (hs : p.step m = .next m') :
    ∃ i, p.code[m.pc.toNat]? = some i ∧ fetch p.code m.pc = .ok i := by
  obtain ⟨w, hw, -⟩ := Program.step_eq_next.1 hs
  have hlt : m.pc.toNat < p.code.size := by
    rw [← h]
    exact (Array.getElem?_eq_some_iff.1 hw).1
  have hi : p.code[m.pc.toNat]? = some p.code[m.pc.toNat] := Array.getElem?_eq_getElem hlt
  exact ⟨_, hi, fetch_eq hi⟩

/-- One operation. -/
theorem perform_checked (hsize : p.words.size = p.code.size) (hrom : p.words.size ≤ romSize) (m : Machine)
    (op : Operation) : m.checked.perform p op = .ok ((op.perform p m).1.checked, (op.perform p m).2) := by
  cases op with
  | step =>
    rw [perform, Operation.perform, step_checked hrom, ok_bind]
    cases hs : p.step m with
    | halted => rfl
    | fault f => rfl
    | next m' =>
      obtain ⟨i, hi, hfetch⟩ := fetch_code hsize hs
      simp only [Step.ofStep, Machine.checked_pc, hfetch, hi]
      rfl
  | run limit =>
    rw [perform, runFrom_checked hrom]
    rfl
  | get cell =>
    rw [perform, get_checked]
    rfl
  | set cell v =>
    rw [perform, Operation.perform, set_checked, ok_bind]
    cases p.set m cell v <;> rfl
  | address cell => rfl
  | apply entries =>
    rw [perform, write_checked]
    rfl
  | setA v => rfl
  | setD v => rfl
  | setPc v => rfl

/-- A word without an instruction, as no program that loads has one. -/
example : start.perform { words := #[.load 0] } .step = .error (.index 0 0) := rfl

/-- Any number of operations. -/
theorem performAll_checked (hsize : p.words.size = p.code.size) (hrom : p.words.size ≤ romSize) (m : Machine)
    (ops : List Operation) : m.checked.performAll p ops =
      .ok ((Operation.performAll p m ops).1.checked, (Operation.performAll p m ops).2) := by
  induction ops generalizing m with
  | nil => rfl
  | cons op ops ih =>
    rw [performAll, perform_checked hsize hrom, ok_bind]
    dsimp only
    rw [ih]
    rfl

end

theorem start_eq : start = Machine.start.checked := by
  rw [start, Machine.checked, Machine.start, Ram.zero, Vector.toArray_replicate]

/-- Whatever is done with a program that loads, every access is in range and the counter never overflows: the
checked machine comes to the machine's state with the machine's answers, and its memory keeps its size. -/
theorem performAll_start {text : String} {p : Program} (hp : Program.parse text = .ok p) (ops : List Operation) :
    p.words.size = p.code.size ∧ p.code.size ≤ romSize ∧
    ∃ c answers, start.performAll p ops = .ok (c, answers) ∧ c.ram.size = ramSize ∧
      c = (Operation.performAll p .start ops).1.checked ∧ answers = (Operation.performAll p .start ops).2 := by
  obtain ⟨ls, hloaded⟩ := Program.loaded_of_parse hp
  have hsize : p.words.size = p.code.size := by rw [hloaded.holds.size_words, hloaded.holds.size_code]
  have hrom : p.code.size ≤ romSize := by
    rw [hloaded.holds.size_code]
    exact hloaded.holds.size_le
  refine ⟨hsize, hrom, _, _, ?_, ?_, rfl, rfl⟩
  · rw [start_eq, performAll_checked hsize (by rw [hsize]; exact hrom)]
  · rw [Machine.checked_ram, Vector.size_toArray]

/-- Two jumps and two accesses, with registers set to the greatest word in between. -/
theorem performAll_start_greatest : ∃ p, Program.parse "@5\nM=1\nA;JMP" = .ok p ∧
    ∃ c answers, start.performAll p [.run 9, .setA 0xFFFF, .step, .setPc 1, .step, .setPc 2, .step, .step] =
      .ok (c, answers) ∧ c.ram.size = ramSize := by
  obtain ⟨p, hp⟩ : ∃ p, Program.parse "@5\nM=1\nA;JMP" = .ok p := ⟨_, rfl⟩
  obtain ⟨-, -, c, answers, hc, hsize, -⟩ := performAll_start hp
    [.run 9, .setA 0xFFFF, .step, .setPc 1, .step, .setPc 2, .step, .step]
  exact ⟨p, hp, c, answers, hc, hsize⟩

end Checked

end Hack
