/-
The machine one effect at a time. A computing word reads its cell, writes its output to memory and to the
registers and moves the counter, each as an effect of its own, and an access to a cell that does not exist fails
where it is made: what has been done before it stays done. Nevertheless a step that fails leaves everything as it
was, since the first access comes before the first change; and steps and runs answer as the machine does.
-/
import Hack.Proofs.Machine.Run

namespace Hack

/-- A computation with a machine. One that fails leaves the machine it has come to. -/
abbrev Effect : Type → Type := EStateM Fault Machine

namespace Effect

/-! ## Accesses -/

/-- There must be a cell. -/
def check (addr pc : UInt16) : Effect Unit :=
  if addr.toNat < ramSize then pure () else throw ⟨addr, pc⟩

def read (addr pc : UInt16) : Effect UInt16 := do
  check addr pc
  return (← get).ram.read addr

def write (addr pc v : UInt16) : Effect Unit := do
  check addr pc
  modify fun m => { m with ram := m.ram.write addr v }

/-- What a computation reads from memory, if it reads any. -/
def input (comp : Comp) (addr pc : UInt16) : Effect UInt16 :=
  if comp.readsMemory then read addr pc else pure 0

/-- Writes an output to memory, if that is among its places. -/
def output (dest : Dest) (addr pc v : UInt16) : Effect Unit :=
  if dest.m then write addr pc v else pure ()

/-! ## Steps and runs -/

/-- A computing word. Only memory is written under the address that the register held before. -/
def compute (dest : Dest) (comp : Comp) (jump : Jump) : Effect Unit := do
  let a := (← get).a
  let pc := (← get).pc
  let cell ← input comp a pc
  let out := comp.eval a (← get).d cell
  output dest a pc out
  modify fun m => { m with a := if dest.a then out else m.a }
  modify fun m => { m with d := if dest.d then out else m.d }
  modify fun m => { m with pc := if jump.taken out then a else pc + 1 }

/-- Answers with the address of the word, or with nothing behind the last word. -/
def step (p : Program) : Effect (Option UInt16) := do
  let pc := (← get).pc
  match p.words[pc.toNat]? with
  | none => return none
  | some (.load v) =>
    modify fun m => { m with a := v }
    modify fun m => { m with pc := m.pc + 1 }
    return some pc
  | some (.compute dest comp jump) =>
    compute dest comp jump
    return some pc

/-- Counts on from `steps`. -/
def runFrom (p : Program) (steps : Nat) : Nat → Effect Nat
  | 0 => return steps
  | limit + 1 => do
    match ← step p with
    | none => return steps
    | some _ => runFrom p (steps + 1) limit

/-- Steps until the machine halts, a step fails or `limit` steps are done. -/
def run (p : Program) (limit : Nat) : Effect Nat :=
  runFrom p 0 limit

/-! ## One effect after another -/

section

variable {α β : Type} {x : Effect α} {f : α → Effect β} {m m' : Machine}

theorem bind_ok {v : α} (h : x m = .ok v m') : (x >>= f) m = f v m' := by
  change EStateM.bind x f m = _
  rw [EStateM.bind, h]

theorem bind_error {e : Fault} (h : x m = .error e m') : (x >>= f) m = .error e m' := by
  change EStateM.bind x f m = _
  rw [EStateM.bind, h]

theorem bind_get {f : Machine → Effect β} : (get >>= f) m = f m m := rfl

theorem bind_modify {g : Machine → Machine} {f : Unit → Effect β} : (modify g >>= f) m = f () (g m) := rfl

variable {addr : UInt16}

theorem check_of_lt (h : addr.toNat < ramSize) (pc : UInt16) : check addr pc m = .ok () m := by
  rw [check, if_pos h]
  rfl

theorem check_of_not_lt (h : ¬ addr.toNat < ramSize) (pc : UInt16) : check addr pc m = .error ⟨addr, pc⟩ m := by
  rw [check, if_neg h]
  rfl

theorem read_of_lt (h : addr.toNat < ramSize) (pc : UInt16) : read addr pc m = .ok (m.ram.read addr) m := by
  rw [read, bind_ok (check_of_lt h pc)]
  rfl

theorem read_of_not_lt (h : ¬ addr.toNat < ramSize) (pc : UInt16) : read addr pc m = .error ⟨addr, pc⟩ m := by
  rw [read, bind_error (check_of_not_lt h pc)]

theorem write_of_lt (h : addr.toNat < ramSize) (pc v : UInt16) :
    write addr pc v m = .ok () { m with ram := m.ram.write addr v } := by
  rw [write, bind_ok (check_of_lt h pc)]
  rfl

theorem write_of_not_lt (h : ¬ addr.toNat < ramSize) (pc v : UInt16) :
    write addr pc v m = .error ⟨addr, pc⟩ m := by
  rw [write, bind_error (check_of_not_lt h pc)]

theorem input_of_lt {comp : Comp} (h : comp.readsMemory = true → m.a.toNat < ramSize) :
    ∃ v, input comp m.a m.pc m = .ok v m ∧ comp.eval m.a m.d v = comp.eval m.a m.d (m.ram.read m.a) := by
  unfold input
  cases hr : comp.readsMemory with
  | true => exact ⟨_, read_of_lt (h hr) m.pc, rfl⟩
  | false => exact ⟨0, rfl, Comp.eval_of_not_readsMemory hr _ _ _ _⟩

theorem output_of_lt {dest : Dest} (h : dest.m = true → m.a.toNat < ramSize) (out : UInt16) :
    output dest m.a m.pc out m = .ok () { m with ram := if dest.m then m.ram.write m.a out else m.ram } := by
  unfold output
  cases hm : dest.m with
  | true => exact write_of_lt (h hm) m.pc out
  | false => rfl

end

/-! ## Agreement with the machine -/

/-- A word that touches no cell, or one that exists. -/
theorem compute_of_lt {m : Machine} {dest : Dest} {comp : Comp}
    (h : (comp.readsMemory || dest.m) = true → m.a.toNat < ramSize) (jump : Jump) :
    compute dest comp jump m = .ok () (m.exec (.compute dest comp jump)) := by
  obtain ⟨v, hv, hout⟩ := input_of_lt fun hr => h (by rw [hr, Bool.true_or])
  have hwrite := output_of_lt fun hm => h (by rw [hm, Bool.or_true])
  unfold compute
  rw [bind_get, bind_get, bind_ok hv, bind_get, hout, bind_ok (hwrite _), bind_modify, bind_modify]
  rfl

/-- One that touches a cell that does not exist has changed nothing when it fails. -/
theorem compute_of_not_lt {m : Machine} {dest : Dest} {comp : Comp} (h : (comp.readsMemory || dest.m) = true)
    (ha : ¬ m.a.toNat < ramSize) (jump : Jump) : compute dest comp jump m = .error ⟨m.a, m.pc⟩ m := by
  unfold compute
  rw [bind_get, bind_get]
  cases hr : comp.readsMemory with
  | true =>
    have hread : input comp m.a m.pc m = .error ⟨m.a, m.pc⟩ m := by
      rw [input, if_pos hr, read_of_not_lt ha]
    rw [bind_error hread]
  | false =>
    have hread : input comp m.a m.pc m = .ok 0 m := by
      rw [input, hr]
      rfl
    have hm : dest.m = true := by simpa [hr] using h
    have hwrite (out : UInt16) : output dest m.a m.pc out m = .error ⟨m.a, m.pc⟩ m := by
      rw [output, if_pos hm, write_of_not_lt ha]
    rw [bind_ok hread, bind_get, bind_error (hwrite _)]

/-- The answer to a step of the machine. A fault leaves everything as it was. -/
def ofStep (m : Machine) : Program.Step → EStateM.Result Fault Machine (Option UInt16)
  | .halted => .ok none m
  | .fault f => .error f m
  | .next m' => .ok (some m.pc) m'

/-- The answer to a run of the machine. -/
def ofRun (r : Program.Run) : EStateM.Result Fault Machine Nat :=
  match r.fault with
  | none => .ok r.steps r.machine
  | some f => .error f r.machine

theorem step_eq (p : Program) (m : Machine) : step p m = ofStep m (p.step m) := by
  unfold step Program.step
  rw [bind_get]
  cases p.words[m.pc.toNat]? with
  | none => rfl
  | some w =>
    cases w with
    | load v => rfl
    | compute dest comp jump =>
      dsimp only
      cases hf : m.fault? (.compute dest comp jump) with
      | some f =>
        obtain ⟨ht, ha, rfl⟩ := Program.fault?_eq_some.1 hf
        rw [bind_error (compute_of_not_lt ht (Nat.not_lt_of_le ha) jump)]
        rfl
      | none =>
        have hcell : (comp.readsMemory || dest.m) = true → m.a.toNat < ramSize := by
          intro ht
          refine Nat.lt_of_not_le fun ha => ?_
          have hfault := (Program.fault?_eq_some (w := .compute dest comp jump)).2 ⟨ht, ha, rfl⟩
          rw [hf] at hfault
          cases hfault
        rw [bind_ok (compute_of_lt hcell jump)]
        rfl

theorem runFrom_eq (p : Program) (limit : Nat) : ∀ (steps : Nat) (m : Machine),
    runFrom p steps limit m = ofRun (p.runFrom steps limit m) := by
  induction limit with
  | zero => exact fun _ _ => rfl
  | succ limit ih =>
    intro steps m
    have hs := step_eq p m
    rw [runFrom, Program.runFrom_succ]
    cases h : p.step m with
    | halted =>
      rw [h] at hs
      rw [bind_ok hs]
      rfl
    | fault f =>
      rw [h] at hs
      rw [bind_error hs]
      rfl
    | next m' =>
      rw [h] at hs
      rw [bind_ok hs]
      exact ih (steps + 1) m'

theorem run_eq (p : Program) (limit : Nat) (m : Machine) : run p limit m = ofRun (p.run limit m) :=
  runFrom_eq p limit 0 m

end Effect

end Hack
