/-
Runs in terms of steps: a run with one more step allowed is a step followed by a run, unless the
machine has halted or the step fails. What every step keeps, every run keeps; and if every step moves
the counter forward, a run takes no more steps than the counter moves. One run behind another is one
run with both limits together, and a run that has failed fails again in the same way. A run changes
no cell that none of its steps writes to.
-/
import Hack.Machine.Basic

namespace Hack.Program

theorem runFrom_succ (p : Program) (steps limit : Nat) (m : Machine) :
    p.runFrom steps (limit + 1) m = match p.step m with
      | .halted => ⟨m, steps, none⟩
      | .fault f => ⟨m, steps, some f⟩
      | .next m' => p.runFrom (steps + 1) limit m' := by
  rw [runFrom, step]
  cases p.words[m.pc.toNat]? with
  | none => rfl
  | some w => cases hf : m.fault? w <;> simp only [hf]

theorem step_eq_halted {p : Program} {m : Machine} : p.step m = .halted ↔ p.words[m.pc.toNat]? = none := by
  unfold step
  cases p.words[m.pc.toNat]? with
  | none => simp
  | some w => cases hf : m.fault? w <;> simp [hf]

/-- A step that goes on executes a word that has no fault. -/
theorem step_eq_next {p : Program} {m m' : Machine} :
    p.step m = .next m' ↔ ∃ w, p.words[m.pc.toNat]? = some w ∧ m.fault? w = none ∧ m.exec w = m' := by
  unfold step
  cases p.words[m.pc.toNat]? with
  | none => simp
  | some w => cases hf : m.fault? w <;> simp [hf]

/-- The machine is in front of a word that touches the cell under the address register, and there is no such cell. -/
structure Misses (p : Program) (m : Machine) : Prop where
  running : p.halted m = false
  word : ∃ dest comp jump, p.words[m.pc.toNat]? = some (.compute dest comp jump) ∧
    (comp.readsMemory = true ∨ dest.m = true)
  beyond : ramSize ≤ m.a.toNat

theorem fault?_eq_some {m : Machine} {w : Word} {f : Fault} :
    m.fault? w = some f ↔ w.touchesMemory = true ∧ ramSize ≤ m.a.toNat ∧ f = ⟨m.a, m.pc⟩ := by
  unfold Machine.fault?
  rw [Option.ite_none_right_eq_some, Bool.and_eq_true, Bool.not_eq_true', decide_eq_false_iff_not, Nat.not_lt,
    and_assoc, Option.some_inj, eq_comm (a := f)]

/-- When a step fails, and with which fault. -/
theorem step_eq_fault {p : Program} {m : Machine} {f : Fault} :
    p.step m = .fault f ↔ p.Misses m ∧ f = ⟨m.a, m.pc⟩ := by
  have hfault : p.step m = .fault f ↔ ∃ w, p.words[m.pc.toNat]? = some w ∧ m.fault? w = some f := by
    unfold step
    cases p.words[m.pc.toNat]? with
    | none => simp
    | some w => cases hf : m.fault? w <;> simp [hf]
  rw [hfault]
  constructor
  · rintro ⟨w, hw, hf⟩
    obtain ⟨ht, ha, rfl⟩ := fault?_eq_some.1 hf
    have hlt := (Array.getElem?_eq_some_iff.1 hw).1
    refine ⟨⟨by simpa [halted] using hlt, ?_, ha⟩, rfl⟩
    cases w with
    | load v => cases ht
    | compute dest comp jump => exact ⟨dest, comp, jump, hw, by simpa [Word.touchesMemory] using ht⟩
  · rintro ⟨⟨-, ⟨dest, comp, jump, hw, ht⟩, ha⟩, rfl⟩
    exact ⟨_, hw, fault?_eq_some.2 ⟨by simpa [Word.touchesMemory] using ht, ha, rfl⟩⟩

/-- The steps before a run are only added to those of the run. -/
theorem runFrom_eq (p : Program) (limit : Nat) : ∀ (steps : Nat) (m : Machine),
    p.runFrom steps limit m =
      ⟨(p.run limit m).machine, steps + (p.run limit m).steps, (p.run limit m).fault⟩ := by
  unfold run
  induction limit with
  | zero => exact fun _ _ => rfl
  | succ limit ih =>
    intro steps m
    rw [runFrom_succ, runFrom_succ]
    cases p.step m with
    | halted => rfl
    | fault f => rfl
    | next m' =>
      have h1 := ih 1 m'
      show p.runFrom (steps + 1) limit m' = ⟨(p.runFrom 1 limit m').machine,
        steps + (p.runFrom 1 limit m').steps, (p.runFrom 1 limit m').fault⟩
      rw [ih (steps + 1), h1]
      simp only [Nat.add_assoc]

theorem run_succ (p : Program) (limit : Nat) (m : Machine) :
    p.run (limit + 1) m = match p.step m with
      | .halted => ⟨m, 0, none⟩
      | .fault f => ⟨m, 0, some f⟩
      | .next m' => ⟨(p.run limit m').machine, (p.run limit m').steps + 1, (p.run limit m').fault⟩ := by
  rw [run, runFrom_succ]
  cases p.step m with
  | halted => rfl
  | fault f => rfl
  | next m' =>
    show p.runFrom (0 + 1) limit m' = _
    rw [runFrom_eq, Nat.zero_add, Nat.add_comm]

/-- A run that goes on with another one, unless it has failed. -/
def Run.andThen (r : Run) (next : Machine → Run) : Run :=
  match r.fault with
  | some _ => r
  | none => ⟨(next r.machine).machine, r.steps + (next r.machine).steps, (next r.machine).fault⟩

theorem run_zero (p : Program) (m : Machine) : p.run 0 m = ⟨m, 0, none⟩ := rfl

theorem run_of_halted {p : Program} {m : Machine} (h : p.step m = .halted) (limit : Nat) :
    p.run limit m = ⟨m, 0, none⟩ := by
  cases limit with
  | zero => rfl
  | succ limit => rw [run_succ, h]

/-- A run is a shorter run and what comes behind it. -/
theorem run_add (p : Program) (i j : Nat) (m : Machine) : p.run (i + j) m = (p.run i m).andThen (p.run j) := by
  induction i generalizing m with
  | zero =>
    rw [Nat.zero_add, run_zero, Run.andThen]
    simp only [Nat.zero_add]
  | succ i ih =>
    rw [Nat.succ_add, run_succ, run_succ]
    cases hs : p.step m with
    | halted => simp only [Run.andThen, run_of_halted hs]
    | fault f => rfl
    | next m' =>
      dsimp only
      rw [ih m']
      obtain ⟨_, steps, fault⟩ := p.run i m'
      cases fault with
      | some f => rfl
      | none => simp only [Run.andThen, Nat.add_right_comm]

/-- A run that fails has made fewer steps than it might, and it stands where these steps have led. -/
theorem run_steps_of_fault {p : Program} {limit : Nat} {m : Machine} {f : Fault} (h : (p.run limit m).fault = some f) :
    (p.run limit m).steps < limit ∧
      p.run (p.run limit m).steps m = ⟨(p.run limit m).machine, (p.run limit m).steps, none⟩ ∧
      p.step (p.run limit m).machine = .fault f := by
  induction limit generalizing m with
  | zero => cases h
  | succ limit ih =>
    rw [run_succ] at h ⊢
    cases hs : p.step m with
    | halted =>
      rw [hs] at h
      cases h
    | fault e =>
      rw [hs] at h
      cases h
      exact ⟨Nat.succ_pos limit, rfl, hs⟩
    | next m' =>
      rw [hs] at h
      obtain ⟨hlt, hrun, hstep⟩ := ih h
      refine ⟨Nat.succ_lt_succ hlt, ?_, hstep⟩
      rw [run_succ, hs]
      dsimp only
      rw [hrun]

/-- A run that comes to a machine whose step fails, fails there. -/
theorem run_of_fault {p : Program} {n limit : Nat} {m m' : Machine} {f : Fault} (h : p.run n m = ⟨m', n, none⟩)
    (hs : p.step m' = .fault f) (hlt : n < limit) : p.run limit m = ⟨m', n, some f⟩ := by
  obtain ⟨j, rfl⟩ := Nat.exists_eq_add_of_lt hlt
  rw [Nat.add_assoc, run_add, h]
  simp only [Run.andThen, run_succ, hs, Nat.add_zero]

/-- A property that every step keeps holds where a run ends. -/
theorem runFrom_invariant {p : Program} {P : Machine → Prop}
    (hstep : ∀ m m', P m → p.step m = .next m' → P m') (limit : Nat) :
    ∀ (steps : Nat) (m : Machine), P m → P (p.runFrom steps limit m).machine := by
  induction limit with
  | zero => exact fun _ _ h => h
  | succ limit ih =>
    intro steps m h
    rw [runFrom_succ]
    cases hs : p.step m with
    | halted => exact h
    | fault f => exact h
    | next m' => exact ih (steps + 1) m' (hstep m m' h hs)

/-- Where every step moves the counter forward, a run takes no more steps than the counter moves. -/
theorem pc_add_steps_le {p : Program} {P : Machine → Prop}
    (hstep : ∀ m m', P m → p.step m = .next m' → P m' ∧ m.pc < m'.pc) (limit : Nat) :
    ∀ m, P m → m.pc.toNat + (p.run limit m).steps ≤ (p.run limit m).machine.pc.toNat := by
  induction limit with
  | zero =>
    intro m _
    exact Nat.le_refl _
  | succ limit ih =>
    intro m h
    rw [run_succ]
    cases hs : p.step m with
    | halted => exact Nat.le_refl _
    | fault f => exact Nat.le_refl _
    | next m' =>
      obtain ⟨h', hlt⟩ := hstep m m' h hs
      have hrest := ih m' h'
      rw [UInt16.lt_iff_toNat_lt] at hlt
      show m.pc.toNat + ((p.run limit m').steps + 1) ≤ (p.run limit m').machine.pc.toNat
      omega

/-! ## Written cells -/

/-- The cell that the word at the counter writes to. -/
def written? (p : Program) (m : Machine) : Option UInt16 :=
  match p.words[m.pc.toNat]? with
  | some (.compute dest _ _) => if dest.m then some m.a else none
  | _ => none

theorem step_frame {p : Program} {m m' : Machine} (h : p.step m = .next m') {addr : UInt16}
    (hne : p.written? m ≠ some addr) : m'.ram.read addr = m.ram.read addr := by
  obtain ⟨w, hw, -, rfl⟩ := step_eq_next.1 h
  unfold written? at hne
  rw [hw] at hne
  cases w with
  | load v => rfl
  | compute dest comp jump =>
    cases hm : dest.m with
    | false => simp only [Machine.exec, hm, Bool.false_eq_true, if_false]
    | true =>
      simp only [hm, if_true, ne_eq, Option.some_inj] at hne
      simp only [Machine.exec, hm, if_true]
      exact Ram.read_write_of_ne hne _

theorem run_frame {p : Program} {n : Nat} {m : Machine} {addr : UInt16}
    (h : ∀ k < n, p.written? (p.run k m).machine ≠ some addr) :
    (p.run n m).machine.ram.read addr = m.ram.read addr := by
  induction n generalizing m with
  | zero => rfl
  | succ n ih =>
    rw [run_succ]
    cases hs : p.step m with
    | halted => rfl
    | fault f => rfl
    | next m' =>
      have hrest : ∀ k < n, p.written? (p.run k m').machine ≠ some addr := by
        intro k hk
        have hk := h (k + 1) (Nat.succ_lt_succ hk)
        rwa [run_succ, hs] at hk
      exact (ih hrest).trans (step_frame hs (h 0 (Nat.succ_pos n)))

end Hack.Program
