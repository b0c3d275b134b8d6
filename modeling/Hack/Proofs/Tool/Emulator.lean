/-
Runs, and the loop of the emulator. Runs can be cut anywhere: two of them in a row are one with both limits
together, and where one has failed nothing more happens. A step fails exactly in front of an access to a cell that
does not exist, and then it leaves registers and memory alone. The emulator counts its steps itself and prints a
row after each of them if it is to; it makes the steps of a run with the same limit and ends as that run does.
-/
import Hack.Proofs.Machine.Effects
import Hack.Tool.Emulator

namespace Hack.Tool.Emulator

/-! ## The loop -/

/-- The rows of the first `n` steps of a machine, which starts at `time`. -/
def stepRows (p : Program) (time : Nat) (m : Machine) (n : Nat) : List String :=
  (List.range n).map fun k =>
    let before := (p.run k m).machine
    traceRow (time + k) before.pc p.code[before.pc.toNat]? (p.run (k + 1) m).machine

section

variable {p : Program} {m m' : Machine}

theorem machine_run_succ (h : p.step m = .next m') (k : Nat) :
    (p.run (k + 1) m).machine = (p.run k m').machine := by
  rw [Program.run_succ, h]

theorem stepRows_succ (h : p.step m = .next m') (time n : Nat) :
    stepRows p time m (n + 1) = traceRow time m.pc p.code[m.pc.toNat]? m' :: stepRows p (time + 1) m' n := by
  unfold stepRows
  rw [List.range_succ_eq_map, List.map_cons, List.map_map]
  refine List.cons_eq_cons.2 ⟨?_, List.map_congr_left fun k _ => ?_⟩
  · rw [machine_run_succ h]
    rfl
  · dsimp only [Function.comp_apply]
    rw [machine_run_succ h, machine_run_succ h, Nat.succ_eq_add_one, Nat.add_assoc, Nat.add_comm 1]

/-- The loop in terms of steps. -/
theorem trace_succ (p : Program) (enabled : Bool) (steps : Nat) (rows : List String) (limit : Nat) (m : Machine) :
    trace p enabled steps rows (limit + 1) m = match p.step m with
      | .halted => ⟨⟨m, steps, none⟩, rows⟩
      | .fault f => ⟨⟨m, steps, some f⟩, rows⟩
      | .next m' => trace p enabled (steps + 1)
          (if enabled then traceRow steps m.pc p.code[m.pc.toNat]? m' :: rows else rows) limit m' := by
  rw [trace, Program.step]
  cases p.words[m.pc.toNat]? with
  | none => rfl
  | some w => cases hf : m.fault? w <;> simp only [hf]

/-- The loop makes the steps of a run, with a row for each. -/
theorem trace_eq (p : Program) (enabled : Bool) (limit : Nat) : ∀ (steps : Nat) (rows : List String) (m : Machine),
    trace p enabled steps rows limit m =
      ⟨p.runFrom steps limit m,
        (if enabled then (stepRows p steps m (p.run limit m).steps).reverse else []) ++ rows⟩ := by
  induction limit with
  | zero =>
    intro steps rows m
    cases enabled <;> rfl
  | succ limit ih =>
    intro steps rows m
    rw [trace_succ, Program.runFrom_succ, Program.run_succ]
    cases hs : p.step m with
    | halted => cases enabled <;> rfl
    | fault f => cases enabled <;> rfl
    | next m' =>
      dsimp only
      rw [ih, stepRows_succ hs]
      cases enabled with
      | true => simp
      | false => rfl

end

/-! ## Runs -/

/-- Runs of a machine from any registers and memory, with any limits. -/
theorem run_faithful (p : Program) (m : Machine) :
    -- one run behind another
    (∀ i j, p.run (i + j) m = (p.run i m).andThen (p.run j)) ∧
    -- a step that fails, and what has been done by then
    (∀ f, p.step m = .fault f ↔ p.Misses m ∧ f = ⟨m.a, m.pc⟩) ∧
    Effect.step p m = Effect.ofStep m (p.step m) ∧
    (∀ limit, Effect.run p limit m = Effect.ofRun (p.run limit m)) ∧
    -- a run that fails, and another one behind it
    (∀ i f, (p.run i m).fault = some f →
      (∀ j, p.run (i + j) m = p.run i m) ∧ (p.run i m).steps < i ∧
      p.run (p.run i m).steps m = ⟨(p.run i m).machine, (p.run i m).steps, none⟩ ∧
      ∀ j, 0 < j → p.run j (p.run i m).machine = ⟨(p.run i m).machine, 0, some f⟩) ∧
    -- the loop of the emulator
    ∀ enabled limit, trace p enabled 0 [] limit m =
      ⟨p.run limit m, if enabled then (stepRows p 0 m (p.run limit m).steps).reverse else []⟩ := by
  refine ⟨fun i j => p.run_add i j m, fun f => Program.step_eq_fault, Effect.step_eq p m,
    fun limit => Effect.run_eq p limit m, fun i f hf => ?_, fun enabled limit => ?_⟩
  · obtain ⟨hlt, hrun, hstep⟩ := Program.run_steps_of_fault hf
    refine ⟨fun j => ?_, hlt, hrun, fun j hj => ?_⟩
    · rw [Program.run_add, Program.Run.andThen, hf]
    · obtain ⟨j, rfl⟩ := Nat.exists_eq_succ_of_ne_zero (Nat.ne_of_gt hj)
      rw [Program.run_succ, hstep]
  · rw [trace_eq, List.append_nil]
    rfl

end Hack.Tool.Emulator
