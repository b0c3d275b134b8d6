/-
Comparisons on the machine. From the start of a comparison's code, with any two operands, a run comes to the
end of that code and nowhere else, whichever way it branches. The result is what the operands say as signed
integers, also where their difference does not fit into a word; besides it only the stack pointer and the
scratch cell have changed.
-/
import Hack.Proofs.Codegen.Single

namespace Hack

open Vm

/-! ## Answers -/

/-- What a comparison asks of two integers. -/
def Vm.Op.asks : Op → Int → Int → Bool
  | .eq, x, y => decide (x = y)
  | .gt, x, y => decide (y < x)
  | .lt, x, y => decide (x < y)
  | _, _, _ => false

theorem toInt16_toInt_inj {x y : UInt16} : x.toInt16.toInt = y.toInt16.toInt ↔ x = y := by
  have hx := x.toNat_lt
  have hy := y.toNat_lt
  rw [toInt_toInt16, toInt_toInt16, ← UInt16.toNat_inj]
  split <;> split <;> omega

/-- The reference result is the answer on the signed values. -/
theorem Vm.Op.eval_compares {op : Op} (h : op.compares = true) (x y : UInt16) :
    op.eval x y = truthWord (op.asks x.toInt16.toInt y.toInt16.toInt) := by
  cases op with
  | neg | not | add | sub | and | or => cases h
  | eq => rw [eval, asks, decide_eq_decide.2 toInt16_toInt_inj]
  | gt => rw [eval, asks, decide_eq_decide.2 Int16.lt_iff_toInt_lt]
  | lt => rw [eval, asks, decide_eq_decide.2 Int16.lt_iff_toInt_lt]

theorem Vm.Op.not_unary_of_compares {op : Op} (h : op.compares = true) : op.unary = false := by
  cases op <;> first | rfl | cases h

namespace Codegen

/-! ## Memory behind a comparison -/

/-- A cell that comparisons use for nothing but its value. -/
structure OwnCell (addr : UInt16) : Prop where
  lt : addr.toNat < ramSize
  ne_zero : addr ≠ 0
  ne_scratch : addr ≠ 13

/-- What a comparison does to memory, `s` being the stack pointer before it and `y` the right operand. -/
structure Answered (ram ram' : Ram) (s y answer : UInt16) : Prop where
  answer : ram'.read (s - 2) = answer
  pointer : ram'.read 0 = s - 1
  scratch : ram'.read 13 = y
  right : ram'.read (s - 1) = y
  frame : ∀ addr, addr ≠ 0 → addr ≠ 13 → addr ≠ s - 2 → ram'.read addr = ram.read addr

theorem sub_two_ne_sub_one (s : UInt16) : s - 2 ≠ s - 1 := by
  intro h
  have hs : (s - 2).toNat = (s - 1).toNat := congrArg UInt16.toNat h
  have h1 : (1 : UInt16).toNat = 1 := rfl
  have h2 : (2 : UInt16).toNat = 2 := rfl
  have hlt := s.toNat_lt
  rw [UInt16.toNat_sub, UInt16.toNat_sub, h1, h2] at hs
  omega

/-- The pass over a comparison's code. -/
theorem exec_comparison {unit : String} {labels : List String} {static : UInt16 → UInt16} {place : String → Place}
    (hp : Places unit labels static place) {op : Op} (hop : op.compares = true) {n : Nat}
    (hl : ∀ name ∈ (CompareLabels.make unit n).toList, name ∈ labels) {ram : Ram} {s x y : UInt16}
    (hs : ram.read 0 = s) (hx : ram.read (s - 2) = x) (hy : ram.read (s - 1) = y) (left : OwnCell (s - 2))
    (right : OwnCell (s - 1)) (q : Place) (d : UInt16) :
    ∃ s', exec place (.running ⟨q, d, ram⟩) (lower unit n (.arith op)).steps = .running s' ∧
      Answered ram s'.ram s y (truthWord (op.asks x.toInt16.toInt y.toInt16.toInt)) := by
  -- the operands are found where they were, as neither is in a cell that the comparison uses
  have hkept : ∀ addr, addr ≠ 0 → addr ≠ 13 → (parked op y (dropValue ram)).read addr = ram.read addr := by
    intro addr h0 h13
    rw [parked, if_pos hop, Ram.read_write_of_ne (Ne.symm h13), dropValue, Ram.read_write_of_ne (Ne.symm h0)]
  have hscratch : (parked op y (dropValue ram)).read 13 = y := by
    rw [parked, if_pos hop, Ram.read_write_self scratch_lt_ramSize]
  refine ⟨_, exec_arith_binary hp (Op.not_unary_of_compares hop) (fun _ => hl) (by rw [hs]; exact right.lt)
    (by rw [hs]; exact left.lt) (by rw [hs]; exact left.ne_zero), ?_⟩
  rw [hs, hy, hkept _ left.ne_zero left.ne_scratch, hx, Op.eval_compares hop]
  refine ⟨?_, ?_, ?_, ?_, fun addr h0 h13 hslot => ?_⟩
  · rw [Ram.read_write_of_ne (Ne.symm left.ne_zero), Ram.read_write_self left.lt]
  · rw [Ram.read_write_self zero_lt_ramSize]
  · rw [Ram.read_write_of_ne (by decide), Ram.read_write_of_ne left.ne_scratch, Ram.read_write_of_ne (by decide),
      hscratch]
  · rw [Ram.read_write_of_ne (Ne.symm right.ne_zero), Ram.read_write_of_ne (sub_two_ne_sub_one s),
      Ram.read_write_of_ne (Ne.symm right.ne_zero), hkept _ right.ne_zero right.ne_scratch, hy]
  · rw [Ram.read_write_of_ne (Ne.symm h0), Ram.read_write_of_ne (Ne.symm hslot), Ram.read_write_of_ne (Ne.symm h0),
      hkept addr h0 h13]

/-! ## Runs -/

/-- A machine at the start of a comparison's code, where it agrees with the cursor, runs to the end of that code
without leaving it before, and the answer is exact for all operands that are in cells of their own. -/
theorem run_comparison {unit : String} (hu : Symbol.isSymbol unit.toList = true) {op : Op}
    (hop : op.compares = true) {earlier later : List Command} {p : Program}
    (hp : Program.parse (Context.compileAll { unit } (earlier ++ .arith op :: later)).text = .ok p) {m : Machine}
    (hpc : m.pc.toNat = Lines.size (Context.compileAll { unit } earlier).emitter.output.toList)
    (hcursor : CursorHolds p (Context.compileAll { unit } earlier).emitter.cursor m) {s x y : UInt16}
    (hs : m.ram.read 0 = s) (hx : m.ram.read (s - 2) = x) (hy : m.ram.read (s - 1) = y) (left : OwnCell (s - 2))
    (right : OwnCell (s - 1)) :
    let start := Lines.size (Context.compileAll { unit } earlier).emitter.output.toList
    let stop := Lines.size (Context.compileAll { unit } (earlier ++ [.arith op])).emitter.output.toList
    ∃ steps m', p.run steps m = ⟨m', steps, none⟩ ∧ m'.pc.toNat = stop ∧
      (∀ k < steps, start ≤ (p.run k m).machine.pc.toNat ∧ (p.run k m).machine.pc.toNat < stop) ∧
      Answered m.ram m'.ram s y (if op.asks x.toInt16.toInt y.toInt16.toInt then 0xFFFF else 0) := by
  intro start stop
  obtain ⟨hplaces, hreaches⟩ := reaches_command hu hp hpc hcursor
  have hcompares : (Command.arith op).compares = true := hop
  obtain ⟨s', hexec, hanswered⟩ := exec_comparison hplaces hop
    (fun name hn => mem_stepLabels_split unit earlier later hcompares hn) hs hx hy left right (.word m.a) m.d
  rw [hexec] at hreaches
  obtain ⟨m', hwalks, hm, hend⟩ := hreaches
  obtain ⟨steps, hrun, hbounds⟩ := hwalks.exists_run
  refine ⟨steps, m', hrun, hend, hbounds, ?_⟩
  rw [hm.ram]
  exact hanswered

/-- The least number is below the greatest. The pop before the comparison fails behind its read of the stack. -/
theorem run_comparison_extremes : ∃ p,
    Program.parse (Context.compileAll { unit := "Main" } ([.pop .temp 8] ++ .arith .lt :: [.arith .eq])).text = .ok p ∧
    ∃ steps m', p.run steps
        ⟨0, 0, 5, ((Ram.zero.write 0 258).write 256 0x8000).write 257 0x7FFF⟩ = ⟨m', steps, none⟩ ∧
      m'.ram.read 256 = 0xFFFF := by
  have hu : Symbol.isSymbol "Main".toList = true := by decide
  obtain ⟨p, hp⟩ : ∃ p, Program.parse
      (Context.compileAll { unit := "Main" } ([.pop .temp 8] ++ .arith .lt :: [.arith .eq])).text = .ok p := by
    rw [Context.text_compileAll]
    exact exists_parse_linesFrom hu (by decide)
  have hpc : (5 : UInt16).toNat =
      Lines.size (Context.compileAll { unit := "Main" } [.pop .temp 8]).emitter.output.toList := by decide
  have hcursor : CursorHolds p (Context.compileAll { unit := "Main" } [.pop .temp 8]).emitter.cursor
      ⟨0, 0, 5, ((Ram.zero.write 0 258).write 256 0x8000).write 257 0x7FFF⟩ := rfl
  have hs : (((Ram.zero.write 0 258).write 256 0x8000).write 257 0x7FFF).read 0 = 258 := by
    rw [Ram.read_write_of_ne (by decide), Ram.read_write_of_ne (by decide), Ram.read_write_self (by decide)]
  have hx : (((Ram.zero.write 0 258).write 256 0x8000).write 257 0x7FFF).read (258 - 2) = 0x8000 :=
    (Ram.read_write_of_ne (by decide) _).trans (Ram.read_write_self (by decide) _)
  have hy : (((Ram.zero.write 0 258).write 256 0x8000).write 257 0x7FFF).read (258 - 1) = 0x7FFF :=
    Ram.read_write_self (by decide) _
  obtain ⟨steps, m', hrun, -, -, hanswered⟩ := run_comparison hu rfl hp hpc hcursor hs hx hy
    ⟨by decide, by decide, by decide⟩ ⟨by decide, by decide, by decide⟩
  exact ⟨p, hp, steps, m', hrun, hanswered.answer⟩

end Codegen

end Hack
