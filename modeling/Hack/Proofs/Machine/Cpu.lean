/-
The processor, which runs the codes of words. It knows nothing of instructions: a code with a leading
zero is a value for the address register, and all others have fields that switch the inputs of the ALU,
its output, the places that take the output and the jump. On codes of words that fit it does what the
machine does on the words themselves, step for step, as long as no step of the machine fails.
-/
import Hack.Proofs.Asm.Signed
import Hack.Proofs.Machine.Encoding
import Hack.Proofs.Machine.Run

namespace Hack

namespace Cpu

/-! ## The ALU -/

/-- What the control bits of the ALU switch. -/
structure Control where
  zeroX : Bool
  notX : Bool
  zeroY : Bool
  notY : Bool
  /-- Adds instead of taking the conjunction. -/
  adds : Bool
  notOut : Bool
  deriving DecidableEq

/-- The six control bits, the first of them highest. -/
def Control.ofBits (bits : Nat) : Control where
  zeroX := bits.testBit 5
  notX := bits.testBit 4
  zeroY := bits.testBit 3
  notY := bits.testBit 2
  adds := bits.testBit 1
  notOut := bits.testBit 0

/-- The output of the ALU: each switch in its turn, on the inputs first. -/
def Control.output (k : Control) (x y : UInt16) : UInt16 :=
  let x := if k.zeroX then 0 else x
  let x := if k.notX then ~~~x else x
  let y := if k.zeroY then 0 else y
  let y := if k.notY then ~~~y else y
  let out := if k.adds then x + y else x &&& y
  if k.notOut then ~~~out else out

/-! ## Execution -/

/-- The output of the ALU for a computation's code, on the registers and the cell under the address
register. -/
def output (m : Machine) (code : UInt16) : UInt16 :=
  let bits := Word.compField code
  (Control.ofBits bits).output m.d (if bits.testBit 6 then m.ram.read m.a else m.a)

/-- Whether an output's sign is one of those that a code jumps on. -/
def jumps (code out : UInt16) : Bool :=
  let bits := Word.jumpField code
  bits.testBit 2 && decide (out.toInt16 < 0) || bits.testBit 1 && decide (out = 0) ||
    bits.testBit 0 && decide (0 < out.toInt16)

/-- The effect of a code. -/
def exec (m : Machine) (code : UInt16) : Machine :=
  if code.toNat < 0x8000 then { m with a := code, pc := m.pc + 1 }
  else
    let out := output m code
    let dest := Word.destField code
    { a := if dest.testBit 2 then out else m.a
      d := if dest.testBit 1 then out else m.d
      pc := if jumps code out then m.a else m.pc + 1
      ram := if dest.testBit 0 then m.ram.write m.a out else m.ram }

/-- The state after some steps; nothing changes once the counter has left the codes. -/
def run (rom : Array UInt16) : Nat → Machine → Machine
  | 0, m => m
  | n + 1, m =>
    match rom[m.pc.toNat]? with
    | none => m
    | some code => run rom n (exec m code)

/-! ## The ALU computes what is asked of it -/

theorem not_eq (x : UInt16) : ~~~x = -1 - x := by
  have h := UInt16.neg_eq_not_add x
  grind

theorem not_and_not (x y : UInt16) : ~~~(~~~x &&& ~~~y) = x ||| y := by
  apply UInt16.toBitVec_inj.1
  ext i hi
  simp

/-- On one word at both places of the second input, the control bits of a computation make the ALU
compute its value. -/
theorem output_control (c : Comp) (d y : UInt16) :
    (Control.ofBits c.control.toNat).output d y = c.eval y d y := by
  have ones : (~~~0 : UInt16) = -1 := rfl
  -- the left side of each case is what the switches make of the inputs
  cases c with
  | zero => show (0 + 0 : UInt16) = 0; rfl
  | one => show (~~~(~~~0 + ~~~0) : UInt16) = 1; rfl
  | negOne => show (~~~0 + 0 : UInt16) = 0xFFFF; rfl
  | d => show d &&& ~~~0 = d; rw [ones, UInt16.and_neg_one]
  | notD => show ~~~(d &&& ~~~0) = ~~~d; rw [ones, UInt16.and_neg_one]
  | negD => show ~~~(d + ~~~0) = -d; rw [not_eq, ones]; grind
  | succD => show ~~~(~~~d + ~~~0) = d + 1; rw [not_eq, not_eq, ones]; grind
  | predD => show d + ~~~0 = d - 1; rw [ones]; grind
  | y i => cases i <;> (show ~~~0 &&& y = y; rw [ones, UInt16.neg_one_and])
  | notY i => cases i <;> (show ~~~(~~~0 &&& y) = ~~~y; rw [ones, UInt16.neg_one_and])
  | negY i => cases i <;> (show ~~~(~~~0 + y) = -y; rw [not_eq, ones]; grind)
  | succY i => cases i <;> (show ~~~(~~~0 + ~~~y) = y + 1; rw [not_eq, not_eq y, ones]; grind)
  | predY i => cases i <;> (show ~~~0 + y = y - 1; rw [ones]; grind)
  | add i => cases i <;> rfl
  | sub i => cases i <;> (show ~~~(~~~d + y) = d - y; rw [not_eq, not_eq]; grind)
  | subD i => cases i <;> (show ~~~(d + ~~~y) = y - d; rw [not_eq, not_eq]; grind)
  | and i => cases i <;> rfl
  | or i => cases i <;> exact not_and_not d y

/-- The bit in front of the control bits selects the second input. -/
theorem control_bits (c : Comp) :
    Control.ofBits c.bits.toNat = Control.ofBits c.control.toNat ∧
      c.bits.toNat.testBit 6 = c.readsMemory := by
  have table : ∀ c ∈ Comp.all, Control.ofBits c.bits.toNat = Control.ofBits c.control.toNat ∧
      c.bits.toNat.testBit 6 = c.readsMemory := by decide
  exact table c c.mem_all

/-- A computation uses one place of the second input at most. -/
theorem eval_selected (c : Comp) (a d m : UInt16) :
    c.eval (if c.readsMemory then m else a) d (if c.readsMemory then m else a) = c.eval a d m := by
  cases c with
  | y i | notY i | negY i | succY i | predY i | add i | sub i | subD i | and i | or i =>
    cases i <;> rfl
  | _ => rfl

theorem output_encode (m : Machine) (dest : Dest) (comp : Comp) (jump : Jump) :
    output m (Word.compute dest comp jump).encode = comp.eval m.a m.d (m.ram.read m.a) := by
  obtain ⟨hcontrol, hselect⟩ := control_bits comp
  rw [output, Word.compField_encode, hcontrol, hselect, output_control, eval_selected]

/-! ## Words and their codes -/

theorem jumps_encode (dest : Dest) (comp : Comp) (jump : Jump) (out : UInt16) :
    jumps (Word.compute dest comp jump).encode out = jump.taken out := by
  have hbits : jump.bits.toNat.testBit 2 = jump.lt ∧ jump.bits.toNat.testBit 1 = jump.eq ∧
      jump.bits.toNat.testBit 0 = jump.gt := by
    obtain ⟨l, e, g⟩ := jump
    cases l <;> cases e <;> cases g <;> decide
  have hpos : ¬ (out = 0 ∨ out.toInt16 < 0) ↔ 0 < out.toInt16 := toInt16_trichotomy (y := 0)
  rw [jumps, Word.jumpField_encode, hbits.1, hbits.2.1, hbits.2.2, Jump.taken]
  simp only [← hpos]
  by_cases h0 : out = 0
  · subst h0
    simp
  · by_cases hneg : out.toInt16 < 0 <;> simp [h0, hneg]

theorem dest_bits (x : Dest) : x.bits.toNat.testBit 2 = x.a ∧ x.bits.toNat.testBit 1 = x.d ∧
    x.bits.toNat.testBit 0 = x.m := by
  obtain ⟨a, d, m⟩ := x
  cases a <;> cases d <;> cases m <;> decide

/-- The code of a word that fits has the word's effect. -/
theorem exec_encode {w : Word} (h : w.Fits) (m : Machine) : exec m w.encode = m.exec w := by
  cases w with
  | load v =>
    have hlt : v.toNat < 0x8000 := h
    rw [Word.encode_load h, exec, if_pos hlt]
    rfl
  | compute dest comp jump =>
    have hlead := Word.leading_encode dest comp jump
    obtain ⟨ha, hd, hm⟩ := dest_bits dest
    rw [exec, if_neg (by omega), output_encode, Word.destField_encode]
    simp only [ha, hd, hm, jumps_encode]
    rfl

/-! ## Runs -/

/-- After every number of steps up to the end of a run that does not fail, the processor is where the
machine is, if every word that the machine came to fits. -/
theorem run_encode {p : Program} (k : Nat) : ∀ {n : Nat} {m : Machine}, k ≤ n →
    (p.run n m).fault = none →
    (∀ j < k, ∀ w, p.words[(p.run j m).machine.pc.toNat]? = some w → w.Fits) →
    run (p.words.map Word.encode) k m = (p.run k m).machine := by
  induction k with
  | zero => exact fun _ _ _ => rfl
  | succ k ih =>
    intro n m hk hf hfits
    obtain ⟨n, rfl⟩ : ∃ n', n = n' + 1 := ⟨n - 1, by omega⟩
    cases hs : p.step m with
    | halted =>
      have hw := Program.step_eq_halted.1 hs
      rw [run, Array.getElem?_map, hw, Program.run_succ, hs]
      rfl
    | fault f =>
      rw [Program.run_succ, hs] at hf
      cases hf
    | next m' =>
      obtain ⟨w, hw, -, rfl⟩ := Program.step_eq_next.1 hs
      -- the rest of the run is a run from here, to which all that was assumed applies
      have hnext (j : Nat) : (p.run (j + 1) m).machine = (p.run j (m.exec w)).machine := by
        rw [Program.run_succ, hs]
      rw [Program.run_succ, hs] at hf
      rw [run, Array.getElem?_map, hw, hnext]
      show run _ k (exec m w.encode) = _
      rw [exec_encode (hfits 0 (by omega) w hw)]
      refine ih (by omega) hf fun j hj w' hw' => hfits (j + 1) (by omega) w' ?_
      rw [hnext]
      exact hw'

/-- The processor on codes is the machine on words: a step that succeeds on a word that fits has the
effect of the word's code, and a run that does not fail goes through the same states. -/
theorem run_eq_machine (p : Program) (m : Machine) :
    (∀ w m', p.words[m.pc.toNat]? = some w → w.Fits → p.step m = .next m' → exec m w.encode = m') ∧
    ∀ n, (p.run n m).fault = none →
      (∀ k < n, ∀ w, p.words[(p.run k m).machine.pc.toNat]? = some w → w.Fits) →
      ∀ k ≤ n, run (p.words.map Word.encode) k m = (p.run k m).machine := by
  constructor
  · intro w m' hw hfits hs
    obtain ⟨w', hw', -, rfl⟩ := Program.step_eq_next.1 hs
    rw [hw] at hw'
    cases hw'
    exact exec_encode hfits m
  · intro n hf hfits k hk
    exact run_encode k hk hf fun j hj => hfits j (by omega)

/-- The second word lowers cell 3, puts the new value into both registers too and jumps, since that value
is negative, to where the address register pointed before. -/
def lowering : Program where
  words := #[.load 3, .compute ⟨true, true, true⟩ (.predY .m) .jlt]

theorem run_eq_machine_lowering :
    lowering.step ⟨3, 0, 1, .zero⟩ = .next ⟨0xFFFF, 0xFFFF, 3, Ram.zero.write 3 0xFFFF⟩ ∧
    exec ⟨3, 0, 1, .zero⟩ 0b1111110010111100 = ⟨0xFFFF, 0xFFFF, 3, Ram.zero.write 3 0xFFFF⟩ ∧
    (lowering.run 9 .start).fault = none ∧
    run #[3, 0b1111110010111100] 2 .start = ⟨0xFFFF, 0xFFFF, 3, Ram.zero.write 3 0xFFFF⟩ := by
  have hcodes : lowering.words.map Word.encode = #[3, 0b1111110010111100] := by
    apply Array.toList_inj.1
    rw [Array.toList_map]
    rfl
  have hfits : ∀ w ∈ lowering.words, w.Fits := by decide
  have h0 : lowering.step .start = .next ⟨3, 0, 1, .zero⟩ := rfl
  have h1 : lowering.step ⟨3, 0, 1, .zero⟩ = .next ⟨0xFFFF, 0xFFFF, 3, Ram.zero.write 3 0xFFFF⟩ := rfl
  have h2 : lowering.step ⟨0xFFFF, 0xFFFF, 3, Ram.zero.write 3 0xFFFF⟩ = .halted := rfl
  have hfault : (lowering.run 9 .start).fault = none := by
    simp only [Program.run_succ, h0, h1, h2]
  have hend : (lowering.run 2 .start).machine = ⟨0xFFFF, 0xFFFF, 3, Ram.zero.write 3 0xFFFF⟩ := by
    simp only [Program.run_succ, h0, h1]
    rfl
  refine ⟨h1, (run_eq_machine lowering ⟨3, 0, 1, .zero⟩).1 _ _ rfl trivial h1, hfault, ?_⟩
  rw [← hend, ← hcodes]
  refine (run_eq_machine lowering .start).2 9 hfault ?_ 2 (by decide)
  intro k _ w hw
  exact hfits w (Array.mem_of_getElem? hw)

end Cpu

end Hack
