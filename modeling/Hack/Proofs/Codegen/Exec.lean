/-
The pass over the plain lines of steps, one step at a time. Loads and assignments have one fact each,
by what they write; a jump in front of a label decides on the sign of D, and skips the steps up to that
label. The blocks of the stack and of comparisons follow: what they do to registers and memory, and
where they fail.
-/
import Hack.Proofs.Codegen.Shape
import Hack.Proofs.Machine.Pass
import Hack.Proofs.Asm.Signed
import Hack.Proofs.Vm.Reference

namespace Hack.Codegen

open Vm

/-- The pass over the plain lines of steps. -/
def exec (place : String → Place) (f : Pass) (steps : List Emission) : Pass :=
  Pass.run place f (plainLines steps)

theorem zero_lt_ramSize : (0 : UInt16).toNat < ramSize := by decide

theorem scratch_lt_ramSize : (13 : UInt16).toNat < ramSize := by decide

section

variable {place : String → Place} {q : Place} {a d : UInt16} {ram : Ram} {s : Snapshot} {name : String}
  {comp : Comp} {steps more : List Emission}

/-! ## Single steps -/

@[simp] theorem exec_nil (f : Pass) : exec place f [] = f := rfl

@[simp] theorem exec_append (f : Pass) :
    exec place f (steps ++ more) = exec place (exec place f steps) more := by
  simp [exec]

@[simp] theorem exec_faulted (addr : UInt16) : exec place (.faulted addr s) steps = .faulted addr s :=
  Pass.run_faulted addr s _

theorem exec_number (n : UInt16) :
    exec place (.running ⟨q, d, ram⟩) (.point (.direct (.number n)) :: steps) =
      exec place (.running ⟨.word n, d, ram⟩) steps := rfl

theorem exec_symbol {r : Place} (h : place name = r) :
    exec place (.running ⟨q, d, ram⟩) (pointSymbol name :: steps) = exec place (.running ⟨r, d, ram⟩) steps := by
  subst h; rfl

theorem exec_toD (h : a.toNat < ramSize) :
    exec place (.running ⟨.word a, d, ram⟩) (assign .toD comp :: steps) =
      exec place (.running ⟨.word a, comp.eval a d (ram.read a), ram⟩) steps := by
  simp [exec, assign, Line.assign, Emission.plain, Pass.step, Snapshot.compute, Dest.toD, h]

theorem exec_toA (h : a.toNat < ramSize) :
    exec place (.running ⟨.word a, d, ram⟩) (assign .toA comp :: steps) =
      exec place (.running ⟨.word (comp.eval a d (ram.read a)), d, ram⟩) steps := by
  simp [exec, assign, Line.assign, Emission.plain, Pass.step, Snapshot.compute, Dest.toA, h]

theorem exec_toM (h : a.toNat < ramSize) :
    exec place (.running ⟨.word a, d, ram⟩) (assign .toM comp :: steps) =
      exec place (.running ⟨.word a, d, ram.write a (comp.eval a d (ram.read a))⟩) steps := by
  simp [exec, assign, Line.assign, Emission.plain, Pass.step, Snapshot.compute, Dest.toM, h]

/-- What is computed from registers alone needs no cell. -/
theorem exec_toD_register (h : comp.readsMemory = false) :
    exec place (.running ⟨.word a, d, ram⟩) (assign .toD comp :: steps) =
      exec place (.running ⟨.word a, comp.eval a d (ram.read a), ram⟩) steps := by
  simp [exec, assign, Line.assign, Emission.plain, Pass.step, Snapshot.compute, Dest.toD, h]

/-- The address register may be in front of a label when a constant is put into D. -/
theorem exec_toD_label (h : comp.input? = none) :
    exec place (.running ⟨.label name, d, ram⟩) (assign .toD comp :: steps) =
      exec place (.running ⟨.label name, comp.eval 0 d 0, ram⟩) steps := by
  simp [exec, assign, Line.assign, Emission.plain, Pass.step, Snapshot.compute, Dest.toD, h]

theorem exec_fault {dest : Dest} (ht : (comp.readsMemory || dest.m) = true) (h : ¬ a.toNat < ramSize) :
    exec place (.running ⟨.word a, d, ram⟩) (assign dest comp :: steps) = .faulted a ⟨.word a, d, ram⟩ := by
  simp only [exec, assign, Line.assign, plainLines_cons, Emission.plain, List.singleton_append, Pass.run_cons,
    Pass.step, Snapshot.compute, ht, h, decide_false, Bool.not_false, Bool.and_self, if_true, Pass.run_faulted]

/-- A dereferencing load of a cell that exists. -/
theorem exec_deref (h : place name = .word a) (ha : a.toNat < ramSize) :
    exec place (.running ⟨q, d, ram⟩) (pointDeref name :: steps) =
      exec place (.running ⟨.word (ram.read a), d, ram⟩) steps := by
  change exec place _ (pointSymbol name :: assign .toA (.y .m) :: steps) = _
  rw [exec_symbol h, exec_toA ha]
  rfl

/-! ## Jumps -/

theorem exec_branch (h : comp.input? = none) (jump : Jump) :
    exec place (.running ⟨.label name, d, ram⟩) (.line (.branch comp jump) :: steps) =
      exec place (if jump.taken (comp.eval 0 d 0) then .skipping name ⟨.label name, d, ram⟩
        else .running ⟨.label name, d, ram⟩) steps := by
  simp [exec, Line.branch, Emission.plain, Pass.step, Snapshot.compute, Dest.null, h]

theorem exec_label (other : String) :
    exec place (.running s) (.line (.label other) :: steps) = exec place (.running s) steps := rfl

/-- Steps without the label are skipped. -/
theorem exec_skipping (h : name ∉ stepLabels steps) :
    exec place (.skipping name s) steps = .skipping name s :=
  Pass.run_skipping s (by rw [labels_plainLines]; exact h)

theorem exec_skipping_label :
    exec place (.skipping name s) (.line (.label name) :: steps) = exec place (.running s) steps := by
  simp [exec, Emission.plain, Pass.step]

theorem exec_skipping_other {other : String} (h : other ≠ name) :
    exec place (.skipping name s) (.line (.label other) :: steps) = exec place (.skipping name s) steps := by
  simp [exec, Emission.plain, Pass.step, h]

theorem exec_jumpTo (h : place name = .label name) (hc : comp.input? = none) (jump : Jump) :
    exec place (.running ⟨q, d, ram⟩) (jumpTo name comp jump) =
      if jump.taken (comp.eval 0 d 0) then .skipping name ⟨.label name, d, ram⟩
      else .running ⟨.label name, d, ram⟩ := by
  rw [jumpTo, exec_symbol h, exec_branch hc, exec_nil]

theorem exec_jlt (h : place name = .label name) : exec place (.running ⟨q, d, ram⟩) (jumpTo name .d .jlt) =
    if d.toInt16 < 0 then .skipping name ⟨.label name, d, ram⟩ else .running ⟨.label name, d, ram⟩ := by
  rw [exec_jumpTo h rfl, Comp.eval, Jump.taken_jlt]
  simp only [decide_eq_true_eq]

theorem exec_jge (h : place name = .label name) : exec place (.running ⟨q, d, ram⟩) (jumpTo name .d .jge) =
    if d.toInt16 < 0 then .running ⟨.label name, d, ram⟩ else .skipping name ⟨.label name, d, ram⟩ := by
  rw [exec_jumpTo h rfl, Comp.eval, Jump.taken_jge]
  by_cases hd : d.toInt16 < 0 <;> simp only [hd, decide_true, decide_false, Bool.not_true, Bool.not_false, if_true,
    if_false, Bool.false_eq_true]

theorem exec_jmp (h : place name = .label name) : exec place (.running ⟨q, d, ram⟩) (jumpTo name .zero .jmp) =
    .skipping name ⟨.label name, d, ram⟩ := by
  rw [exec_jumpTo h rfl, Jump.taken_jmp, if_pos rfl]

/-! ## The stack -/

theorem exec_pointTop (hsp : place Symbol.sp = .word 0) :
    exec place (.running ⟨q, d, ram⟩) pointTop = .running ⟨.word (ram.read 0 - 1), d, ram⟩ := by
  rw [pointTop, exec_symbol hsp, exec_toA zero_lt_ramSize]
  rfl

theorem exec_dropTop (hsp : place Symbol.sp = .word 0) :
    exec place (.running ⟨q, d, ram⟩) dropTop = .running ⟨.word 0, d, ram.write 0 (ram.read 0 - 1)⟩ := by
  rw [dropTop, exec_symbol hsp, exec_toM zero_lt_ramSize]
  rfl

/-- Taking the topmost value off the stack. -/
theorem exec_popD (hsp : place Symbol.sp = .word 0) :
    exec place (.running ⟨q, d, ram⟩) popD =
      if (ram.read 0 - 1).toNat < ramSize then
        .running ⟨.word 0, ram.read (ram.read 0 - 1), ram.write 0 (ram.read 0 - 1)⟩
      else .faulted (ram.read 0 - 1) ⟨.word (ram.read 0 - 1), d, ram⟩ := by
  rw [popD, exec_append, exec_append, exec_pointTop hsp]
  split
  · rw [exec_toD ‹_›, exec_nil, exec_dropTop hsp]
    rfl
  · rw [exec_fault rfl ‹_›, exec_faulted]

/-- Putting D on the stack. -/
theorem exec_pushD (hsp : place Symbol.sp = .word 0) :
    exec place (.running ⟨q, d, ram⟩) pushD =
      if (ram.read 0).toNat < ramSize then
        .running ⟨.word 0, d,
          (ram.write (ram.read 0) d).write 0 ((ram.write (ram.read 0) d).read 0 + 1)⟩
      else .faulted (ram.read 0) ⟨.word (ram.read 0), d, ram⟩ := by
  rw [pushD, exec_deref hsp zero_lt_ramSize]
  split
  · rw [exec_toM ‹_›, exec_symbol hsp, exec_toM zero_lt_ramSize]
    rfl
  · rw [exec_fault rfl ‹_›]

/-- Operating on D and the topmost value. -/
theorem exec_binary (hsp : place Symbol.sp = .word 0) (hc : comp.readsMemory = true) :
    exec place (.running ⟨q, d, ram⟩) (binary comp) =
      if (ram.read 0 - 1).toNat < ramSize then
        .running ⟨.word 0, comp.eval (ram.read 0 - 1) d (ram.read (ram.read 0 - 1)),
          ram.write 0 (ram.read 0 - 1)⟩
      else .faulted (ram.read 0 - 1) ⟨.word (ram.read 0 - 1), d, ram⟩ := by
  rw [binary, exec_append, exec_append, exec_pointTop hsp]
  split
  · rw [exec_toD ‹_›, exec_nil, exec_dropTop hsp]
  · rw [exec_fault (by rw [hc]; rfl) ‹_›, exec_faulted]

/-! ## Comparisons -/

/-- The order of the topmost value and D, which the scratch cell keeps. The three branches and the
difference behind them meet in front of the label, with different contents of the address register. -/
theorem exec_order {l : CompareLabels} (hsp : place Symbol.sp = .word 0) (hsc : place scratch = .word 13)
    (hl : ∀ name ∈ l.toList, place name = .label name) (hd : l.toList.Nodup) {y : UInt16}
    (h : (ram.read 0 - 1).toNat < ramSize) :
    ∃ q', exec place (.running ⟨q, y, ram⟩) (order l) =
      .running ⟨q', orderWord ((ram.write 13 y).read (ram.read 0 - 1)) y, ram.write 13 y⟩ := by
  simp only [CompareLabels.toList, List.mem_cons, List.not_mem_nil, or_false, forall_eq_or_imp, forall_eq] at hl
  obtain ⟨hneg, hsame, hready, -⟩ := hl
  simp only [CompareLabels.toList, List.nodup_cons, List.mem_cons, List.not_mem_nil, or_false, not_or] at hd
  obtain ⟨⟨hns, hnr, -⟩, ⟨hsr, -⟩, -⟩ := hd
  have htop : (ram.write 13 y).read 0 = ram.read 0 := Ram.read_write_of_ne (by decide) y
  have hy : (ram.write 13 y).read 13 = y := Ram.read_write_self scratch_lt_ramSize y
  generalize hx : (ram.write 13 y).read (ram.read 0 - 1) = x
  have hload (q : Place) (v : UInt16) : exec place (exec place (.running ⟨q, v, ram.write 13 y⟩) pointTop)
      [assign .toD (.y .m)] = .running ⟨.word (ram.read 0 - 1), x, ram.write 13 y⟩ := by
    rw [exec_pointTop hsp, htop, exec_toD h, exec_nil, Comp.eval, Input.pick, hx]
  have hright (q : Place) (v : UInt16) : exec place (.running ⟨q, v, ram.write 13 y⟩)
      [pointSymbol scratch, assign .toD (.y .m)] = .running ⟨.word 13, y, ram.write 13 y⟩ := by
    rw [exec_symbol hsc, exec_toD scratch_lt_ramSize, exec_nil, Comp.eval, Input.pick, hy]
  have hdiff (q : Place) (v : UInt16) : exec place (exec place (.running ⟨q, v, ram.write 13 y⟩) pointTop)
      [assign .toD (.y .m), pointSymbol scratch, assign .toD (.sub .m)] =
        .running ⟨.word 13, x - y, ram.write 13 y⟩ := by
    rw [exec_pointTop hsp, htop, exec_toD h, exec_symbol hsc, exec_toD scratch_lt_ramSize, exec_nil]
    simp only [Comp.eval, Input.pick, hx, hy]
  have hone (n : String) (v : UInt16) : exec place (.running ⟨.label n, v, ram.write 13 y⟩)
      [assign .toD .one] = .running ⟨.label n, 1, ram.write 13 y⟩ := exec_toD_label rfl
  have hnegOne (n : String) (v : UInt16) : exec place (.running ⟨.label n, v, ram.write 13 y⟩)
      [assign .toD .negOne] = .running ⟨.label n, 0xFFFF, ram.write 13 y⟩ := exec_toD_label rfl
  have hstart : exec place (.running ⟨q, y, ram⟩) [pointSymbol scratch, assign .toM .d] =
      .running ⟨.word 13, y, ram.write 13 y⟩ := by
    rw [exec_symbol hsc, exec_toM scratch_lt_ramSize, exec_nil, Comp.eval]
  simp only [order, exec_append, hstart, hload, exec_jlt hneg]
  unfold orderWord
  -- with different signs one of the branches decides, with the same sign the difference does
  by_cases hxn : x.toInt16 < 0 <;> by_cases hyn : y.toInt16 < 0
  all_goals
    simp [hxn, hyn, exec_skipping, exec_skipping_label, exec_label, exec_jlt hsame, exec_jge hsame,
      exec_jmp hready, hright, hdiff, hone, hnegOne, Ne.symm hns, Ne.symm hnr, Ne.symm hsr]

/-- A truth value in D. -/
theorem exec_truth {l : CompareLabels} (hl : ∀ name ∈ l.toList, place name = .label name) (hd : l.toList.Nodup)
    (jump : Jump) (q : Place) (d : UInt16) (ram : Ram) : ∃ q', exec place (.running ⟨q, d, ram⟩) (truth jump l) =
      .running ⟨q', truthWord (jump.taken d), ram⟩ := by
  have htrue : place l.onTrue = .label l.onTrue := hl _ (by simp [CompareLabels.toList])
  have hdone : place l.done = .label l.done := hl _ (by simp [CompareLabels.toList])
  have hne : l.onTrue ≠ l.done := by
    simp only [CompareLabels.toList, List.nodup_cons, List.mem_cons, List.not_mem_nil, or_false, not_or] at hd
    exact hd.2.2.2.1
  rw [truth, exec_append, exec_append, exec_append, exec_jumpTo htrue rfl, Comp.eval]
  unfold truthWord
  -- a jump taken skips the answer 0, and one not taken goes from there to the end
  by_cases hj : jump.taken d = true
  · refine ⟨.label l.onTrue, ?_⟩
    rw [if_pos hj, if_pos hj, exec_skipping (by simp), exec_skipping (by simp), exec_skipping_label,
      exec_toD_label rfl]
    rfl
  · refine ⟨.label l.done, ?_⟩
    rw [if_neg hj, if_neg hj, exec_toD_label rfl, exec_nil, exec_jmp hdone, exec_skipping_other hne]
    exact exec_skipping_label

/-- A comparison of D with the topmost value; the scratch cell is overwritten before the value is read. -/
theorem exec_compare {l : CompareLabels} (hsp : place Symbol.sp = .word 0) (hsc : place scratch = .word 13)
    (hl : ∀ name ∈ l.toList, place name = .label name) (hd : l.toList.Nodup) (jump : Jump) (y : UInt16) :
    exec place (.running ⟨q, y, ram⟩) (compare jump l) =
      if (ram.read 0 - 1).toNat < ramSize then
        .running ⟨.word 0,
          truthWord (jump.taken (orderWord ((ram.write 13 y).read (ram.read 0 - 1)) y)),
          (ram.write 13 y).write 0 (ram.read 0 - 1)⟩
      else .faulted (ram.read 0 - 1) ⟨.word (ram.read 0 - 1), y, ram.write 13 y⟩ := by
  have htop : (ram.write 13 y).read 0 = ram.read 0 := Ram.read_write_of_ne (by decide) y
  split
  · rename_i h
    obtain ⟨q1, horder⟩ := exec_order (q := q) hsp hsc hl hd (y := y) h
    obtain ⟨q2, htruth⟩ := exec_truth hl hd jump q1
      (orderWord ((ram.write 13 y).read (ram.read 0 - 1)) y) (ram.write 13 y)
    rw [compare, exec_append, exec_append, horder, htruth, exec_dropTop hsp, htop]
  · rename_i h
    simp only [compare, order, exec_append]
    rw [exec_symbol hsc, exec_toM scratch_lt_ramSize, exec_nil, Comp.eval, exec_pointTop hsp, htop, exec_fault rfl h]
    simp only [exec_faulted]

end

end Hack.Codegen
