/-
What commands do on the machine. Finding an address puts it into the address register and changes no
cell; an operation takes its operands from D and the stack. In a program of generated code every
command, failed ones included, ends with a word in the address register or at a cell that does not
exist, so that the pass over any commands does.
-/
import Hack.Proofs.Codegen.Exec

namespace Hack.Codegen

open Vm

/-! ## Places -/

/-- What the symbols of generated code stand for. -/
structure Places (unit : String) (labels : List String) (static : UInt16 → UInt16) (place : String → Place) :
    Prop where
  fixed : ∀ {name a}, Symbol.predefined? name = some a → place name = .word a
  static : ∀ n, place (staticName unit n) = .word (static n)
  label : ∀ name ∈ labels, place name = .label name

/-- Where a program keeps the static cells of a unit. -/
def staticCell (p : Program) (unit : String) (n : UInt16) : UInt16 :=
  (p.cell? (staticName unit n)).getD 0

section

variable {unit : String} {labels : List String} {static : UInt16 → UInt16} {place : String → Place}

theorem Places.sp (h : Places unit labels static place) : place Symbol.sp = .word 0 := h.fixed rfl

theorem Places.scratch (h : Places unit labels static place) : place scratch = .word 13 := h.fixed rfl

theorem Places.mono {labels' : List String} (h : Places unit labels static place)
    (hsub : ∀ name ∈ labels', name ∈ labels) : Places unit labels' static place :=
  ⟨h.fixed, h.static, fun name hn => h.label name (hsub name hn)⟩

/-- The places in a program of commands. -/
theorem places_of_holds {p : Program} {ls : List Line} (h : p.Holds ls) {n : Nat} {cmds : List Command}
    (hl : Lines.labels ls = stepLabels (lowerAll unit n cmds)) :
    Places unit (stepLabels (lowerAll unit n cmds)) (staticCell p unit) p.place := by
  have hlabels (name : String) : name ∈ p.labels ↔ name ∈ stepLabels (lowerAll unit n cmds) := by
    rw [h.mem_labels, hl]
  refine ⟨fun hp => by simp [Program.place, hp], fun m => ?_, fun name hn => ?_⟩
  · have hpre := predefined?_staticName unit m
    have hm : staticName unit m ∉ p.labels := fun hm => by
      obtain ⟨k, -, hk⟩ := mem_stepLabels_lowerAll ((hlabels _).1 hm)
      exact CompareLabels.ne_staticName hk m rfl
    simp [Program.place, hpre, hm, staticCell, Program.cell?]
  · obtain ⟨k, -, hk⟩ := mem_stepLabels_lowerAll hn
    simp [Program.place, CompareLabels.predefined?_of_mem hk, (hlabels name).2 hn]

/-! ## Addresses -/

variable {q : Place} {d : UInt16} {ram : Ram}

theorem exec_indirect (hp : Places unit labels static place) {base : String} {b n : UInt16}
    (hbase : Symbol.predefined? base = some b) (hb : b.toNat < ramSize) :
    exec place (.running ⟨q, d, ram⟩)
        [.point (.direct (.number n)), assign .toD (.y .a), pointSymbol base, assign .toA (.add .m)] =
      .running ⟨.word (n + ram.read b), n, ram⟩ := by
  rw [exec_number, exec_toD_register rfl, exec_symbol (hp.fixed hbase), exec_toA hb]
  rfl

/-- Finding an address changes no cell, and D only where a pop is staged for it. -/
theorem exec_resolved (hp : Places unit labels static place) {seg : Segment} {n : UInt16}
    {address : List Emission} (h : Resolved unit seg n address) (q : Place) (d : UInt16) (ram : Ram) :
    ∃ d', exec place (.running ⟨q, d, ram⟩) address = .running ⟨.word (seg.cell static ram n), d', ram⟩ ∧
      (seg.policy.staged = false → d' = d) := by
  cases h with
  | constant h => exact ⟨d, rfl, fun _ => rfl⟩
  | temp h => exact ⟨d, rfl, fun _ => rfl⟩
  | this => exact ⟨d, exec_symbol (hp.fixed rfl), fun _ => rfl⟩
  | that => exact ⟨d, exec_symbol (hp.fixed rfl), fun _ => rfl⟩
  | static n => exact ⟨d, exec_symbol (hp.static n), fun _ => rfl⟩
  | @indirect seg base n hs h =>
    refine ⟨n, ?_, fun hst => by rw [hs] at hst; cases hst⟩
    cases seg <;> simp only [Segment.policy, reduceCtorEq, Policy.indirect.injEq] at hs <;> subst hs <;>
      rw [exec_indirect hp rfl (by decide), UInt16.add_comm] <;> rfl

/-! ## Pushes and pops -/

/-- A push whose cells exist. -/
theorem exec_push (hp : Places unit labels static place) {seg : Segment} {n : UInt16} {address : List Emission}
    (h : Resolved unit seg n address) (hcell : seg ≠ .constant → (seg.cell static ram n).toNat < ramSize)
    (htop : (ram.read 0).toNat < ramSize) :
    let v := if seg = .constant then n else ram.read (seg.cell static ram n)
    exec place (.running ⟨q, d, ram⟩)
      (address ++ [assign .toD (.y (if seg = .constant then .a else .m))] ++ pushD) =
      .running ⟨.word 0, v, pushValue ram v⟩ := by
  intro v
  obtain ⟨d1, haddr, -⟩ := exec_resolved hp h q d ram
  have hvalue : exec place (.running ⟨.word (seg.cell static ram n), d1, ram⟩)
      [assign .toD (.y (if seg = .constant then .a else .m))] =
      .running ⟨.word (seg.cell static ram n), v, ram⟩ := by
    by_cases hc : seg = .constant
    · subst hc
      exact exec_toD_register rfl
    · simp only [v, if_neg hc]
      exact exec_toD (hcell hc)
  rw [exec_append, exec_append, haddr, hvalue, exec_pushD hp.sp, if_pos htop]
  rfl

/-- Keeping an address in the scratch cell. -/
theorem exec_park (hsc : place scratch = .word 13) (a d : UInt16) (ram : Ram) :
    exec place (.running ⟨.word a, d, ram⟩) [assign .toD (.y .a), pointSymbol scratch, assign .toM .d] =
      .running ⟨.word 13, a, ram.write 13 a⟩ := by
  rw [exec_toD_register rfl, exec_symbol hsc, exec_toM scratch_lt_ramSize, exec_nil]
  rfl

theorem read_scratch_parked (ram : Ram) (a : UInt16) : (dropValue (ram.write 13 a)).read 13 = a := by
  rw [dropValue, Ram.read_write_of_ne (by decide), Ram.read_write_self scratch_lt_ramSize]

/-- A staged pop keeps its destination in the scratch cell while it takes the value off the stack. -/
theorem exec_pop_staged (hp : Places unit labels static place) {seg : Segment} {n : UInt16}
    {address : List Emission} (h : Resolved unit seg n address) (hcell : (seg.cell static ram n).toNat < ramSize)
    (htop : (ram.read 0 - 1).toNat < ramSize) :
    let cell := seg.cell static ram n
    let v := (ram.write 13 cell).read (ram.read 0 - 1)
    exec place (.running ⟨q, d, ram⟩) (address ++ [assign .toD (.y .a), pointSymbol scratch, assign .toM .d] ++
      popD ++ [pointDeref scratch, assign .toM .d]) =
      .running ⟨.word cell, v, (dropValue (ram.write 13 cell)).write cell v⟩ := by
  intro cell v
  obtain ⟨d1, haddr, -⟩ := exec_resolved hp h q d ram
  have hsp : (ram.write 13 cell).read 0 = ram.read 0 := Ram.read_write_of_ne (by decide) cell
  rw [exec_append, exec_append, exec_append, haddr, exec_park hp.scratch, exec_popD hp.sp,
    if_pos (by rw [hsp]; exact htop), hsp]
  have hdrop : (ram.write 13 cell).write 0 (ram.read 0 - 1) = dropValue (ram.write 13 cell) := by
    rw [dropValue, hsp]
  rw [hdrop, exec_deref hp.scratch scratch_lt_ramSize, read_scratch_parked, exec_toM hcell]
  rfl

/-- Any other pop keeps the value in D while it finds its destination, which depends on no pointer. -/
theorem exec_pop_unstaged (hp : Places unit labels static place) {seg : Segment} {n : UInt16}
    {address : List Emission} (h : Resolved unit seg n address) (hs : seg.policy.staged = false)
    (hcell : (seg.cell static (dropValue ram) n).toNat < ramSize) (htop : (ram.read 0 - 1).toNat < ramSize) :
    let cell := seg.cell static (dropValue ram) n
    let v := ram.read (ram.read 0 - 1)
    exec place (.running ⟨q, d, ram⟩) (popD ++ (address ++ [assign .toM .d])) =
      .running ⟨.word cell, v, (dropValue ram).write cell v⟩ := by
  intro cell v
  obtain ⟨d1, haddr, hd1⟩ := exec_resolved hp h (.word 0) v (dropValue ram)
  rw [exec_append, exec_append, exec_popD hp.sp, if_pos htop]
  change exec place (exec place (.running ⟨.word 0, v, dropValue ram⟩) address) _ = _
  rw [haddr, hd1 hs, exec_toM hcell]
  rfl

/-! ## Operations -/

/-- The memory in which an operation finds its left operand: comparisons keep the right one first. -/
def parked (op : Op) (y : UInt16) (ram : Ram) : Ram :=
  if op.compares then ram.write 13 y else ram

theorem exec_operate_unary {op : Op} (h : op.unary = true) (l : CompareLabels) (a x y : UInt16) :
    exec place (.running ⟨.word a, y, ram⟩) (operate l op) = .running ⟨.word a, op.eval x y, ram⟩ := by
  cases op <;> simp only [Op.unary, Bool.false_eq_true] at h <;> exact exec_toD_register rfl

theorem exec_operate_compare (hp : Places unit labels static place) {n : Nat}
    (hl : ∀ name ∈ (CompareLabels.make unit n).toList, name ∈ labels) (jump : Jump) (y : UInt16) :
    exec place (.running ⟨q, y, ram⟩) (compare jump (.make unit n)) =
      if (ram.read 0 - 1).toNat < ramSize then
        .running ⟨.word 0,
          truthWord (jump.taken (orderWord ((ram.write 13 y).read (ram.read 0 - 1)) y)),
          (ram.write 13 y).write 0 (ram.read 0 - 1)⟩
      else .faulted (ram.read 0 - 1) ⟨.word (ram.read 0 - 1), y, ram.write 13 y⟩ :=
  exec_compare hp.sp hp.scratch (fun name hn => hp.label name (hl name hn)) (CompareLabels.nodup_make unit n) jump y

/-- An operation with two operands. -/
theorem exec_operate_binary (hp : Places unit labels static place) {op : Op} (h : op.unary = false) {n : Nat}
    (hl : op.compares = true → ∀ name ∈ (CompareLabels.make unit n).toList, name ∈ labels) (y : UInt16) :
    exec place (.running ⟨q, y, ram⟩) (operate (.make unit n) op) =
      if (ram.read 0 - 1).toNat < ramSize then
        .running ⟨.word 0, op.eval ((parked op y ram).read (ram.read 0 - 1)) y,
          (parked op y ram).write 0 (ram.read 0 - 1)⟩
      else .faulted (ram.read 0 - 1) ⟨.word (ram.read 0 - 1), y, parked op y ram⟩ := by
  cases op with
  | neg | not => cases h
  | add =>
    rw [operate, exec_binary hp.sp rfl, Comp.eval, Input.pick, UInt16.add_comm]
    rfl
  | sub => exact exec_binary hp.sp rfl
  | and =>
    rw [operate, exec_binary hp.sp rfl, Comp.eval, Input.pick, UInt16.and_comm]
    rfl
  | or =>
    rw [operate, exec_binary hp.sp rfl, Comp.eval, Input.pick, UInt16.or_comm]
    rfl
  | eq =>
    rw [operate, exec_operate_compare hp (hl rfl), Jump.taken_jeq_orderWord]
    rfl
  | lt =>
    rw [operate, exec_operate_compare hp (hl rfl), Jump.taken_jlt_orderWord]
    rfl
  | gt =>
    rw [operate, exec_operate_compare hp (hl rfl), Jump.taken_jgt_orderWord]
    rfl

theorem sub_one_sub_one (s : UInt16) : s - 1 - 1 = s - 2 := by
  rw [UInt16.sub_eq_add_neg, UInt16.sub_eq_add_neg, UInt16.sub_eq_add_neg, UInt16.add_assoc]
  rfl

theorem sub_two_add_one (s : UInt16) : s - 2 + 1 = s - 1 := by
  rw [← sub_one_sub_one, UInt16.sub_add_cancel]

/-- The code of an operation with two operands: the result takes the place of the lower one, and the stack pointer
comes to stand behind it. -/
theorem exec_arith_binary (hp : Places unit labels static place) {op : Op} (h : op.unary = false) {n : Nat}
    (hl : op.compares = true → ∀ name ∈ (CompareLabels.make unit n).toList, name ∈ labels)
    (htop : (ram.read 0 - 1).toNat < ramSize) (hslot : (ram.read 0 - 2).toNat < ramSize)
    (hne : ram.read 0 - 2 ≠ 0) :
    let y := ram.read (ram.read 0 - 1)
    let kept := parked op y (dropValue ram)
    let v := op.eval (kept.read (ram.read 0 - 2)) y
    exec place (.running ⟨q, d, ram⟩) (lower unit n (.arith op)).steps =
      .running ⟨.word 0, v, ((kept.write 0 (ram.read 0 - 2)).write (ram.read 0 - 2) v).write 0 (ram.read 0 - 1)⟩ := by
  intro y kept v
  have hsp : (dropValue ram).read 0 = ram.read 0 - 1 := Ram.read_write_self zero_lt_ramSize _
  simp only [lower, exec_append]
  rw [exec_popD hp.sp, if_pos htop]
  change exec place (exec place (.running ⟨.word 0, y, dropValue ram⟩) _) _ = _
  rw [exec_operate_binary hp h hl, hsp, sub_one_sub_one, if_pos hslot, exec_pushD hp.sp,
    Ram.read_write_self zero_lt_ramSize, if_pos hslot, Ram.read_write_of_ne hne, Ram.read_write_self zero_lt_ramSize,
    sub_two_add_one]

/-! ## Ends of commands -/

/-- Whether a pass goes on with a word in the address register, or has come to a fault. -/
def Steady : Pass → Prop
  | .running s => ∃ a, s.a = .word a
  | .faulted _ _ => True
  | _ => False

theorem Steady.settled {f : Pass} (h : Steady f) : f.Settled := by
  cases f with
  | running s => trivial
  | faulted addr s => trivial
  | skipping name s => cases h
  | stuck => cases h

theorem Steady.exec {f : Pass} (hf : Steady f) {steps : List Emission}
    (h : ∀ a d ram, Steady (exec place (.running ⟨.word a, d, ram⟩) steps)) : Steady (exec place f steps) := by
  match f, hf with
  | .running ⟨_, d, ram⟩, ⟨a, rfl⟩ => exact h a d ram
  | .faulted addr s, _ => rw [exec_faulted]; trivial

theorem steady_ite {c : Prop} [Decidable c] {a d addr : UInt16} {ram : Ram} {s : Snapshot} :
    Steady (if c then .running ⟨.word a, d, ram⟩ else .faulted addr s) := by
  split
  · exact ⟨a, rfl⟩
  · trivial

theorem Steady.popD (hp : Places unit labels static place) {f : Pass} (hf : Steady f) :
    Steady (Codegen.exec place f popD) :=
  hf.exec fun a d ram => by rw [exec_popD hp.sp]; exact steady_ite

theorem Steady.pushD (hp : Places unit labels static place) {f : Pass} (hf : Steady f) :
    Steady (Codegen.exec place f pushD) :=
  hf.exec fun a d ram => by rw [exec_pushD hp.sp]; exact steady_ite

theorem Steady.resolved (hp : Places unit labels static place) {f : Pass} (hf : Steady f) {seg : Segment}
    {n : UInt16} {address : List Emission} (h : Resolved unit seg n address) :
    Steady (Codegen.exec place f address) :=
  hf.exec fun a d ram => by
    obtain ⟨d', h, -⟩ := exec_resolved hp h (.word a) d ram
    rw [h]
    exact ⟨_, rfl⟩

theorem Steady.operate (hp : Places unit labels static place) {f : Pass} (hf : Steady f) {op : Op} {n : Nat}
    (hl : op.compares = true → ∀ name ∈ (CompareLabels.make unit n).toList, name ∈ labels) :
    Steady (Codegen.exec place f (operate (.make unit n) op)) :=
  hf.exec fun a d ram => by
    cases hu : op.unary with
    | true => rw [exec_operate_unary hu _ a 0 d]; exact ⟨a, rfl⟩
    | false => rw [exec_operate_binary hp hu hl]; exact steady_ite

/-- One assignment, to a register or to the cell under the address register. -/
theorem Steady.assign {f : Pass} (hf : Steady f) {dest : Dest} (hd : dest.a = false) {comp : Comp} :
    Steady (Codegen.exec place f [Codegen.assign dest comp]) :=
  hf.exec fun a d ram => by
    simp only [Codegen.exec, Codegen.assign, Line.assign, plainLines_cons, plainLines_nil, Emission.plain,
      List.append_nil, Pass.run_cons, Pass.run_nil, Pass.step, Snapshot.compute, hd, Jump.taken_null,
      Bool.false_eq_true, if_false]
    split
    · trivial
    · exact ⟨a, rfl⟩

/-- A command goes on with a word in the address register, or comes to a fault. -/
theorem Shape.steady (hp : Places unit labels static place) {n : Nat} {compares : Bool} {steps : List Emission}
    (h : Shape unit n compares steps)
    (hl : compares = true → ∀ name ∈ (CompareLabels.make unit n).toList, name ∈ labels) {f : Pass}
    (hf : Steady f) : Steady (exec place f steps) := by
  -- every shape is a row of blocks that keep `Steady`
  cases h with
  | nothing => exact hf
  | dropped => exact hf.popD hp
  | again =>
    rw [exec_append]
    exact (hf.popD hp).pushD hp
  | push h i =>
    rw [exec_append, exec_append]
    exact ((hf.resolved hp h).assign rfl).pushD hp
  | staged h =>
    simp only [exec_append]
    refine Steady.exec (((hf.resolved hp h).exec fun a d ram => ?_).popD hp) fun a d ram => ?_
    · rw [exec_toD_register rfl, exec_symbol hp.scratch, exec_toM scratch_lt_ramSize]
      exact ⟨13, rfl⟩
    · rw [exec_deref hp.scratch scratch_lt_ramSize]
      have hcell : Steady (.running ⟨.word (ram.read 13), d, ram⟩) := ⟨_, rfl⟩
      exact hcell.assign rfl
  | pop h =>
    rw [exec_append, exec_append]
    exact ((hf.popD hp).resolved hp h).assign rfl
  | arith op =>
    rw [exec_append, exec_append]
    exact ((hf.popD hp).operate hp hl).pushD hp

/-- So does any number of commands. -/
theorem steady_lowerAll {n : Nat} {cmds : List Command}
    (hp : Places unit (stepLabels (lowerAll unit n cmds)) static place) {f : Pass} (hf : Steady f) :
    Steady (exec place f (lowerAll unit n cmds)) := by
  induction cmds generalizing n f with
  | nil => exact hf
  | cons cmd cmds ih =>
    have hshape := shape_lower unit n cmd
    rw [lowerAll, stepLabels_append, hshape.stepLabels] at hp
    rw [lowerAll, exec_append]
    refine ih (hp.mono fun name hn => List.mem_append_right _ hn) (hshape.steady hp (fun hc name hn => ?_) hf)
    exact List.mem_append_left _ (by rw [hc]; exact hn)

end

end Hack.Codegen
