/-
Compiled code does what its commands mean. Take any text that compiles to a program that loads, and any
state of the machine: as long as the reference machine uses only cells that exist, reads no value from
the scratch cell and operates on nothing in the cell of the stack pointer, the program halts without a
fault and leaves every cell but the scratch cell as the reference machine does.
-/
import Hack.Proofs.Codegen.Assembly
import Hack.Proofs.Vm.Grammar

namespace Hack

/-! ## Memory -/

theorem Ram.read_write (r : Ram) (addr v other : UInt16) :
    (r.write addr v).read other = if addr = other ∧ addr.toNat < ramSize then v else r.read other := by
  by_cases ha : addr = other
  · subst ha
    by_cases hr : addr.toNat < ramSize
    · rw [if_pos ⟨rfl, hr⟩, Ram.read_write_self hr]
    · rw [if_neg (by simp [hr])]
      simp [Ram.read, hr]
  · rw [if_neg (by simp [ha]), Ram.read_write_of_ne ha]

namespace Codegen

open Vm

/-- Whether two memories agree but for the scratch cell. -/
def Alike (ram ref : Ram) : Prop :=
  ∀ addr, addr ≠ 13 → ram.read addr = ref.read addr

namespace Alike

variable {ram ref : Ram}

theorem refl (ram : Ram) : Alike ram ram := fun _ _ => rfl

theorem write (h : Alike ram ref) (addr v : UInt16) : Alike (ram.write addr v) (ref.write addr v) := by
  intro other ho
  rw [Ram.read_write, Ram.read_write, h other ho]

theorem park (h : Alike ram ref) (v : UInt16) : Alike (ram.write 13 v) ref := by
  intro other ho
  rw [Ram.read_write_of_ne (Ne.symm ho), h other ho]

theorem sp (h : Alike ram ref) : ram.read 0 = ref.read 0 := h 0 (by decide)

theorem push (h : Alike ram ref) (v : UInt16) : Alike (pushValue ram v) (pushValue ref v) := by
  have hw := h.write (ref.read 0) v
  simp only [pushValue, h.sp, hw.sp]
  exact hw.write 0 _

theorem drop (h : Alike ram ref) : Alike (dropValue ram) (dropValue ref) := by
  unfold dropValue
  rw [h.sp]
  exact h.write 0 _

/-- Moving the stack pointer leaves every other cell alone. -/
theorem move (h : Alike ram ref) (sp : UInt16) {addr : UInt16} (ha : addr ≠ 13) (h0 : addr ≠ 0) :
    (ram.write 0 sp).read addr = ref.read addr := by
  rw [Ram.read_write_of_ne (Ne.symm h0), h addr ha]

/-- The pointers are not in the scratch cell, so operands have the same cells. -/
theorem cell (h : Alike ram ref) (static : UInt16 → UInt16) (seg : Segment) (n : UInt16) :
    seg.cell static ram n = seg.cell static ref n := by
  cases seg <;> simp only [Segment.cell] <;> rw [h _ (by decide)]

end Alike

/-! ## Commands -/

theorem withAddress_ok {address : Except CommandError (List Emission)} {rest : List Emission → List Emission}
    (h : (withAddress address rest).error = none) :
    ∃ steps, address = .ok steps ∧ (withAddress address rest).steps = rest steps := by
  cases address with
  | error e => cases h
  | ok steps => exact ⟨steps, rfl, rfl⟩

/-- The steps of a push that compiles. -/
theorem lower_push {unit : String} {seg : Segment} {m : UInt16} (hs : seg ≠ .stack)
    (h : Accepted unit (.push seg m)) (n : Nat) : ∃ address, Resolved unit seg m address ∧
      (lower unit n (.push seg m)).steps =
        address ++ [assign .toD (.y (if seg = .constant then .a else .m))] ++ pushD := by
  cases seg with
  | stack => exact absurd rfl hs
  | _ =>
    obtain ⟨address, ha, hsteps⟩ := withAddress_ok h
    exact ⟨address, resolved_of_resolve hs ha, hsteps⟩

/-- The steps of a pop that compiles. -/
theorem lower_pop {unit : String} {seg : Segment} {m : UInt16} (hs : seg ≠ .stack)
    (h : Accepted unit (.pop seg m)) (n : Nat) : ∃ address, Resolved unit seg m address ∧
      (lower unit n (.pop seg m)).steps =
        if seg.policy.staged then address ++ [assign .toD (.y .a), pointSymbol scratch, assign .toM .d] ++ popD ++
          [pointDeref scratch, assign .toM .d]
        else popD ++ (address ++ [assign .toM .d]) := by
  cases seg with
  | stack => exact absurd rfl hs
  | constant => cases h
  | _ =>
    obtain ⟨address, ha, hsteps⟩ := withAddress_ok h
    exact ⟨address, resolved_of_resolve hs ha, by first | exact hsteps | exact congrArg (popD ++ ·) hsteps⟩

/-- Whether the pass over steps goes from memory like `ref` to memory like `ref'`, with a word in the
address register at both ends. -/
def Leads (place : String → Place) (steps : List Emission) (ref ref' : Ram) : Prop :=
  ∀ a d ram, Alike ram ref → ∃ a' d' ram', exec place (.running ⟨.word a, d, ram⟩) steps =
    .running ⟨.word a', d', ram'⟩ ∧ Alike ram' ref'

section

variable {unit : String} {labels : List String} {static : UInt16 → UInt16} {place : String → Place} {ref : Ram}

theorem leads_push (hp : Places unit labels static place) {seg : Segment} {m : UInt16} (hs : seg ≠ .stack)
    (hacc : Accepted unit (.push seg m)) (hsafe : Command.Safe static ref (.push seg m)) (n : Nat) :
    Leads place (lower unit n (.push seg m)).steps ref (Command.exec static ref (.push seg m)) := by
  intro a d ram hlike
  obtain ⟨address, hres, hsteps⟩ := lower_push hs hacc n
  have hread (hc : seg ≠ .constant) := hsafe.2 (seg.cell static ref m) (by simp [Command.reads, hc])
  have hvalue : (if seg = .constant then m else ram.read (seg.cell static ram m)) =
      if seg = .constant then m else ref.read (seg.cell static ref m) := by
    split
    · rfl
    · rename_i hc
      rw [hlike.cell, hlike _ (hread hc).2.1]
  rw [hsteps, exec_push hp hres (fun hc => by rw [hlike.cell]; exact (hread hc).1)
    (by rw [hlike.sp]; exact hsafe.1), hvalue]
  exact ⟨_, _, _, rfl, hlike.push _⟩

theorem leads_pop (hp : Places unit labels static place) {seg : Segment} {m : UInt16} (hs : seg ≠ .stack)
    (hacc : Accepted unit (.pop seg m)) (hsafe : Command.Safe static ref (.pop seg m)) (n : Nat) :
    Leads place (lower unit n (.pop seg m)).steps ref (Command.exec static ref (.pop seg m)) := by
  intro a d ram hlike
  obtain ⟨address, hres, hsteps⟩ := lower_pop hs hacc n
  have hdest : (seg.cell static ref m).toNat < ramSize := hsafe.1
  have hread := hsafe.2 (ref.read 0 - 1) (by simp [Command.reads])
  have htop : (ram.read 0 - 1).toNat < ramSize := by
    rw [hlike.sp]
    exact hread.1
  rw [hsteps]
  cases hst : seg.policy.staged with
  | true =>
    have hpark := hlike.park (seg.cell static ref m)
    rw [if_pos rfl, exec_pop_staged hp hres (by rw [hlike.cell]; exact hdest) htop, hlike.cell, hlike.sp,
      hpark _ hread.2.1]
    exact ⟨_, _, _, rfl, hpark.drop.write _ _⟩
  | false =>
    -- the stack pointer decides no cell of the segments that are not staged
    have hcell : seg.cell static (dropValue ram) m = seg.cell static ref m := by
      cases seg with
      | temp | static | constant => rfl
      | stack => exact absurd rfl hs
      | locals | argument | this | that | pointer => cases hst
    rw [if_neg (by decide), exec_pop_unstaged hp hres hst (by rw [hcell]; exact hdest) htop, hcell, hlike.sp,
      hlike _ hread.2.1]
    exact ⟨_, _, _, rfl, hlike.drop.write _ _⟩

/-- An operation puts its result into a cell and then moves the stack pointer. -/
theorem alike_result {ram : Ram} (h : ∀ addr, addr ≠ 13 → addr ≠ 0 → ram.read addr = ref.read addr)
    (slot v sp : UInt16) : Alike ((ram.write slot v).write 0 sp) ((ref.write slot v).write 0 sp) := by
  intro addr ha
  by_cases h0 : addr = 0
  · rw [h0, Ram.read_write_self zero_lt_ramSize, Ram.read_write_self zero_lt_ramSize]
  · rw [Ram.read_write_of_ne (Ne.symm h0), Ram.read_write_of_ne (Ne.symm h0), Ram.read_write, Ram.read_write,
      h addr ha h0]

theorem leads_unary (hp : Places unit labels static place) {op : Op} (hu : op.unary = true)
    (hsafe : Command.Safe static ref (.arith op)) (n : Nat) :
    Leads place (lower unit n (.arith op)).steps ref (Command.exec static ref (.arith op)) := by
  intro a d ram hlike
  have hread := hsafe.2 (ref.read 0 - 1) (by simp [Command.reads, hu])
  have hslot : ref.read 0 - 1 ≠ 0 := hread.2.2 rfl
  have hvalue : ram.read (ref.read 0 - 1) = ref.read (ref.read 0 - 1) := hlike _ hread.2.1
  simp only [lower, exec_append]
  rw [exec_popD hp.sp, hlike.sp, if_pos hread.1, hvalue,
    exec_operate_unary hu _ 0 (ref.read (ref.read 0 - 2)), exec_pushD hp.sp, Ram.read_write_self zero_lt_ramSize,
    if_pos hread.1, Ram.read_write_of_ne hslot, Ram.read_write_self zero_lt_ramSize, UInt16.sub_add_cancel]
  refine ⟨_, _, _, rfl, fun addr ha => ?_⟩
  rw [alike_result (fun addr => hlike.move _) _ _ _ addr ha, Command.exec]
  simp only [hu, if_true]
  by_cases h0 : addr = 0
  · rw [h0, Ram.read_write_self zero_lt_ramSize, Ram.read_write_of_ne hslot]
  · rw [Ram.read_write_of_ne (Ne.symm h0)]

theorem leads_binary (hp : Places unit labels static place) {op : Op} (hu : op.unary = false)
    (hsafe : Command.Safe static ref (.arith op)) {n : Nat}
    (hl : op.compares = true → ∀ name ∈ (CompareLabels.make unit n).toList, name ∈ labels) :
    Leads place (lower unit n (.arith op)).steps ref (Command.exec static ref (.arith op)) := by
  intro a d ram hlike
  have hy := hsafe.2 (ref.read 0 - 1) (by simp [Command.reads, hu])
  have hx := hsafe.2 (ref.read 0 - 2) (by simp [Command.reads, hu])
  have hslot : ref.read 0 - 2 ≠ 0 := hx.2.2 rfl
  have hvalue : ram.read (ref.read 0 - 1) = ref.read (ref.read 0 - 1) := hlike _ hy.2.1
  -- what the operation finds in memory: the pointer one lower, and maybe a word in the scratch cell
  have hother : ∀ addr, addr ≠ 13 → addr ≠ 0 →
      (parked op (ref.read (ref.read 0 - 1)) (ram.write 0 (ref.read 0 - 1))).read addr = ref.read addr := by
    intro addr ha h0
    unfold parked
    split
    · rw [Ram.read_write_of_ne (Ne.symm ha), hlike.move _ ha h0]
    · exact hlike.move _ ha h0
  rw [exec_arith_binary hp hu hl (by rw [hlike.sp]; exact hy.1) (by rw [hlike.sp]; exact hx.1)
    (by rw [hlike.sp]; exact hslot), dropValue, hlike.sp, hvalue, hother _ hx.2.1 hslot]
  simp only [Command.exec, hu, Bool.false_eq_true, if_false, dropValue, Ram.read_write_of_ne hslot]
  refine ⟨_, _, _, rfl, alike_result (fun addr ha h0 => ?_) _ _ _⟩
  rw [Ram.read_write_of_ne (Ne.symm h0), hother addr ha h0]

theorem leads_command (hp : Places unit labels static place) {cmd : Command} (hseg : cmd.segment? ≠ some .stack)
    (hacc : Accepted unit cmd) (hsafe : cmd.Safe static ref) {n : Nat}
    (hl : cmd.compares = true → ∀ name ∈ (CompareLabels.make unit n).toList, name ∈ labels) :
    Leads place (lower unit n cmd).steps ref (cmd.exec static ref) := by
  cases cmd with
  | push seg m => exact leads_push hp (fun h => hseg (congrArg some h)) hacc hsafe n
  | pop seg m => exact leads_pop hp (fun h => hseg (congrArg some h)) hacc hsafe n
  | arith op =>
    cases hu : op.unary with
    | true => exact leads_unary hp hu hsafe n
    | false => exact leads_binary hp hu hsafe hl

theorem Leads.append {steps more : List Emission} {ref' ref'' : Ram} (h : Leads place steps ref ref')
    (h' : Leads place more ref' ref'') : Leads place (steps ++ more) ref ref'' := by
  intro a d ram hlike
  obtain ⟨a1, d1, ram1, hexec, hlike⟩ := h a d ram hlike
  obtain ⟨a2, d2, ram2, hexec', hlike⟩ := h' a1 d1 ram1 hlike
  exact ⟨a2, d2, ram2, by rw [exec_append, hexec, hexec'], hlike⟩

theorem leads_lowerAll {n : Nat} {cmds : List Command}
    (hp : Places unit (stepLabels (lowerAll unit n cmds)) static place)
    (hseg : ∀ cmd ∈ cmds, cmd.segment? ≠ some .stack) (hacc : ∀ cmd ∈ cmds, Accepted unit cmd)
    (hsafe : Command.SafeAll static ref cmds) :
    Leads place (lowerAll unit n cmds) ref (Command.execAll static ref cmds) := by
  induction cmds generalizing n ref with
  | nil => exact fun a d ram hlike => ⟨a, d, ram, rfl, hlike⟩
  | cons cmd cmds ih =>
    have hshape := shape_lower unit n cmd
    rw [lowerAll, stepLabels_append, hshape.stepLabels] at hp
    rw [List.forall_mem_cons] at hseg hacc
    refine (leads_command hp hseg.1 hacc.1 hsafe.1 fun hc name hn => ?_).append
      (ih (hp.mono fun name hn => List.mem_append_right _ hn) hseg.2 hacc.2 hsafe.2)
    exact List.mem_append_left _ (by rw [hc]; exact hn)

end

/-! ## Texts -/

/-- Where the pass over commands goes on to the end, the run halts with the memory of the pass. -/
theorem run_of_exec {unit : String} {cmds : List Command} {p : Program}
    (h : p.Holds (linesFrom none (lowerAll unit 0 cmds))) {a d : UInt16} {ram : Ram} {s : Snapshot}
    (hexec : exec p.place (.running ⟨.word a, d, ram⟩) (lowerAll unit 0 cmds) = .running s) {limit : Nat}
    (hlimit : p.words.size ≤ limit) :
    let r := p.run limit ⟨a, d, 0, ram⟩
    r.fault = none ∧ p.halted r.machine = true ∧ r.machine.ram = s.ram := by
  have hend := h.endsLike_run (settled_linesFrom h a d ram) hlimit
  rw [run_linesFrom_lowerAll, hexec] at hend
  obtain ⟨hfault, hhalt, hm⟩ := hend
  exact ⟨hfault, hhalt, hm.ram⟩

/-- A text that compiles and loads runs like its commands. The scratch cell is the compiled code's own, so its
value at the end is left open and nothing may be read from it; and an operand in the cell of the stack
pointer would change while its command counts down to it. -/
theorem run_compileText {name text : String} (hu : Symbol.isSymbol name.toList = true) {code : Code}
    (hc : compileText name text = .ok code) {p : Program} (hp : Program.parse code.text = .ok p) :
    ∃ cmds, commands (Source.ofText name text) = .ok cmds ∧
      ∀ (a d : UInt16) (ram : Ram), Command.SafeAll (staticCell p name) ram cmds →
        ∀ limit, p.words.size ≤ limit →
          let r := p.run limit ⟨a, d, 0, ram⟩
          r.fault = none ∧ p.halted r.machine = true ∧
            ∀ addr, addr ≠ 13 →
              r.machine.ram.read addr = (Command.execAll (staticCell p name) ram cmds).read addr := by
  obtain ⟨cmds, hcmds, hacc, hls⟩ := compile_ok hc
  have htext : code.text = Lines.text (linesFrom none (lowerAll name 0 cmds)) := congrArg Lines.text hls
  rw [htext] at hp
  have h : p.Holds (linesFrom none (lowerAll name 0 cmds)) := holds_of_parse_linesFrom hu hp
  refine ⟨cmds, hcmds, fun a d ram hsafe limit hlimit => ?_⟩
  have hplaces := places_of_holds h (labels_linesFrom none _)
  obtain ⟨a', d', ram', hexec, hlike⟩ :=
    leads_lowerAll hplaces (Command.segment?_of_mapM_parse hcmds) hacc hsafe a d ram (Alike.refl ram)
  obtain ⟨hfault, hhalt, hram⟩ := run_of_exec h hexec hlimit
  refine ⟨hfault, hhalt, fun addr ha => ?_⟩
  rw [hram]
  exact hlike addr ha

/-- Two constants compared: the smaller one is below. -/
theorem run_compileText_lt : ∃ code p, compileText "Main" "push constant 7\npush constant 8\nlt" = .ok code ∧
    Program.parse code.text = .ok p ∧
      let r := p.run p.words.size ⟨0, 0, 0, Ram.zero.write 0 256⟩
      r.fault = none ∧ p.halted r.machine = true ∧ r.machine.ram.read 256 = 0xFFFF := by
  have hu : Symbol.isSymbol "Main".toList = true := by decide
  obtain ⟨code, hc⟩ : ∃ code, compileText "Main" "push constant 7\npush constant 8\nlt" = .ok code := ⟨_, rfl⟩
  have hcmds : commands (.ofText "Main" "push constant 7\npush constant 8\nlt") =
    .ok [.push .constant 7, .push .constant 8, .arith .lt] := rfl
  obtain ⟨cmds, h, -, hls⟩ := compile_ok hc
  cases hcmds.symm.trans h
  obtain ⟨p, hp⟩ : ∃ p, Program.parse code.text = .ok p := by
    rw [show code.text = _ from congrArg Lines.text hls]
    exact exists_parse_linesFrom hu (by decide)
  obtain ⟨cmds, h, hrun⟩ := run_compileText hu hc hp
  cases hcmds.symm.trans h
  have hsafe : Command.SafeAll (staticCell p "Main") (Ram.zero.write 0 256)
      [.push .constant 7, .push .constant 8, .arith .lt] := by
    simp [Command.SafeAll, Command.Safe, Command.exec, Command.reads, Command.target, pushValue, Ram.read_write,
      Command.operates, Op.unary, ramSize]
  obtain ⟨hfault, hhalt, hram⟩ := hrun 0 0 _ hsafe p.words.size (Nat.le_refl _)
  refine ⟨code, p, hc, hp, hfault, hhalt, (hram 256 (by decide)).trans ?_⟩
  simp [Command.execAll, Command.exec, pushValue, dropValue, Op.unary, Op.eval, Ram.read_write, ramSize]
  rfl

/-! ## Why the conditions -/

section

variable {unit : String} {p : Program} {a d : UInt16} {ram : Ram} {limit : Nat}

/-- A staged pop leaves the address of its destination in the scratch cell, where the reference machine
leaves what was there. -/
theorem run_pop_scratch {seg : Segment} {m : UInt16} (hs : seg ≠ .stack) (hacc : Accepted unit (.pop seg m))
    (hst : seg.policy.staged = true) (h : p.Holds (linesFrom none (lowerAll unit 0 [.pop seg m])))
    (hcell : (seg.cell (staticCell p unit) ram m).toNat < ramSize) (hne : seg.cell (staticCell p unit) ram m ≠ 13)
    (htop : (ram.read 0 - 1).toNat < ramSize) (hlimit : p.words.size ≤ limit) :
    (p.run limit ⟨a, d, 0, ram⟩).machine.ram.read 13 = seg.cell (staticCell p unit) ram m ∧
      (Command.exec (staticCell p unit) ram (.pop seg m)).read 13 = ram.read 13 := by
  obtain ⟨address, hres, hsteps⟩ := lower_pop hs hacc 0
  have hplaces := places_of_holds h (labels_linesFrom none _)
  have hlower : lowerAll unit 0 [.pop seg m] = (lower unit 0 (.pop seg m)).steps := List.append_nil _
  rw [hst, if_pos rfl, ← hlower] at hsteps
  have hexec := exec_pop_staged (q := .word a) (d := d) hplaces hres hcell htop
  rw [← hsteps] at hexec
  constructor
  · rw [(run_of_exec h hexec hlimit).2.2, Ram.read_write_of_ne hne, dropValue, Ram.read_write_of_ne (by decide),
      Ram.read_write_self scratch_lt_ramSize]
  · rw [Command.exec, Ram.read_write_of_ne hne, dropValue, Ram.read_write_of_ne (by decide)]

/-- An operation whose operand is the stack pointer leaves one more there than the reference machine: the
result takes the place of the pointer and is then moved like it. -/
theorem run_unary_stackPointer {op : Op} (hop : op.unary = true)
    (h : p.Holds (linesFrom none (lowerAll unit 0 [.arith op]))) (hsp : ram.read 0 = 1)
    (hlimit : p.words.size ≤ limit) :
    (p.run limit ⟨a, d, 0, ram⟩).machine.ram.read 0 =
      (Command.exec (staticCell p unit) ram (.arith op)).read 0 + 1 := by
  have hplaces := places_of_holds h (labels_linesFrom none _)
  generalize hv : op.eval (ram.read 0xFFFF) 1 = v
  have hexec : exec p.place (.running ⟨.word a, d, ram⟩) (lowerAll unit 0 [.arith op]) =
      .running ⟨.word 0, v, pushValue (ram.write 0 0) v⟩ := by
    simp only [lowerAll, lower, List.append_nil, exec_append]
    rw [exec_popD hplaces.sp, hsp, if_pos (by decide), exec_operate_unary hop _ 0 (ram.read 0xFFFF),
      exec_pushD hplaces.sp]
    simp [pushValue, Ram.read_write, ramSize, hsp, hv]
  rw [(run_of_exec h hexec hlimit).2.2]
  simp [pushValue, Command.exec, hop, hsp, hv, Ram.read_write, ramSize]

end

end Codegen

end Hack
