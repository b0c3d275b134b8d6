/-
The cells that a command writes to: the stack pointer, the one cell that its value goes to, and for some commands
the scratch cell. All writes of a command's code go there, whatever the memory holds when the code starts: a
register that is loaded from memory to write through it is loaded from a cell that the command has itself
filled, or not yet touched. So it does not matter which of the cells are the same, nor whether the code comes to
its end.
-/
import Hack.Proofs.Codegen.Single
import Hack.Proofs.Machine.Label

namespace Hack

open Vm

/-! ## Lines that write -/

/-- Whether a line writes to memory. -/
def Line.writes : Line → Bool
  | .instr (.compute dest _ _) => dest.m
  | _ => false

/-- The name in a line, if there is one. -/
def Line.name? : Line → Option String
  | .instr (.load (.symbol name)) | .label name => some name
  | _ => none

theorem Line.Legal.isSymbol {l : Line} (h : l.Legal) {name : String} (hname : l.name? = some name) :
    Symbol.isSymbol name.toList = true := by
  match l with
  | .instr (.load (.symbol _)) | .label _ =>
    cases hname
    exact h

namespace Pass

/-- Wherever the pass reads a line that writes to memory, the address register holds one of some cells. -/
def Confined (place : String → Place) (cells : UInt16 → Prop) (f : Pass) (ls : List Line) : Prop :=
  ∀ before l after s, ls = before ++ l :: after → run place f before = .running s → l.writes = true →
    ∃ a, s.a = .word a ∧ cells a

/-- The memory of the pass, unless it is stuck. -/
def Has (ram : Ram) : Pass → Prop
  | .running s | .skipping _ s | .faulted _ s => s.ram = ram
  | .stuck => True

variable {place : String → Place} {cells : UInt16 → Prop} {f : Pass}

theorem confined_nil : Confined place cells f [] := by
  rintro before l after s he
  simp at he

theorem confined_cons {l : Line} {ls : List Line} : Confined place cells f (l :: ls) ↔
    (∀ s, f = .running s → l.writes = true → ∃ a, s.a = .word a ∧ cells a) ∧
      Confined place cells (f.step place l) ls := by
  constructor
  · intro h
    exact ⟨fun s => h [] l ls s rfl, fun before l' after s he => h (l :: before) l' after s (by rw [he]; rfl)⟩
  · rintro ⟨hl, hls⟩ before l' after s he
    cases before with
    | nil =>
      cases he
      exact hl s
    | cons b before =>
      cases he
      exact hls before l' after s rfl

theorem confined_append {ls ms : List Line} :
    Confined place cells f (ls ++ ms) ↔ Confined place cells f ls ∧ Confined place cells (run place f ls) ms := by
  induction ls generalizing f with
  | nil => simp [confined_nil]
  | cons l ls ih => rw [List.cons_append, confined_cons, confined_cons, ih, run_cons, and_assoc]

/-- Lines that do not write. -/
theorem confined_quiet {ls : List Line} (h : ∀ l ∈ ls, l.writes = false) : Confined place cells f ls := by
  rintro before l after s rfl - hl
  rw [h l (by simp)] at hl
  cases hl

theorem confined_faulted (addr : UInt16) (s : Snapshot) (ls : List Line) :
    Confined place cells (.faulted addr s) ls := by
  rintro before l after s' - hs
  rw [run_faulted] at hs
  cases hs

theorem has_compute (s : Snapshot) {dest : Dest} (hm : dest.m = false) (comp : Comp) (jump : Jump) :
    (s.compute dest comp jump).Has s.ram := by
  obtain ⟨a, d, ram⟩ := s
  unfold Snapshot.compute
  simp only [hm, Bool.false_eq_true, if_false]
  cases a with
  | word a =>
    dsimp only
    split
    · rfl
    · split
      · trivial
      · rfl
  | label name =>
    dsimp only
    split
    · trivial
    · split <;> rfl

theorem Has.step {ram : Ram} (h : f.Has ram) {l : Line} (hl : l.writes = false) : (f.step place l).Has ram := by
  match f, l with
  | .running s, .instr (.load (.number n)) => exact h
  | .running s, .instr (.load (.symbol name)) => exact h
  | .running s, .instr (.compute dest comp jump) =>
    have hs : s.ram = ram := h
    rw [← hs]
    exact has_compute s hl comp jump
  | .running s, .label name => exact h
  | .skipping name s, .instr i => exact h
  | .skipping name s, .label other =>
    change (if other = name then Pass.running s else .skipping name s).Has ram
    split <;> exact h
  | .faulted addr s, l => exact h
  | .stuck, l => trivial

/-- Lines that do not write keep the memory. -/
theorem Has.run {ram : Ram} (h : f.Has ram) {ls : List Line} (hq : ∀ l ∈ ls, l.writes = false) :
    (run place f ls).Has ram := by
  induction ls generalizing f with
  | nil => exact h
  | cons l ls ih =>
    exact ih (h.step (hq l List.mem_cons_self)) fun l' hl' => hq l' (List.mem_cons_of_mem l hl')

end Pass

namespace Codegen

/-! ## Blocks that write -/

/-- Whether a step writes to memory. -/
def Emission.writes : Emission → Bool
  | .point _ => false
  | .line l => l.writes

theorem Emission.writes_plain {s : Emission} (h : s.writes = false) : ∀ l ∈ s.plain, l.writes = false := by
  match s with
  | .line l =>
    rintro l' hl'
    rw [List.mem_singleton.1 hl']
    exact h
  | .point (.direct v) => simp [plain, Line.load, Line.writes]
  | .point (.deref name) => simp [plain, Line.load, Line.assign, Line.writes, Dest.toA]

/-- Whether no step writes to memory. -/
def quiet (steps : List Emission) : Bool := steps.all fun s => !s.writes

/-- Wherever the pass over the plain lines of steps comes to a write, the cell is one of some cells. -/
def Confined (place : String → Place) (cells : UInt16 → Prop) (f : Pass) (steps : List Emission) : Prop :=
  f.Confined place cells (plainLines steps)

section

variable {place : String → Place} {cells : UInt16 → Prop} {f : Pass} {steps more : List Emission} {q : Place}
  {d : UInt16} {ram : Ram}

theorem confined_append : Confined place cells f (steps ++ more) ↔
    Confined place cells f steps ∧ Confined place cells (exec place f steps) more := by
  rw [Confined, plainLines_append, Pass.confined_append]
  rfl

theorem confined_cons {s : Emission} : Confined place cells f (s :: steps) ↔
    Confined place cells f [s] ∧ Confined place cells (exec place f [s]) steps := by
  rw [← confined_append, List.singleton_append]

theorem writes_plainLines (h : quiet steps = true) : ∀ l ∈ plainLines steps, l.writes = false := by
  intro l hl
  obtain ⟨s, hs, hl⟩ := List.mem_flatMap.1 hl
  have hs := List.all_eq_true.1 h s hs
  exact Emission.writes_plain (by simpa using hs) l hl

theorem confined_quiet (h : quiet steps = true) : Confined place cells f steps :=
  Pass.confined_quiet (writes_plainLines h)

theorem has_exec (hf : f.Has ram) (h : quiet steps = true) : (exec place f steps).Has ram :=
  hf.run (writes_plainLines h)

theorem confined_write (h : ∀ s, f = .running s → ∃ a, s.a = .word a ∧ cells a) (comp : Comp) :
    Confined place cells f [assign .toM comp] :=
  Pass.confined_cons.2 ⟨fun s hs _ => h s hs, Pass.confined_nil⟩

/-- A write to the cell of a symbol. -/
theorem confined_symbol {name : String} {a : UInt16} (hname : place name = .word a) (ha : cells a) (comp : Comp) :
    Confined place cells f [pointSymbol name, assign .toM comp] := by
  refine confined_cons.2 ⟨confined_quiet rfl, confined_write (fun s hs => ?_) comp⟩
  match f with
  | .running s' =>
    cases hs
    exact ⟨a, hname, ha⟩

theorem deref_running {name : String} {a : UInt16} (hname : place name = .word a) (hf : f.Has ram) {s : Snapshot}
    (hs : exec place f [pointDeref name] = .running s) : s.a = .word (ram.read a) := by
  match f with
  | .running ⟨q, d, ram'⟩ =>
    obtain rfl : ram' = ram := hf
    change exec place _ [pointSymbol name, assign .toA (.y .m)] = _ at hs
    rw [exec_symbol hname] at hs
    by_cases ha : a.toNat < ramSize
    · rw [exec_toA ha] at hs
      cases hs
      rfl
    · rw [exec_fault rfl ha] at hs
      cases hs
  | .skipping _ _ | .faulted _ _ | .stuck => cases hs

/-- A write to the cell whose address is in the cell of a symbol. -/
theorem confined_deref {name : String} {a : UInt16} (hname : place name = .word a) (hf : f.Has ram)
    (ha : cells (ram.read a)) (comp : Comp) : Confined place cells f [pointDeref name, assign .toM comp] := by
  refine confined_cons.2 ⟨confined_quiet rfl, ?_⟩
  exact confined_write (fun s hs => ⟨_, deref_running hname hf hs, ha⟩) comp

theorem confined_popD (hsp : place Symbol.sp = .word 0) (h0 : cells 0) : Confined place cells f popD := by
  rw [popD, confined_append]
  exact ⟨confined_quiet rfl, confined_symbol hsp h0 _⟩

theorem confined_pushD (hsp : place Symbol.sp = .word 0) (h0 : cells 0) (hf : f.Has ram) (hs : cells (ram.read 0)) :
    Confined place cells f pushD := by
  change Confined place cells f ([pointDeref Symbol.sp, assign .toM .d] ++ [pointSymbol Symbol.sp, assign .toM (.succY .m)])
  rw [confined_append]
  exact ⟨confined_deref hsp hf hs _, confined_symbol hsp h0 _⟩

theorem confined_operate (hsp : place Symbol.sp = .word 0) (hsc : place scratch = .word 13) (h0 : cells 0) {op : Op}
    (h13 : op.compares = true → cells 13) (labels : CompareLabels) : Confined place cells f (operate labels op) := by
  have hbinary (comp : Comp) : Confined place cells f (binary comp) := by
    rw [binary, confined_append]
    exact ⟨confined_quiet rfl, confined_symbol hsp h0 _⟩
  have hcompare (h : cells 13) (jump : Jump) : Confined place cells f (compare jump labels) := by
    rw [compare, confined_append, confined_append]
    refine ⟨⟨?_, confined_quiet rfl⟩, confined_symbol hsp h0 _⟩
    -- the right operand is put into the scratch cell first
    simp only [order, List.append_assoc]
    exact confined_append.2 ⟨confined_symbol hsc h _, confined_quiet rfl⟩
  cases op with
  | neg | not => exact confined_quiet rfl
  | add | sub | and | or => exact hbinary _
  | eq | gt | lt => exact hcompare (h13 rfl) _

end

/-- The lines that are emitted write where the plain lines write. -/
theorem Knows.confined_linesFrom {place : String → Place} {cells : UInt16 → Prop} {cursor : Option Target} {f : Pass}
    (h : Knows place cursor f) {steps : List Emission} (hs : FreshFrom cursor steps)
    (hf : Confined place cells f steps) : f.Confined place cells (linesFrom cursor steps) := by
  induction steps generalizing cursor f with
  | nil => exact Pass.confined_nil
  | cons s steps ih =>
    rw [Confined, plainLines_cons, Pass.confined_append] at hf
    have h0 : Knows place cursor (Pass.run place f []) := h
    have hnext := ((knows_invariant place f).step h0 s).2
    rw [List.nil_append] at hnext
    rw [linesFrom_cons, Pass.confined_append]
    refine ⟨?_, ih hnext hs.2 ?_⟩
    · match s with
      | .line l => exact hf.1
      | .point target =>
        -- of a load only loads are left
        have hquiet : quiet [.point target] = true := rfl
        have hsub := linesFrom_sublist cursor [.point target]
        exact Pass.confined_quiet fun l hl => writes_plainLines hquiet l (hsub.subset (by simpa using hl))
    · rw [h.run_appends hs.1]
      exact hf.2

/-! ## Footprints -/

end Codegen

/-- The cell that a command's value goes to. -/
def Vm.Command.slot (static : UInt16 → UInt16) (ram : Ram) : Command → UInt16
  | .push .stack _ | .pop .stack _ => ram.read 0 - 1
  | cmd => cmd.target static ram

/-- Whether a command keeps something in the scratch cell. -/
def Vm.Command.parks : Command → Bool
  | .push _ _ => false
  | .pop seg _ => seg.policy.staged
  | .arith op => op.compares

/-- The cells that a command writes to. -/
def Vm.Command.footprint (static : UInt16 → UInt16) (ram : Ram) (cmd : Command) : List UInt16 :=
  [0, cmd.slot static ram] ++ if cmd.parks then [13] else []

theorem Vm.Command.mem_footprint {static : UInt16 → UInt16} {ram : Ram} {cmd : Command} {a : UInt16} :
    a ∈ cmd.footprint static ram ↔ a = 0 ∨ a = cmd.slot static ram ∨ (cmd.parks = true ∧ a = 13) := by
  unfold footprint
  split <;> simp_all

example (static : UInt16 → UInt16) (ram : Ram) (n : UInt16) :
    (Command.pop .argument n).footprint static ram = [0, ram.read 2 + n, 13] := rfl

example (static : UInt16 → UInt16) (ram : Ram) (n : UInt16) :
    (Command.pop .static n).footprint static ram = [0, static n] := rfl

example (static : UInt16 → UInt16) (ram : Ram) :
    (Command.arith .lt).footprint static ram = [0, ram.read 0 - 2, 13] := rfl

theorem Vm.Command.slot_push {static : UInt16 → UInt16} {ram : Ram} {seg : Segment} (hs : seg ≠ .stack) (n : UInt16) :
    (push seg n).slot static ram = ram.read 0 := by
  cases seg <;> first | rfl | exact absurd rfl hs

theorem Vm.Command.slot_pop {static : UInt16 → UInt16} {ram : Ram} {seg : Segment} (hs : seg ≠ .stack) (n : UInt16) :
    (pop seg n).slot static ram = seg.cell static ram n := by
  cases seg <;> first | rfl | exact absurd rfl hs

namespace Codegen

section

variable {unit : String} {labels : List String} {static : UInt16 → UInt16} {place : String → Place}
  {cells : UInt16 → Prop} {q : Place} {d : UInt16} {ram : Ram}

/-- The steps of an address do not write. -/
theorem Resolved.quiet {seg : Segment} {n : UInt16} {address : List Emission} (h : Resolved unit seg n address) :
    Codegen.quiet address = true := by
  cases h <;> rfl

/-- What comes behind a pop into D starts with the value dropped. -/
theorem confined_popD_append (hp : Places unit labels static place) (h0 : cells 0) {rest : List Emission}
    (h : ∀ v, Confined place cells (.running ⟨.word 0, v, dropValue ram⟩) rest) :
    Confined place cells (.running ⟨q, d, ram⟩) (popD ++ rest) := by
  refine confined_append.2 ⟨confined_popD hp.sp h0, ?_⟩
  rw [exec_popD hp.sp]
  split
  · exact h _
  · exact Pass.confined_faulted _ _ _

theorem read_dropValue (ram : Ram) : (dropValue ram).read 0 = ram.read 0 - 1 :=
  Ram.read_write_self zero_lt_ramSize _

theorem confined_again (hp : Places unit labels static place) (h0 : cells 0) (hslot : cells (ram.read 0 - 1)) :
    Confined place cells (.running ⟨q, d, ram⟩) (popD ++ pushD) :=
  confined_popD_append hp h0 fun _ => confined_pushD hp.sp h0 rfl (by rwa [read_dropValue])

theorem confined_push (hp : Places unit labels static place) (h0 : cells 0) (hslot : cells (ram.read 0)) {seg : Segment}
    {n : UInt16} {address : List Emission} (h : Resolved unit seg n address) (i : Input) :
    Confined place cells (.running ⟨q, d, ram⟩) (address ++ [assign .toD (.y i)] ++ pushD) := by
  have hquiet : quiet (address ++ [assign .toD (.y i)]) = true := by
    rw [quiet, List.all_append]
    exact Bool.and_eq_true_iff.2 ⟨h.quiet, rfl⟩
  have hram : Pass.Has ram (.running ⟨q, d, ram⟩) := rfl
  exact confined_append.2 ⟨confined_quiet hquiet, confined_pushD hp.sp h0 (has_exec hram hquiet) hslot⟩

/-- A staged pop finds in the scratch cell the destination that it has put there. -/
theorem confined_pop_staged (hp : Places unit labels static place) (h0 : cells 0) (h13 : cells 13) {seg : Segment}
    {n : UInt16} {address : List Emission} (h : Resolved unit seg n address) (hslot : cells (seg.cell static ram n)) :
    Confined place cells (.running ⟨q, d, ram⟩) (address ++ [assign .toD (.y .a), pointSymbol scratch, assign .toM .d] ++
      popD ++ [pointDeref scratch, assign .toM .d]) := by
  obtain ⟨d1, haddr, -⟩ := exec_resolved hp h q d ram
  rw [List.append_assoc, List.append_assoc, confined_append, confined_append, haddr, exec_park hp.scratch]
  refine ⟨confined_quiet h.quiet, ?_, confined_popD_append hp h0 fun v => ?_⟩
  · exact confined_cons.2 ⟨confined_quiet rfl, confined_symbol hp.scratch h13 _⟩
  · have hram : Pass.Has (dropValue (ram.write 13 (seg.cell static ram n)))
        (.running ⟨.word 0, v, dropValue (ram.write 13 (seg.cell static ram n))⟩) := rfl
    refine confined_deref hp.scratch hram ?_ _
    rwa [read_scratch_parked]

/-- A write to the cell of an address. -/
theorem confined_store (hp : Places unit labels static place) {seg : Segment} {n : UInt16} {address : List Emission}
    (h : Resolved unit seg n address) (hslot : cells (seg.cell static ram n)) :
    Confined place cells (.running ⟨q, d, ram⟩) (address ++ [assign .toM .d]) := by
  refine confined_append.2 ⟨confined_quiet h.quiet, confined_write (fun s hs => ?_) _⟩
  obtain ⟨d1, haddr, -⟩ := exec_resolved hp h q d ram
  rw [haddr] at hs
  cases hs
  exact ⟨_, rfl, hslot⟩

theorem confined_arith (hp : Places unit labels static place) (h0 : cells 0) {op : Op}
    (h13 : op.compares = true → cells 13) {n : Nat}
    (hl : op.compares = true → ∀ name ∈ (CompareLabels.make unit n).toList, name ∈ labels)
    (hslot : cells (if op.unary then ram.read 0 - 1 else ram.read 0 - 2)) :
    Confined place cells (.running ⟨q, d, ram⟩) (popD ++ operate (.make unit n) op ++ pushD) := by
  rw [List.append_assoc]
  refine confined_popD_append hp h0 fun v => confined_append.2 ⟨confined_operate hp.sp hp.scratch h0 h13 _, ?_⟩
  cases hu : op.unary with
  | true =>
    rw [exec_operate_unary hu _ 0 0 v]
    rw [hu, if_pos rfl] at hslot
    exact confined_pushD hp.sp h0 rfl (by rwa [read_dropValue])
  | false =>
    rw [exec_operate_binary hp hu hl]
    rw [hu, if_neg Bool.false_ne_true] at hslot
    split
    · refine confined_pushD hp.sp h0 rfl ?_
      rwa [Ram.read_write_self zero_lt_ramSize, read_dropValue, sub_one_sub_one]
    · exact Pass.confined_faulted _ _ _

theorem confined_withAddress {f : Pass} {seg : Segment} {n : UInt16} (hs : seg ≠ .stack)
    (rest : List Emission → List Emission)
    (h : ∀ address, Resolved unit seg n address → Confined place cells f (rest address)) :
    Confined place cells f (withAddress (resolve unit seg n) rest).steps := by
  cases ha : resolve unit seg n with
  | error e => exact Pass.confined_nil
  | ok address => exact h address (resolved_of_resolve hs ha)

/-- The code of a command writes to no cell but its footprint's. -/
theorem confined_lower (hp : Places unit labels static place) {n : Nat} {cmd : Command}
    (hl : cmd.compares = true → ∀ name ∈ (CompareLabels.make unit n).toList, name ∈ labels) :
    Confined place (· ∈ cmd.footprint static ram) (.running ⟨q, d, ram⟩) (lower unit n cmd).steps := by
  have h0 : 0 ∈ cmd.footprint static ram := Command.mem_footprint.2 (.inl rfl)
  have hslot : cmd.slot static ram ∈ cmd.footprint static ram := Command.mem_footprint.2 (.inr (.inl rfl))
  have h13 (h : cmd.parks = true) : 13 ∈ cmd.footprint static ram := Command.mem_footprint.2 (.inr (.inr ⟨h, rfl⟩))
  cases cmd with
  | arith op => exact confined_arith hp h0 h13 hl hslot
  | push seg m =>
    cases seg with
    | stack => exact confined_again hp h0 hslot
    | constant => exact confined_withAddress (by decide) _ fun _ h => confined_push hp h0 hslot h .a
    | _ => exact confined_withAddress (by decide) _ fun _ h => confined_push hp h0 hslot h .m
  | pop seg m =>
    cases seg with
    | stack => exact confined_again hp h0 hslot
    | constant => exact Pass.confined_nil
    | temp | static =>
      -- the destination depends on no cell, so it is the same behind the pop
      exact confined_popD_append hp h0 fun _ => confined_withAddress (by decide) _ fun _ h => confined_store hp h hslot
    | _ => exact confined_withAddress (by decide) _ fun _ h => confined_pop_staged hp h0 (h13 rfl) h hslot

end

/-! ## Names -/

/-- The numbers in generated code fit, so that its lines are legal if the names in them are symbols. -/
theorem legal_of_names {unit : String} {cursor : Option Target} {n : Nat} {cmds : List Command}
    (h : ∀ l ∈ linesFrom cursor (lowerAll unit n cmds), ∀ name, l.name? = some name →
      Symbol.isSymbol name.toList = true) :
    ∀ l ∈ linesFrom cursor (lowerAll unit n cmds), l.Legal := by
  intro l hl
  obtain ⟨s, hs, hls⟩ := List.mem_flatMap.1 ((linesFrom_sublist cursor _).subset hl)
  match l with
  | .instr (.load (.symbol name)) => exact h _ hl name rfl
  | .label name => exact h _ hl name rfl
  | .instr (.compute dest comp jump) => trivial
  | .instr (.load (.number v)) =>
    match s, fits_lowerAll unit n cmds s hs with
    | .point (.direct (.number w)), hfits =>
      cases List.mem_singleton.1 hls
      exact hfits
    | .point (.direct (.symbol name)), _ => cases List.mem_singleton.1 hls
    | .point (.deref name), _ => simp [Emission.plain, Line.load, Line.assign] at hls
    | .line l, hfits =>
      cases List.mem_singleton.1 hls
      exact hfits.elim

/-! ## Runs -/

/-- Where a pass over a part of a program is confined, a machine that follows it is. -/
theorem written?_everywhere {p : Program} {before mid after : List Line} (h : p.Holds (before ++ mid ++ after))
    {cells : UInt16 → Prop} {start : Pass} (hc : start.Confined p.place cells mid) :
    p.Everywhere before mid start fun m => ∀ a, p.written? m = some a → cells a := by
  intro done i rest s m hmid hs hm hpc a ha
  have hls : before ++ mid ++ after = (before ++ done) ++ .instr i :: (rest ++ after) := by simp [hmid]
  obtain ⟨w, hw, hi⟩ := h.word_at hls
  rw [Program.written?, hpc, hw] at ha
  match i, hi with
  | .load (.number n), hi =>
    cases hi
    cases ha
  | .load (.symbol name), hi =>
    obtain ⟨v, -, rfl⟩ := Option.map_eq_some_iff.1 hi
    cases ha
  | .compute dest comp jump, hi =>
    cases hi
    obtain ⟨hd, rfl⟩ := Option.ite_none_right_eq_some.1 ha |>.imp_right Option.some.inj
    obtain ⟨b, hb, hcell⟩ := hc done _ rest s hmid hs hd
    rw [hm.a, hb]
    exact hcell

/-- The cells that a command changes. From the start of its code a machine that agrees with the cursor goes
through the code to its end or to an access to a cell that does not exist; up to then every write is to the stack
pointer, to the cell that the command's value goes to or, where the command keeps something there, to the scratch
cell, and no other cell changes. The names in the unit's code only have to be symbols. -/
theorem run_footprint {unit : String} {earlier later : List Command} {cmd : Command}
    (hnames : ∀ l ∈ (Context.compileAll { unit } (earlier ++ cmd :: later)).emitter.output.toList,
      ∀ name, l.name? = some name → Symbol.isSymbol name.toList = true)
    {p : Program} (hp : Program.parse (Context.compileAll { unit } (earlier ++ cmd :: later)).text = .ok p) {m : Machine}
    (hpc : m.pc.toNat = Lines.size (Context.compileAll { unit } earlier).emitter.output.toList)
    (hcursor : CursorHolds p (Context.compileAll { unit } earlier).emitter.cursor m) :
    let start := Lines.size (Context.compileAll { unit } earlier).emitter.output.toList
    let stop := Lines.size (Context.compileAll { unit } (earlier ++ [cmd])).emitter.output.toList
    let slot := cmd.slot (staticCell p unit) m.ram
    ∃ steps m', p.run steps m = ⟨m', steps, none⟩ ∧
      (∀ k < steps, start ≤ (p.run k m).machine.pc.toNat ∧ (p.run k m).machine.pc.toNat < stop) ∧
      (m'.pc.toNat = stop ∨ start ≤ m'.pc.toNat ∧ m'.pc.toNat < stop ∧
        ∃ f, ∀ limit, steps < limit → p.run limit m = ⟨m', steps, some f⟩) ∧
      (∀ k < steps, ∀ a, p.written? (p.run k m).machine = some a →
        a = 0 ∨ a = slot ∨ (cmd.parks = true ∧ a = 13)) ∧
      ∀ k ≤ steps, ∀ a, a ∉ cmd.footprint (staticCell p unit) m.ram →
        (p.run k m).machine.ram.read a = m.ram.read a := by
  intro start stop slot
  have h : p.Holds (linesFrom none (lowerAll unit 0 (earlier ++ cmd :: later))) := by
    rw [Context.output_compileAll] at hnames
    rw [Context.text_compileAll] at hp
    exact Program.holds_of_parse (legal_of_names hnames) (nodup_labels_linesFrom none unit 0 _) hp
  have hplaces := places_of_holds h (labels_linesFrom _ _)
  have hshape := shape_lower unit (earlier.countP Command.compares) cmd
  -- the pass over the command's code is confined to the footprint
  have hconfined : Pass.Confined p.place (· ∈ cmd.footprint (staticCell p unit) m.ram)
      (.running ⟨.word m.a, m.d, m.ram⟩) (commandLines unit earlier cmd) :=
    (knows_command h hcursor).confined_linesFrom hshape.freshFrom
      (confined_lower hplaces fun hc name hn => mem_stepLabels_split unit earlier later hc hn)
  obtain ⟨after, hsplit⟩ := linesFrom_split unit earlier cmd later
  have hwithin := p.everywhere_within (linesFrom none (lowerAll unit 0 earlier)) (commandLines unit earlier cmd)
    (.running ⟨.word m.a, m.d, m.ram⟩)
  have hreaches := reaches_of_holds h hpc hcursor (hwithin.and (written?_everywhere (by rwa [← hsplit]) hconfined))
  rw [← size_earlier, ← size_concat] at hreaches
  obtain ⟨m', hwalks, hend⟩ := hreaches.ends
  obtain ⟨steps, hrun, hall⟩ := hwalks.exists_run
  refine ⟨steps, m', hrun, fun k hk => (hall k hk).1, ?_, fun k hk a ha => Command.mem_footprint.1 ((hall k hk).2 a ha),
    fun k hk a ha => Program.run_frame fun j hj hw => ha ((hall j (Nat.lt_of_lt_of_le hj hk)).2 a hw)⟩
  rcases hend with hstop | ⟨⟨hbounds, -⟩, f, hf⟩
  · exact .inl hstop
  · exact .inr ⟨hbounds.1, hbounds.2, f, fun limit hlimit => Program.run_of_fault hrun hf hlimit⟩

/-- A pop whose destination is the scratch cell, behind a pop that fails with the cursor at the stack pointer. -/
theorem run_footprint_pop : ∃ p,
    Program.parse (Context.compileAll { unit := "Main" } ([.pop .temp 8] ++ .pop .locals 2 :: [.arith .eq])).text = .ok p ∧
    ∃ steps m', p.run steps ⟨0, 0, 5, (Ram.zero.write 0 15).write 1 11⟩ = ⟨m', steps, none⟩ ∧
      ∀ a, a ≠ 0 → a ≠ 13 → m'.ram.read a = ((Ram.zero.write 0 15).write 1 11).read a := by
  have hu : Symbol.isSymbol "Main".toList = true := by decide
  obtain ⟨p, hp⟩ : ∃ p, Program.parse
      (Context.compileAll { unit := "Main" } ([.pop .temp 8] ++ .pop .locals 2 :: [.arith .eq])).text = .ok p := by
    rw [Context.text_compileAll]
    exact exists_parse_linesFrom hu (by decide)
  have hnames : ∀ l ∈ (Context.compileAll { unit := "Main" }
      ([.pop .temp 8] ++ .pop .locals 2 :: [.arith .eq])).emitter.output.toList,
        ∀ name, l.name? = some name → Symbol.isSymbol name.toList = true := by
    rw [Context.output_compileAll]
    exact fun l hl _ => Line.Legal.isSymbol (legal_linesFrom hu none 0 _ l hl)
  have hpc : (5 : UInt16).toNat =
      Lines.size (Context.compileAll { unit := "Main" } [.pop .temp 8]).emitter.output.toList := by decide
  have hcursor : CursorHolds p (Context.compileAll { unit := "Main" } [.pop .temp 8]).emitter.cursor
      ⟨0, 0, 5, (Ram.zero.write 0 15).write 1 11⟩ := rfl
  have hbase : ((Ram.zero.write 0 15).write 1 11).read 1 = 11 := Ram.read_write_self (by decide) _
  obtain ⟨steps, m', hrun, -, -, -, hframe⟩ := run_footprint hnames hp hpc hcursor
  refine ⟨p, hp, steps, m', hrun, fun a h0 h13 => ?_⟩
  have hkept := hframe steps (Nat.le_refl _) a
  rw [hrun, Command.mem_footprint, Command.slot_pop (by decide), Segment.cell, hbase] at hkept
  exact hkept (by simp [h0, h13])

/-- A push onto the scratch cell. -/
theorem push_onto_scratch {p : Program}
    (hp : Program.parse (Context.compileAll { unit := "Main" } ([] ++ .push .constant 7 :: [])).text = .ok p) {ram : Ram}
    (hs : ram.read 0 = 13) : ∃ steps, (p.run steps ⟨0, 0, 0, ram⟩).machine.ram.read 13 = 7 := by
  have hu : Symbol.isSymbol "Main".toList = true := by decide
  obtain ⟨hplaces, hreaches⟩ := reaches_command (m := ⟨0, 0, 0, ram⟩) hu hp rfl trivial
  have htop : (ram.read 0).toNat < ramSize := by rw [hs]; decide
  have hpush := exec_push hplaces (q := .word 0) (d := 0) (n := 7) (Resolved.constant (by decide))
    (fun h => absurd rfl h) htop
  have hexec : exec p.place (.running ⟨.word 0, 0, ram⟩) (lower "Main" 0 (.push .constant 7)).steps =
      .running ⟨.word 0, 7, pushValue ram 7⟩ := hpush
  rw [List.countP_nil, hexec] at hreaches
  obtain ⟨m', hwalks, hm, -⟩ := hreaches
  obtain ⟨steps, hrun, -⟩ := hwalks.exists_run
  refine ⟨steps, ?_⟩
  rw [hrun, hm.ram, pushValue, hs, Ram.read_write_of_ne (by decide), Ram.read_write_self scratch_lt_ramSize]

/-- The code of a push in a unit whose name is no symbol: the name ends a load, and an assignment comes behind it. -/
def foreignLines : List Line :=
  [.load (.symbol "X"), .assign .toM .d, .assign .toD (.y .m), .load (.symbol Symbol.sp), .assign .toA (.y .m),
    .assign .toM .d, .load (.symbol Symbol.sp), .assign .toM (.succY .m)]

theorem legible_foreignLines :
    Legible (Context.compileAll { unit := "X\nM=D//" } ([] ++ .push .static 0 :: [])).text foreignLines := by
  have htext : (Context.compileAll { unit := "X\nM=D//" } ([] ++ .push .static 0 :: [])).text =
      "@X\nM=D//.0\nD=M\n@SP\nA=M\nM=D\n@SP\nM=M+1\n" := by decide
  rw [htext]
  refine ⟨?_, by decide⟩
  repeat' first | exact .nil | refine .code (by decide) (by decide) ?_

/-- The variable of the load is written to. -/
theorem write_foreign {p : Program} (h : p.Holds foreignLines) (d : UInt16) (ram : Ram) :
    ∃ steps, (p.run steps ⟨0, d, 0, ram⟩).machine.ram.read 16 = d := by
  have hplace : p.place "X" = .word 16 := by
    have hlabel : "X" ∉ p.labels := by
      rw [h.mem_labels]
      decide
    have hcell : p.vars.addresses["X"]? = some 16 := (h.vars.address "X" 16).2 ⟨0, by decide, by decide⟩
    have hfixed : Symbol.predefined? "X" = none := by decide
    simp only [Program.place, hfixed, if_neg hlabel, hcell, Option.getD_some]
  have hexec : Pass.run p.place (.running ⟨.word 0, d, ram⟩) [.load (.symbol "X"), .assign .toM .d] =
      .running ⟨.word 16, d, ram.write 16 d⟩ := by
    change exec p.place _ [pointSymbol "X", assign .toM .d] = _
    rw [exec_symbol hplace, exec_toM (by decide), exec_nil]
    rfl
  have hpart : p.Holds ([] ++ [.load (.symbol "X"), .assign .toM .d] ++ foreignLines.drop 2) := h
  have hreaches := hpart.reaches (s := ⟨.word 0, d, ram⟩) (P := fun _ => True) (fun _ _ _ _ _ _ _ _ _ => trivial)
    (m := ⟨0, d, 0, ram⟩) ⟨rfl, rfl, rfl⟩ rfl (by rw [hexec]; trivial)
  rw [hexec] at hreaches
  obtain ⟨m', hwalks, hm, -⟩ := hreaches
  obtain ⟨steps, hrun, -⟩ := hwalks.exists_run
  refine ⟨steps, ?_⟩
  rw [hrun, hm.ram, Ram.read_write_self (by decide)]

/-- A push onto the scratch cell writes to it, although it keeps nothing there; and where a unit's name is no symbol,
a push can write to a cell that is neither the stack pointer nor on top of the stack. -/
theorem run_footprint_exceptions :
    (∃ p, Program.parse (Context.compileAll { unit := "Main" } ([] ++ .push .constant 7 :: [])).text = .ok p ∧
      ∃ steps, (p.run steps ⟨0, 0, 0, Ram.zero.write 0 13⟩).machine.ram.read 13 = 7 ∧
        (Ram.zero.write 0 13).read 13 = 0 ∧ (Command.push .constant 7).parks = false) ∧
    ∃ p, Program.parse (Context.compileAll { unit := "X\nM=D//" } ([] ++ .push .static 0 :: [])).text = .ok p ∧
      ∃ steps, (p.run steps ⟨0, 5, 0, Ram.zero.write 0 256⟩).machine.ram.read 16 = 5 ∧
        (Ram.zero.write 0 256).read 16 = 0 ∧
        16 ∉ (Command.push .static 0).footprint (staticCell p "X\nM=D//") (Ram.zero.write 0 256) := by
  have hkept (a : UInt16) (h : 0 ≠ a) (v : UInt16) : (Ram.zero.write 0 v).read a = 0 := by
    rw [Ram.read_write_of_ne h, Ram.read_zero]
  constructor
  · obtain ⟨p, hp⟩ : ∃ p, Program.parse
        (Context.compileAll { unit := "Main" } ([] ++ .push .constant 7 :: [])).text = .ok p := by
      rw [Context.text_compileAll]
      exact exists_parse_linesFrom (by decide) (by decide)
    obtain ⟨steps, hsteps⟩ := push_onto_scratch hp (Ram.read_write_self zero_lt_ramSize 13)
    exact ⟨p, hp, steps, hsteps, hkept 13 (by decide) 13, rfl⟩
  · obtain ⟨p, hp, h⟩ := legible_foreignLines.exists_parse (by decide)
    obtain ⟨steps, hsteps⟩ := write_foreign h 5 (Ram.zero.write 0 256)
    refine ⟨p, hp, steps, hsteps, hkept 16 (by decide) 256, ?_⟩
    rw [Command.mem_footprint, Command.slot_push (by decide), Ram.read_write_self zero_lt_ramSize]
    decide

end Codegen

end Hack
