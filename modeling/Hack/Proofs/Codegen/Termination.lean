/-
Generated code always comes to an end, whatever memory holds. A jump goes wherever the address register
points, but every jump of a comparison comes right behind the load of one of the labels of the same
comparison, and that label is still to come. So every step moves the counter forward, and a run that may
take as many steps as the program has words reaches the program's end, or fails on the way.
-/
import Hack.Proofs.Codegen.Assembly

namespace Hack.Codegen

open Vm

/-! ## The command behind a line -/

section

variable {unit : String} {cursor : Option Target} {cmds : List Command} {before after : List Line} {l : Line}

/-- Every line of the output is one of the lines of a command. -/
theorem exists_command {n : Nat} (h : linesFrom cursor (lowerAll unit n cmds) = before ++ l :: after) :
    ∃ earlier cmd later first rest, cmds = earlier ++ cmd :: later ∧
      before = linesFrom cursor (lowerAll unit n earlier) ++ first ∧
      linesFrom (cursorFrom cursor (lowerAll unit n earlier))
        (lower unit (n + earlier.countP Command.compares) cmd).steps = first ++ l :: rest := by
  induction cmds generalizing cursor n before with
  | nil => simp [lowerAll] at h
  | cons cmd cmds ih =>
    -- a line behind those of the first command is a line of the others
    have later {more : List Line} (hbefore : before = linesFrom cursor (lower unit n cmd).steps ++ more)
        (hmore : linesFrom (cursorFrom cursor (lower unit n cmd).steps)
          (lowerAll unit (if cmd.compares then n + 1 else n) cmds) = more ++ l :: after) :
        ∃ earlier cmd' later first rest, cmd :: cmds = earlier ++ cmd' :: later ∧
          before = linesFrom cursor (lowerAll unit n earlier) ++ first ∧
          linesFrom (cursorFrom cursor (lowerAll unit n earlier))
            (lower unit (n + earlier.countP Command.compares) cmd').steps = first ++ l :: rest := by
      obtain ⟨earlier, cmd', later, first, rest, rfl, rfl, hlines⟩ := ih hmore
      have hcount : n + (cmd :: earlier).countP Command.compares =
          (if cmd.compares then n + 1 else n) + earlier.countP Command.compares := by
        rw [List.countP_cons]
        split <;> omega
      refine ⟨cmd :: earlier, cmd', later, first, rest, rfl, ?_, ?_⟩
      · rw [hbefore, lowerAll, linesFrom_append, List.append_assoc]
      · rw [hcount, lowerAll, cursorFrom_append]
        exact hlines
    rw [lowerAll, linesFrom_append] at h
    rcases List.append_eq_append_iff.1 h with ⟨more, hbefore, hmore⟩ | ⟨more, hlines, hmore⟩
    · exact later hbefore hmore
    · cases more with
      | nil =>
        rw [List.append_nil] at hlines
        exact later (hlines.symm.trans (List.append_nil _).symm) hmore.symm
      | cons l' more =>
        obtain ⟨rfl, -⟩ := List.cons.inj hmore
        exact ⟨[], cmd, cmds, before, more, rfl, rfl, hlines⟩

/-- A line that may jump belongs to a comparison. It comes right behind the load of a label that the
comparison's own lines define. -/
theorem exists_comparison {dest : Dest} {comp : Comp} {jump : Jump} (hj : jump ≠ .null)
    (h : linesFrom none (lowerAll unit 0 cmds) = before ++ .instr (.compute dest comp jump) :: after) :
    ∃ earlier op later first name, cmds = earlier ++ .arith op :: later ∧ op.compares = true ∧
      name ∈ (CompareLabels.make unit (earlier.countP Command.compares)).toList ∧
      before = linesFrom none (lowerAll unit 0 earlier) ++ (first ++ [.load (.symbol name)]) ∧
      .label name ∈ linesFrom (cursorFrom none (lowerAll unit 0 earlier))
        (lower unit (earlier.countP Command.compares) (.arith op)).steps := by
  obtain ⟨earlier, cmd, later, first, rest, hcmds, hbefore, hlines⟩ := exists_command h
  rw [Nat.zero_add] at hlines
  have hshape := shape_lower unit (earlier.countP Command.compares) cmd
  obtain ⟨name, hname, ⟨-, hprev⟩ | ⟨front, rfl⟩⟩ :=
    hshape.jumpsFrom.lines.before_jump hlines (by simpa [mayJump] using hj)
  · cases hprev
  · -- only comparisons have labels
    cases cmd with
    | push seg n => cases hname
    | pop seg n => cases hname
    | arith op =>
      cases hop : op.compares with
      | false =>
        rw [Command.compares, hop] at hname
        cases hname
      | true =>
        rw [Command.compares, hop, if_pos rfl] at hname
        refine ⟨earlier, op, later, front, name, hcmds, hop, hname, hbefore, ?_⟩
        rw [← Lines.mem_labels, labels_linesFrom, hshape.stepLabels, Command.compares, hop, if_pos rfl]
        exact hname

end

/-! ## Jumps -/

theorem Lines.size_take_le (ls : List Line) {i j : Nat} (h : i ≤ j) :
    Lines.size (ls.take i) ≤ Lines.size (ls.take j) :=
  ((List.take_sublist_take_left h).filterMap _).length_le

theorem Context.size_compileAll (unit : String) (cmds : List Command) :
    (Context.compileAll { unit } cmds).size = (linesFrom none (lowerAll unit 0 cmds)).length := by
  rw [← Context.output_compileAll, Array.length_toList]
  rfl

/-- Whether a jump from one address to another stays within the code of one comparison and goes to one
of its labels, which stands behind the jump. -/
def JumpsWithin (unit : String) (cmds : List Command) (source target : UInt16) : Prop :=
  let ls := (Context.compileAll { unit } cmds).emitter.output.toList
  ∃ earlier op later, cmds = earlier ++ .arith op :: later ∧ op.compares = true ∧
    ∃ i j instr name, ls[i]? = some (.instr instr) ∧ source.toNat = Lines.size (ls.take i) ∧
      ls[j]? = some (.label name) ∧ target.toNat = Lines.size (ls.take j) ∧
      name ∈ (CompareLabels.make unit (earlier.countP Command.compares)).toList ∧
      (Context.compileAll { unit } earlier).size ≤ i ∧ i < j ∧
      j < (Context.compileAll { unit } (earlier ++ [.arith op])).size

section

variable {unit : String} {cmds : List Command} {p : Program} {start : Snapshot} {m m' : Machine}

/-- The address register behind the load of a symbol. -/
theorem place_of_step_load {place : String → Place} {f : Pass} {name : String} {s : Snapshot}
    (h : Pass.step place f (.load (.symbol name)) = .running s) : s.a = place name := by
  match f, h with
  | .running _, h => cases h; rfl

/-- The instruction of a computing word. -/
theorem instr_of_word? {address : String → Option UInt16} {i : Instr} {dest : Dest} {comp : Comp} {jump : Jump}
    (h : i.word? address = some (.compute dest comp jump)) : i = .compute dest comp jump := by
  match i, h with
  | .compute _ _ _, h => cases h; rfl
  | .load (.symbol name), h =>
    obtain ⟨a, -, ha⟩ := Option.map_eq_some_iff.1 h
    cases ha

/-- Where the lines of a comparison stand in the output. -/
theorem split_of_label {earlier later : List Command} {op : Op} {name : String}
    (hcmds : cmds = earlier ++ .arith op :: later)
    (hmem : .label name ∈ linesFrom (cursorFrom none (lowerAll unit 0 earlier))
      (lower unit (earlier.countP Command.compares) (.arith op)).steps) :
    ∃ front back, linesFrom none (lowerAll unit 0 cmds) =
        (linesFrom none (lowerAll unit 0 earlier) ++ front) ++ .label name :: back ∧
      (linesFrom none (lowerAll unit 0 earlier) ++ front).length <
        (linesFrom none (lowerAll unit 0 (earlier ++ [.arith op]))).length := by
  obtain ⟨front, back, hlabel⟩ := List.append_of_mem hmem
  have hcomparison : linesFrom none (lowerAll unit 0 (earlier ++ [.arith op])) =
      (linesFrom none (lowerAll unit 0 earlier) ++ front) ++ .label name :: back := by
    rw [lowerAll_append, linesFrom_append, List.append_assoc, ← hlabel, Nat.zero_add, lowerAll, lowerAll,
      List.append_nil]
  have hsplit : cmds = (earlier ++ [.arith op]) ++ later := by
    rw [hcmds, List.append_assoc, List.singleton_append]
  refine ⟨front, back ++ linesFrom (cursorFrom none (lowerAll unit 0 (earlier ++ [.arith op])))
    (lowerAll unit (0 + (earlier ++ [Command.arith op]).countP Command.compares) later), ?_, ?_⟩
  · rw [hsplit, lowerAll_append, linesFrom_append, hcomparison, List.append_assoc, List.cons_append]
  · rw [hcomparison]
    simp only [List.length_append, List.length_cons]
    omega

/-- In front of a jump the address register holds the place of a later label of the same comparison. -/
theorem jumpsWithin_of_matches (h : p.Holds (linesFrom none (lowerAll unit 0 cmds))) {before after : List Line}
    {dest : Dest} {comp : Comp} {jump : Jump} (hj : jump ≠ .null)
    (hls : linesFrom none (lowerAll unit 0 cmds) = before ++ .instr (.compute dest comp jump) :: after)
    {s : Snapshot} (hr : Pass.run p.place (.running start) before = .running s) (hm : s.Matches p m)
    (hpc : m.pc.toNat = Lines.size before) (hlt : m.pc < m.a) : JumpsWithin unit cmds m.pc m.a := by
  obtain ⟨earlier, op, later, first, name, hcmds, hop, hname, hbefore, hmem⟩ := exists_comparison hj hls
  obtain ⟨front, back, hsplit, hlength⟩ := split_of_label hcmds hmem
  -- what the register holds
  have hplace : p.place name = .label name := by
    refine (places_of_holds h (labels_linesFrom _ _)).label name ?_
    rw [← labels_linesFrom none, Lines.mem_labels, hsplit]
    exact List.mem_append_right _ List.mem_cons_self
  have ha : s.a = .label name := by
    rw [hbefore, ← List.append_assoc, Pass.run_append, Pass.run_cons, Pass.run_nil] at hr
    rw [place_of_step_load hr, hplace]
  obtain ⟨a, haddress, hsize⟩ := (assembled_of_holds h).label _ name _ hsplit
  have hma : m.a.toNat = Lines.size (linesFrom none (lowerAll unit 0 earlier) ++ front) := by
    rw [hm.a, ha, Place.address, haddress, Option.getD_some, hsize]
  -- where the two lines stand in the output
  have houtput : (Context.compileAll { unit } cmds).emitter.output.toList = linesFrom none (lowerAll unit 0 cmds) :=
    Context.output_compileAll unit cmds
  have hsource : (linesFrom none (lowerAll unit 0 cmds)).take before.length = before := by
    rw [hls, List.take_left]
  have htarget : (linesFrom none (lowerAll unit 0 cmds)).take
      (linesFrom none (lowerAll unit 0 earlier) ++ front).length = linesFrom none (lowerAll unit 0 earlier) ++ front := by
    rw [hsplit, List.take_left]
  unfold JumpsWithin
  rw [houtput]
  refine ⟨earlier, op, later, hcmds, hop, before.length, (linesFrom none (lowerAll unit 0 earlier) ++ front).length,
    .compute dest comp jump, name, ?_, ?_, ?_, ?_, hname, ?_, ?_, ?_⟩
  · rw [hls, List.getElem?_append_right (Nat.le_refl _), Nat.sub_self, List.getElem?_cons_zero]
  · rw [hsource, hpc]
  · rw [hsplit, List.getElem?_append_right (Nat.le_refl _), Nat.sub_self, List.getElem?_cons_zero]
  · rw [htarget, hma]
  · rw [Context.size_compileAll, hbefore, List.length_append]
    omega
  · -- a label no later than the jump would have no greater address
    by_contra hle
    have hsize := Lines.size_take_le (linesFrom none (lowerAll unit 0 cmds)) (Nat.le_of_not_lt hle)
    rw [hsource, htarget] at hsize
    rw [UInt16.lt_iff_toNat_lt, hpc, hma] at hlt
    omega
  · rw [Context.size_compileAll]
    exact hlength

/-- Every step of a run of generated code moves the counter forward within the program, and a jump goes to a
later label of the comparison it belongs to. -/
theorem step_forward (h : p.Holds (linesFrom none (lowerAll unit 0 cmds)))
    (hf : (Pass.run p.place (.running start) (linesFrom none (lowerAll unit 0 cmds))).Settled)
    (hm : p.Follows (linesFrom none (lowerAll unit 0 cmds)) start 0 m) (hs : p.step m = .next m') :
    p.Follows (linesFrom none (lowerAll unit 0 cmds)) start 0 m' ∧ m.pc < m'.pc ∧ m'.pc.toNat ≤ p.words.size ∧
      ∀ dest comp jump, p.words[m.pc.toNat]? = some (.compute dest comp jump) →
        jump.taken (comp.eval m.a m.d (m.ram.read m.a)) = true → JumpsWithin unit cmds m.pc m'.pc := by
  have hfollows : p.Follows (linesFrom none (lowerAll unit 0 cmds)) start (m.pc.toNat + 1) m' := by
    rcases h.follows_step hf hm with ⟨h1, -⟩ | ⟨f, s, h1, -⟩ | ⟨m'', h1, h2⟩
    · rw [hs] at h1; cases h1
    · rw [hs] at h1; cases h1
    · rw [hs] at h1; cases h1
      exact h2
  have hpc : m.pc.toNat + 1 ≤ m'.pc.toNat ∧ m'.pc.toNat ≤ p.words.size := by
    obtain ⟨before, after, s, hls, -, -, -, hpc, hle⟩ := hfollows
    rw [h.size_words, hls, Lines.size_append]
    omega
  have hlt : m.pc < m'.pc := UInt16.lt_iff_toNat_lt.2 (by omega)
  refine ⟨hfollows.mono (Nat.zero_le _), hlt, hpc.2, ?_⟩
  intro dest comp jump hw hj
  have hjump : jump ≠ .null := by
    rintro rfl
    rw [Jump.taken_null] at hj
    cases hj
  -- the jump goes where the address register points
  obtain ⟨w, hw', -, hexec⟩ := Program.step_eq_next.1 hs
  obtain rfl : w = .compute dest comp jump := Option.some.inj (hw'.symm.trans hw)
  have htarget : m'.pc = m.a := by
    rw [← hexec]
    exact if_pos hj
  rw [htarget] at hlt ⊢
  obtain ⟨before, after, s, hls, hcode, hr, hmatch, hsize, -⟩ := hm
  match after, hcode, hls with
  | [], _, hls =>
    -- behind the last word there is no jump
    have hend : p.words.size = m.pc.toNat := by
      rw [h.size_words, hls, hsize, List.append_nil]
    rw [Array.getElem?_eq_none (Nat.le_of_eq hend)] at hw
    cases hw
  | .instr i :: after, _, hls =>
    obtain ⟨w, hw'', hi⟩ := h.word_at hls
    rw [hsize, hw''] at hw
    obtain rfl := Option.some.inj hw
    obtain rfl := instr_of_word? hi
    exact jumpsWithin_of_matches h hjump hls hr hmatch hsize hlt

end

/-! ## Runs -/

/-- Generated code always comes to an end, from any state of registers and memory. Every step of a run moves
the counter forward within the program, a jump only goes to a later label of the comparison it belongs to, and
a run that may take as many steps as the program has words halts at the program's end or fails. -/
theorem run_terminates {unit : String} (hu : Symbol.isSymbol unit.toList = true) {cmds : List Command}
    {p : Program} (hp : Program.parse (Context.compileAll { unit } cmds).text = .ok p) (a d : UInt16) (ram : Ram) :
    (∀ limit m', let m := (p.run limit ⟨a, d, 0, ram⟩).machine
      p.step m = .next m' → m.pc < m'.pc ∧ m'.pc.toNat ≤ p.words.size ∧
        ∀ dest comp jump, p.words[m.pc.toNat]? = some (.compute dest comp jump) →
          jump.taken (comp.eval m.a m.d (m.ram.read m.a)) = true → JumpsWithin unit cmds m.pc m'.pc) ∧
    ∀ limit, p.words.size ≤ limit → let r := p.run limit ⟨a, d, 0, ram⟩
      (r.fault = none ∧ r.steps ≤ p.words.size ∧ r.machine.pc.toNat = p.words.size) ∨ ∃ f, r.fault = some f := by
  have h := holds_compileAll hu hp
  have hf := settled_linesFrom h a d ram
  have hstart : p.Follows (linesFrom none (lowerAll unit 0 cmds)) ⟨.word a, d, ram⟩ 0 ⟨a, d, 0, ram⟩ :=
    Program.Holds.follows_start ⟨rfl, rfl, rfl⟩ rfl
  constructor
  · intro limit m' m hs
    exact (step_forward h hf (h.follows_run hf hstart limit) hs).2
  · intro limit hlimit r
    have hend := h.endsLike_run hf hlimit
    cases hpass : Pass.run p.place (.running ⟨.word a, d, ram⟩) (linesFrom none (lowerAll unit 0 cmds)) with
    | running s =>
      rw [hpass] at hend
      obtain ⟨hfault, hhalt, -⟩ := hend
      have hsteps : 0 + r.steps ≤ r.machine.pc.toNat :=
        Program.pc_add_steps_le (fun m m' hm hs => (step_forward h hf hm hs).imp_right And.left) limit _ hstart
      have hle : r.machine.pc.toNat ≤ p.words.size := by
        obtain ⟨before, after, s, hls, -, -, -, hpc, -⟩ := h.follows_run hf hstart limit
        rw [h.size_words, hls, Lines.size_append, hpc]
        omega
      have hge : p.words.size ≤ r.machine.pc.toNat := by simpa [Program.halted] using hhalt
      exact .inl ⟨hfault, by omega, by omega⟩
    | faulted addr s =>
      rw [hpass] at hend
      obtain ⟨⟨f, hfault, -⟩, -⟩ := hend
      exact .inr ⟨f, hfault⟩
    | skipping name s =>
      rw [hpass] at hf
      cases hf
    | stuck =>
      rw [hpass] at hf
      cases hf

theorem run_terminates_failedPop : ∃ p,
    Program.parse (Context.compileAll { unit := "Main" } [.pop .temp 8, .arith .lt]).text = .ok p ∧
      ∀ (a d : UInt16) (ram : Ram), let r := p.run p.words.size ⟨a, d, 0, ram⟩
        (r.fault = none ∧ r.steps ≤ p.words.size ∧ r.machine.pc.toNat = p.words.size) ∨ ∃ f, r.fault = some f := by
  have hu : Symbol.isSymbol "Main".toList = true := by decide
  obtain ⟨p, hp⟩ : ∃ p, Program.parse
      (Context.compileAll { unit := "Main" } [.pop .temp 8, .arith .lt]).text = .ok p := by
    rw [Context.text_compileAll]
    exact exists_parse_linesFrom hu (by decide)
  exact ⟨p, hp, fun a d ram => (run_terminates hu hp a d ram).2 _ (Nat.le_refl _)⟩

end Hack.Codegen
