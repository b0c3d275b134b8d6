/-
One command among others. Between commands the cursor mentions no label, so that a machine which agrees with
the cursor is in a state that a pass can start from. From there the machine goes through the code of the next
command like the pass over its plain lines, which knows nothing of cursors, to the end of that code or to the
fault of the pass.
-/
import Hack.Proofs.Codegen.Cursor
import Hack.Proofs.Machine.Walk

namespace Hack.Codegen

open Vm

/-! ## Cursors between commands -/

/-- Whether a cursor mentions no symbol but those of cells. -/
def MentionsCell (place : String → Place) (cursor : Option Target) : Prop :=
  ∀ name, cursor.bind Target.symbol? = some name → ∃ a, place name = .word a

section

variable {unit : String} {labels : List String} {static : UInt16 → UInt16} {place : String → Place}
  {cursor : Option Target}

theorem mentionsCell_none : MentionsCell place none :=
  nofun

theorem mentionsCell_number (n : UInt16) : MentionsCell place (some (.direct (.number n))) :=
  nofun

theorem mentionsCell_symbol {name : String} {a : UInt16} (h : place name = .word a) :
    MentionsCell place (some (.direct (.symbol name))) := by
  intro other hother
  cases hother
  exact ⟨a, h⟩

theorem mentionsCell_deref {name : String} {a : UInt16} (h : place name = .word a) :
    MentionsCell place (some (.deref name)) := by
  intro other hother
  cases hother
  exact ⟨a, h⟩

/-- Behind the steps of an address. -/
theorem Resolved.mentionsCell (hp : Places unit labels static place) {seg : Segment} {n : UInt16}
    {address : List Emission} (h : Resolved unit seg n address) : MentionsCell place (cursorFrom cursor address) := by
  cases h with
  | constant _ => exact mentionsCell_number _
  | temp _ => exact mentionsCell_number _
  | this => exact mentionsCell_symbol (hp.fixed rfl)
  | that => exact mentionsCell_symbol (hp.fixed rfl)
  | static n => exact mentionsCell_symbol (hp.static n)
  | indirect _ _ => exact mentionsCell_none

theorem cursorFrom_pushD : cursorFrom cursor pushD = some (.direct (.symbol Symbol.sp)) := rfl

/-- Behind a command. -/
theorem Shape.mentionsCell (hp : Places unit labels static place) {n : Nat} {compares : Bool}
    {steps : List Emission} (h : Shape unit n compares steps) (hcursor : MentionsCell place cursor) :
    MentionsCell place (cursorFrom cursor steps) := by
  cases h with
  | nothing => exact hcursor
  | dropped => exact mentionsCell_symbol hp.sp
  | again => exact mentionsCell_symbol hp.sp
  | push h i =>
    rw [cursorFrom_append, cursorFrom_pushD]
    exact mentionsCell_symbol hp.sp
  | staged h =>
    rw [cursorFrom_append]
    exact mentionsCell_deref hp.scratch
  | pop h =>
    rw [cursorFrom_append, cursorFrom_append]
    exact h.mentionsCell hp
  | arith op =>
    rw [cursorFrom_append, cursorFrom_pushD]
    exact mentionsCell_symbol hp.sp

theorem mentionsCell_lowerAll {n : Nat} {cmds : List Command}
    (hp : Places unit labels static place) (hcursor : MentionsCell place cursor) :
    MentionsCell place (cursorFrom cursor (lowerAll unit n cmds)) := by
  induction cmds generalizing n cursor with
  | nil => exact hcursor
  | cons cmd cmds ih =>
    rw [lowerAll, cursorFrom_append]
    exact ih ((shape_lower unit n cmd).mentionsCell hp hcursor)

end

/-- What a cursor between commands says of a machine, it says of the machine's registers and memory. -/
theorem CursorHolds.describes {p : Program} {cursor : Option Target} {m : Machine} (h : CursorHolds p cursor m)
    (hcell : MentionsCell p.place cursor) : Describes p.place cursor ⟨.word m.a, m.d, m.ram⟩ := by
  match cursor, h with
  | none, _ => trivial
  | some (.direct (.number n)), h => exact congrArg Place.word h
  | some (.direct (.symbol name)), h =>
    obtain ⟨a, ha⟩ := hcell name rfl
    have haddr := Program.address_place h
    rw [ha] at haddr
    cases haddr
    exact ha.symm
  | some (.deref name), ⟨addr, h, hor⟩ =>
    obtain ⟨a, ha⟩ := hcell name rfl
    have haddr := Program.address_place h
    rw [ha] at haddr
    cases haddr
    exact ⟨_, m.a, ha, rfl, hor⟩

/-! ## The code of a command -/

section

variable (unit : String) (earlier : List Command) (cmd : Command) (later : List Command)

/-- The lines of a command behind others. -/
def commandLines : List Line :=
  linesFrom (cursorFrom none (lowerAll unit 0 earlier)) (lower unit (earlier.countP Command.compares) cmd).steps

theorem lowerAll_split : lowerAll unit 0 (earlier ++ cmd :: later) =
    lowerAll unit 0 earlier ++ (lower unit (earlier.countP Command.compares) cmd).steps ++
      lowerAll unit (if cmd.compares then earlier.countP Command.compares + 1 else earlier.countP Command.compares)
        later := by
  rw [lowerAll_append, Nat.zero_add, lowerAll, List.append_assoc]

/-- They stand between those of the commands before and behind. -/
theorem linesFrom_split : ∃ after, linesFrom none (lowerAll unit 0 (earlier ++ cmd :: later)) =
    linesFrom none (lowerAll unit 0 earlier) ++ commandLines unit earlier cmd ++ after := by
  rw [lowerAll_split, linesFrom_append, linesFrom_append]
  exact ⟨_, rfl⟩

/-- A comparison behind other commands has its labels. -/
theorem mem_stepLabels_split {cmd : Command} (hc : cmd.compares = true) {name : String}
    (hn : name ∈ (CompareLabels.make unit (earlier.countP Command.compares)).toList) :
    name ∈ stepLabels (lowerAll unit 0 (earlier ++ cmd :: later)) := by
  rw [lowerAll_split, stepLabels_append, stepLabels_append, (shape_lower unit _ cmd).stepLabels, hc]
  exact List.mem_append_left _ (List.mem_append_right _ hn)

/-- Where the code of a command starts: the number of words before it. -/
theorem size_earlier : Lines.size (Context.compileAll { unit } earlier).emitter.output.toList =
    Lines.size (linesFrom none (lowerAll unit 0 earlier)) := by
  rw [Context.output_compileAll]

/-- Where it ends. -/
theorem size_concat : Lines.size (Context.compileAll { unit } (earlier ++ [cmd])).emitter.output.toList =
    Lines.size (linesFrom none (lowerAll unit 0 earlier) ++ commandLines unit earlier cmd) := by
  rw [Context.output_compileAll, lowerAll_split, lowerAll, List.append_nil, linesFrom_append]
  rfl

end

section

variable {unit : String} {earlier later : List Command} {cmd : Command} {p : Program}

/-- What the cursor says at the start of a command's code, it says of the pass that starts in the machine's state. -/
theorem knows_command (h : p.Holds (linesFrom none (lowerAll unit 0 (earlier ++ cmd :: later)))) {m : Machine}
    (hcursor : CursorHolds p (Context.compileAll { unit } earlier).emitter.cursor m) :
    Knows p.place (cursorFrom none (lowerAll unit 0 earlier)) (.running ⟨.word m.a, m.d, m.ram⟩) := by
  have hplaces := places_of_holds h (labels_linesFrom _ _)
  have hcell : MentionsCell p.place (cursorFrom none (lowerAll unit 0 earlier)) :=
    mentionsCell_lowerAll hplaces mentionsCell_none
  rw [Context.cursor_compileAll] at hcursor
  intro s hs
  cases hs
  exact hcursor.describes hcell

/-- A machine at the start of a command's code, where it agrees with the cursor, does what the pass over the
command's plain lines does. -/
theorem reaches_of_holds (h : p.Holds (linesFrom none (lowerAll unit 0 (earlier ++ cmd :: later)))) {m : Machine}
    (hpc : m.pc.toNat = Lines.size (Context.compileAll { unit } earlier).emitter.output.toList)
    (hcursor : CursorHolds p (Context.compileAll { unit } earlier).emitter.cursor m) {P : Machine → Prop}
    (hP : p.Everywhere (linesFrom none (lowerAll unit 0 earlier)) (commandLines unit earlier cmd)
      (.running ⟨.word m.a, m.d, m.ram⟩) P) :
    p.Reaches P (Lines.size (Context.compileAll { unit } (earlier ++ [cmd])).emitter.output.toList) m
      (exec p.place (.running ⟨.word m.a, m.d, m.ram⟩) (lower unit (earlier.countP Command.compares) cmd).steps) := by
  have hshape := shape_lower unit (earlier.countP Command.compares) cmd
  -- the lines of the command do what its plain lines do
  have hrun : Pass.run p.place (.running ⟨.word m.a, m.d, m.ram⟩) (commandLines unit earlier cmd) = _ :=
    (knows_command h hcursor).run_linesFrom hshape.freshFrom
  -- and these come to an end
  have hsteady : Steady (exec p.place (.running ⟨.word m.a, m.d, m.ram⟩)
      (lower unit (earlier.countP Command.compares) cmd).steps) :=
    hshape.steady (places_of_holds h (labels_linesFrom _ _))
      (fun hc name hn => mem_stepLabels_split unit earlier later hc hn) ⟨m.a, rfl⟩
  obtain ⟨after, hsplit⟩ := linesFrom_split unit earlier cmd later
  rw [hsplit] at h
  rw [size_earlier] at hpc
  rw [size_concat, ← hrun]
  refine h.reaches hP ⟨rfl, rfl, rfl⟩ hpc ?_
  rw [hrun]
  exact hsteady.settled

/-- Until then it is within the command's code. -/
theorem reaches_command (hu : Symbol.isSymbol unit.toList = true)
    (hp : Program.parse (Context.compileAll { unit } (earlier ++ cmd :: later)).text = .ok p) {m : Machine}
    (hpc : m.pc.toNat = Lines.size (Context.compileAll { unit } earlier).emitter.output.toList)
    (hcursor : CursorHolds p (Context.compileAll { unit } earlier).emitter.cursor m) :
    Places unit (stepLabels (lowerAll unit 0 (earlier ++ cmd :: later))) (staticCell p unit) p.place ∧
    p.Reaches
      (fun m' => Lines.size (Context.compileAll { unit } earlier).emitter.output.toList ≤ m'.pc.toNat ∧
        m'.pc.toNat < Lines.size (Context.compileAll { unit } (earlier ++ [cmd])).emitter.output.toList)
      (Lines.size (Context.compileAll { unit } (earlier ++ [cmd])).emitter.output.toList) m
      (exec p.place (.running ⟨.word m.a, m.d, m.ram⟩) (lower unit (earlier.countP Command.compares) cmd).steps) := by
  have h := holds_compileAll hu hp
  refine ⟨places_of_holds h (labels_linesFrom _ _), reaches_of_holds h hpc hcursor ?_⟩
  rw [size_earlier, size_concat]
  exact p.everywhere_within _ _ _

end

end Hack.Codegen
