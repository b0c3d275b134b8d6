/-
Emission steps and the lines they become. The emitter's output after steps is a list that can be
computed step by step from the cursor, and the plain lines of the same steps are those of an emitter
that has no cursor. Both define the same labels, and the output is part of the plain lines.
-/
import Hack.Codegen.Code
import Hack.Proofs.Codegen.Names
import Hack.Proofs.Machine.Layout

namespace Hack.Codegen

open Vm

/-! ## Commands in a row -/

/-- Compiles commands one after the other; those that fail leave what they have emitted. -/
def Context.compileAll (c : Context) (cmds : List Command) : Context :=
  cmds.foldl (fun c cmd => (c.compile cmd).1) c

/-- The text of what has been emitted. -/
def Context.text (c : Context) : String :=
  Code.text ⟨c.emitter.output, []⟩

/-- The steps of commands in a row, the first comparison among them having the number `n`. -/
def lowerAll (unit : String) : Nat → List Command → List Emission
  | _, [] => []
  | n, cmd :: cmds => (lower unit n cmd).steps ++ lowerAll unit (if cmd.compares then n + 1 else n) cmds

/-- Commands after others go on with the number of comparisons among these. -/
theorem lowerAll_append (unit : String) (n : Nat) (cmds more : List Command) :
    lowerAll unit n (cmds ++ more) =
      lowerAll unit n cmds ++ lowerAll unit (n + cmds.countP Command.compares) more := by
  induction cmds generalizing n with
  | nil => rfl
  | cons cmd cmds ih =>
    rw [List.cons_append, lowerAll, lowerAll, ih, List.append_assoc, List.countP_cons]
    have hcount : (if cmd.compares then n + 1 else n) + cmds.countP Command.compares =
        n + (cmds.countP Command.compares + if cmd.compares then 1 else 0) := by
      split <;> omega
    rw [hcount]

theorem Emitter.emitAll_append (e : Emitter) (steps more : List Emission) :
    e.emitAll (steps ++ more) = (e.emitAll steps).emitAll more :=
  List.foldl_append

theorem Context.emitter_compileAll (c : Context) (cmds : List Command) :
    (c.compileAll cmds).emitter = c.emitter.emitAll (lowerAll c.unit c.comparisons cmds) := by
  induction cmds generalizing c with
  | nil => rfl
  | cons cmd cmds ih =>
    rw [lowerAll, Emitter.emitAll_append]
    exact ih (c.compile cmd).1

/-! ## Lines of steps -/

namespace Emission

/-- What is known of the address register behind a step. -/
def cursorAfter (cursor : Option Target) : Emission → Option Target
  | .point target => some target
  | .line l => Emitter.cursorAfter cursor l

/-- The lines that a step adds, each with the cursor before it. -/
def appends (cursor : Option Target) : Emission → List (Option Target × Line)
  | .point (.direct v) => if cursor = some (.direct v) then [] else [(cursor, .load v)]
  | .point (.deref name) =>
    if cursor = some (.deref name) then []
    else (if cursor = some (.direct (.symbol name)) then [] else [(cursor, .load (.symbol name))]) ++
      [(some (.direct (.symbol name)), .assign .toA (.y .m))]
  | .line l => [(cursor, l)]

/-- The lines of a step if nothing is known of the address register. -/
def plain : Emission → List Line
  | .point (.direct v) => [.load v]
  | .point (.deref name) => [.load (.symbol name), .assign .toA (.y .m)]
  | .line l => [l]

/-- The label that a step defines. -/
def label? : Emission → Option String
  | .line l => l.label?
  | .point _ => none

end Emission

/-- The lines that steps add from a cursor on, each with the cursor before it. -/
def appendsFrom (cursor : Option Target) : List Emission → List (Option Target × Line)
  | [] => []
  | s :: steps => s.appends cursor ++ appendsFrom (s.cursorAfter cursor) steps

/-- The lines that steps add from a cursor on. -/
def linesFrom (cursor : Option Target) (steps : List Emission) : List Line :=
  (appendsFrom cursor steps).map (·.2)

/-- The cursor behind steps. -/
def cursorFrom (cursor : Option Target) (steps : List Emission) : Option Target :=
  steps.foldl Emission.cursorAfter cursor

/-- The lines of steps for an emitter that never consults its cursor. -/
def plainLines (steps : List Emission) : List Line :=
  steps.flatMap Emission.plain

/-- The labels that steps define. -/
def stepLabels (steps : List Emission) : List String :=
  steps.filterMap Emission.label?

section

variable (cursor : Option Target) (s : Emission) (steps more : List Emission)

@[simp] theorem linesFrom_nil : linesFrom cursor [] = [] := rfl

@[simp] theorem linesFrom_cons :
    linesFrom cursor (s :: steps) = (s.appends cursor).map (·.2) ++ linesFrom (s.cursorAfter cursor) steps :=
  List.map_append

@[simp] theorem cursorFrom_nil : cursorFrom cursor [] = cursor := rfl

@[simp] theorem cursorFrom_cons :
    cursorFrom cursor (s :: steps) = cursorFrom (s.cursorAfter cursor) steps := rfl

@[simp] theorem cursorFrom_append :
    cursorFrom cursor (steps ++ more) = cursorFrom (cursorFrom cursor steps) more :=
  List.foldl_append

@[simp] theorem plainLines_nil : plainLines [] = [] := rfl

@[simp] theorem plainLines_cons : plainLines (s :: steps) = s.plain ++ plainLines steps := rfl

@[simp] theorem plainLines_append : plainLines (steps ++ more) = plainLines steps ++ plainLines more :=
  List.flatMap_append

@[simp] theorem stepLabels_nil : stepLabels [] = [] := rfl

@[simp] theorem stepLabels_point (target : Target) :
    stepLabels (.point target :: steps) = stepLabels steps := rfl

@[simp] theorem stepLabels_instr (i : Instr) :
    stepLabels (.line (.instr i) :: steps) = stepLabels steps := rfl

@[simp] theorem stepLabels_label (name : String) :
    stepLabels (.line (.label name) :: steps) = name :: stepLabels steps := rfl

@[simp] theorem stepLabels_append : stepLabels (steps ++ more) = stepLabels steps ++ stepLabels more :=
  List.filterMap_append ..

theorem appendsFrom_append :
    appendsFrom cursor (steps ++ more) = appendsFrom cursor steps ++ appendsFrom (cursorFrom cursor steps) more := by
  induction steps generalizing cursor with
  | nil => rfl
  | cons s steps ih => simp [appendsFrom, ih]

@[simp] theorem linesFrom_append :
    linesFrom cursor (steps ++ more) = linesFrom cursor steps ++ linesFrom (cursorFrom cursor steps) more := by
  simp [linesFrom, appendsFrom_append]

end

/-- One step of the emitter. -/
theorem Emitter.emit_eq (e : Emitter) (s : Emission) :
    (e.emit s).output.toList = e.output.toList ++ (s.appends e.cursor).map (·.2) ∧
      (e.emit s).cursor = s.cursorAfter e.cursor := by
  match s with
  | .line l => exact ⟨Array.toList_push, rfl⟩
  | .point (.direct v) =>
    by_cases h : e.cursor = some (.direct v)
    · simp [emit, pointTo, Emission.appends, Emission.cursorAfter, h]
    · simp [emit, pointTo, pointDirect, append, cursorAfter, Emission.appends, Emission.cursorAfter, h, Line.load]
  | .point (.deref name) =>
    by_cases h : e.cursor = some (.deref name)
    · simp [emit, pointTo, Emission.appends, Emission.cursorAfter, h]
    · by_cases h' : e.cursor = some (.direct (.symbol name)) <;>
        simp [emit, pointTo, pointDirect, append, Emission.appends, Emission.cursorAfter, h, h']

/-- The emitter's output is what the steps become, and its cursor what they leave. -/
theorem Emitter.emitAll_eq (e : Emitter) (steps : List Emission) :
    (e.emitAll steps).output.toList = e.output.toList ++ linesFrom e.cursor steps ∧
      (e.emitAll steps).cursor = cursorFrom e.cursor steps := by
  induction steps generalizing e with
  | nil => exact ⟨(List.append_nil _).symm, rfl⟩
  | cons s steps ih =>
    obtain ⟨h1, h2⟩ := e.emit_eq s
    obtain ⟨h3, h4⟩ := ih (e.emit s)
    rw [h1, h2] at h3
    rw [h2] at h4
    exact ⟨by rw [linesFrom_cons, ← List.append_assoc]; exact h3, h4⟩

/-- The output of commands in a row. -/
theorem Context.output_compileAll (unit : String) (cmds : List Command) :
    (Context.compileAll { unit } cmds).emitter.output.toList = linesFrom none (lowerAll unit 0 cmds) := by
  rw [Context.emitter_compileAll, (Emitter.emitAll_eq _ _).1]
  rfl

/-- The cursor behind commands in a row. -/
theorem Context.cursor_compileAll (unit : String) (cmds : List Command) :
    (Context.compileAll { unit } cmds).emitter.cursor = cursorFrom none (lowerAll unit 0 cmds) := by
  rw [Context.emitter_compileAll, (Emitter.emitAll_eq _ _).2]

theorem Context.text_compileAll (unit : String) (cmds : List Command) :
    (Context.compileAll { unit } cmds).text = Lines.text (linesFrom none (lowerAll unit 0 cmds)) := by
  rw [← Context.output_compileAll]
  rfl

/-! ## Labels and lines -/

theorem Emission.labels_plain (s : Emission) : Lines.labels s.plain = s.label?.toList := by
  match s with
  | .line (.instr i) => rfl
  | .line (.label name) => rfl
  | .point (.direct v) => rfl
  | .point (.deref name) => rfl

theorem Emission.labels_appends (cursor : Option Target) (s : Emission) :
    Lines.labels ((s.appends cursor).map (·.2)) = s.label?.toList := by
  match s with
  | .line (.instr i) => rfl
  | .line (.label name) => rfl
  | .point (.direct v) => simp only [Emission.appends]; split <;> rfl
  | .point (.deref name) =>
    simp only [Emission.appends]
    split
    · rfl
    · split <;> rfl

theorem stepLabels_cons (s : Emission) (steps : List Emission) :
    stepLabels (s :: steps) = s.label?.toList ++ stepLabels steps := by
  unfold stepLabels
  cases h : s.label? <;> simp [h]

theorem labels_plainLines (steps : List Emission) : Lines.labels (plainLines steps) = stepLabels steps := by
  induction steps with
  | nil => rfl
  | cons s steps ih => rw [plainLines_cons, Lines.labels_append, s.labels_plain, ih, stepLabels_cons]

theorem labels_linesFrom (cursor : Option Target) (steps : List Emission) :
    Lines.labels (linesFrom cursor steps) = stepLabels steps := by
  induction steps generalizing cursor with
  | nil => rfl
  | cons s steps ih => rw [linesFrom_cons, Lines.labels_append, s.labels_appends, ih, stepLabels_cons]

/-- An emitter with a cursor emits nothing but lines of the plain emitter. -/
theorem linesFrom_sublist (cursor : Option Target) (steps : List Emission) :
    (linesFrom cursor steps).Sublist (plainLines steps) := by
  induction steps generalizing cursor with
  | nil => exact .slnil
  | cons s steps ih =>
    rw [linesFrom_cons, plainLines_cons]
    refine List.Sublist.append ?_ (ih _)
    match s with
    | .line l => exact .refl _
    | .point (.direct v) => simp only [Emission.appends]; split <;> simp [Emission.plain]
    | .point (.deref name) =>
      simp only [Emission.appends]
      split
      · exact List.nil_sublist _
      · split <;> simp [Emission.plain]

end Hack.Codegen
