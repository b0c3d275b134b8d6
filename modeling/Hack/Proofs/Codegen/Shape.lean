/-
What the steps of a command can be. There are seven shapes, those of failing commands among them, and
every fact about generated code that does not depend on what it does is read off from them: which
operands the steps have, that a dereferencing load is never needless, and which labels are defined.
From these it follows that the lines of any commands are legal and that their labels differ, so that
loading their text gives the program of these lines.
-/
import Hack.Proofs.Codegen.Steps
import Hack.Proofs.Machine.Load

namespace Hack.Codegen

open Vm

/-! ## Shapes -/

/-- The steps that point at the cell of a segment, or hold the value of a constant. -/
inductive Resolved (unit : String) : Segment → UInt16 → List Emission → Prop
  | constant {n : UInt16} (h : n ≤ maxLiteral) : Resolved unit .constant n [.point (.direct (.number n))]
  | temp {n : UInt16} (h : n < 8) : Resolved unit .temp n [.point (.direct (.number (5 + n)))]
  | this : Resolved unit .pointer 0 [pointSymbol Symbol.this]
  | that : Resolved unit .pointer 1 [pointSymbol Symbol.that]
  | static (n : UInt16) : Resolved unit .static n [pointSymbol (staticName unit n)]
  | indirect {seg : Segment} {base : String} {n : UInt16} (hs : seg.policy = .indirect base)
      (h : n ≤ maxLiteral) :
      Resolved unit seg n
        [.point (.direct (.number n)), assign .toD (.y .a), pointSymbol base, assign .toA (.add .m)]

/-- The steps of a command; `compares` says whether it is a comparison. -/
inductive Shape (unit : String) (n : Nat) : (compares : Bool) → List Emission → Prop
  /-- A command that fails at once. -/
  | nothing : Shape unit n false []
  /-- A pop that fails after it has read the stack. -/
  | dropped : Shape unit n false popD
  | again : Shape unit n false (popD ++ pushD)
  | push {seg : Segment} {m : UInt16} {address : List Emission} (h : Resolved unit seg m address) (i : Input) :
      Shape unit n false (address ++ [assign .toD (.y i)] ++ pushD)
  | staged {seg : Segment} {m : UInt16} {address : List Emission} (h : Resolved unit seg m address) :
      Shape unit n false (address ++ [assign .toD (.y .a), pointSymbol scratch, assign .toM .d] ++ popD ++
        [pointDeref scratch, assign .toM .d])
  | pop {seg : Segment} {m : UInt16} {address : List Emission} (h : Resolved unit seg m address) :
      Shape unit n false (popD ++ (address ++ [assign .toM .d]))
  | arith (op : Op) : Shape unit n op.compares (popD ++ operate (.make unit n) op ++ pushD)

theorem literal_ok {n : UInt16} {load : Emission} (h : literal n = .ok load) :
    n ≤ maxLiteral ∧ load = .point (.direct (.number n)) := by
  unfold literal at h
  split at h
  · cases h; exact ⟨‹_›, rfl⟩
  · cases h

theorem resolve_of_indirect {unit : String} {seg : Segment} {base : String} {n : UInt16} {address : List Emission}
    (hs : seg.policy = .indirect base) (h : resolve unit seg n = .ok address) : Resolved unit seg n address := by
  simp only [resolve, hs] at h
  cases hl : literal n with
  | error e => rw [hl] at h; cases h
  | ok load =>
    obtain ⟨hn, rfl⟩ := literal_ok hl
    rw [hl] at h
    cases h
    exact .indirect hs hn

/-- What finding an address can emit. -/
theorem resolved_of_resolve {unit : String} {seg : Segment} {n : UInt16} {address : List Emission}
    (hs : seg ≠ .stack) (h : resolve unit seg n = .ok address) : Resolved unit seg n address := by
  cases seg with
  | stack => exact absurd rfl hs
  | locals | argument | this | that => exact resolve_of_indirect rfl h
  | static => cases h; exact .static n
  | constant =>
    simp only [resolve, Segment.policy] at h
    cases hl : literal n with
    | error e => rw [hl] at h; cases h
    | ok load =>
      obtain ⟨hn, rfl⟩ := literal_ok hl
      rw [hl] at h
      cases h
      exact .constant hn
  | temp =>
    simp only [resolve, Segment.policy] at h
    split at h
    · cases h; exact .temp ‹_›
    · cases h
  | pointer =>
    simp only [resolve, Segment.policy] at h
    have hn : UInt16.ofNat n.toNat = n := UInt16.ofNat_toNat
    match hk : n.toNat, h with
    | 0, h => rw [hk] at hn; subst hn; cases h; exact .this
    | 1, h => rw [hk] at hn; subst hn; cases h; exact .that
    | k + 2, h => cases h

/-- What the steps of a push or a pop can be, once its segment is not the stack. -/
theorem shape_withAddress {unit : String} {n : Nat} {seg : Segment} {m : UInt16} (hs : seg ≠ .stack)
    (rest : List Emission → List Emission)
    (h : ∀ address, Resolved unit seg m address → Shape unit n false (rest address)) :
    Shape unit n false (withAddress (resolve unit seg m) rest).steps := by
  cases ha : resolve unit seg m with
  | error e => exact .nothing
  | ok address => exact h address (resolved_of_resolve hs ha)

theorem shape_lowerPush (unit : String) (n : Nat) (seg : Segment) (m : UInt16) :
    Shape unit n false (lowerPush unit seg m).steps := by
  cases seg with
  | stack => exact .again
  | constant => exact shape_withAddress (by decide) _ fun address h => .push h .a
  | _ => exact shape_withAddress (by decide) _ fun address h => .push h .m

theorem shape_lowerPop (unit : String) (n : Nat) (seg : Segment) (m : UInt16) :
    Shape unit n false (lowerPop unit seg m).steps := by
  have unstaged (hs : seg ≠ .stack) : Shape unit n false
      ((withAddress (resolve unit seg m) fun address => address ++ [assign .toM .d]).after popD).steps := by
    cases ha : resolve unit seg m with
    | error e => exact .dropped
    | ok address => exact .pop (resolved_of_resolve hs ha)
  cases seg with
  | stack => exact .again
  | constant => exact .nothing
  | temp | static => exact unstaged (by decide)
  | _ => exact shape_withAddress (by decide) _ fun address h => .staged h

/-- What the steps of a command can be. -/
theorem shape_lower (unit : String) (n : Nat) (cmd : Command) :
    Shape unit n cmd.compares (lower unit n cmd).steps := by
  cases cmd with
  | push seg m => exact shape_lowerPush unit n seg m
  | pop seg m => exact shape_lowerPop unit n seg m
  | arith op => exact .arith op

/-- What holds of the steps of every block holds of the steps of a command. -/
theorem Shape.forall_mem {unit : String} {n : Nat} {compares : Bool} {steps : List Emission}
    (h : Shape unit n compares steps) {P : Emission → Prop} (pop : ∀ s ∈ popD, P s) (push : ∀ s ∈ pushD, P s)
    (operation : ∀ op : Op, op.compares = compares → ∀ s ∈ operate (.make unit n) op, P s)
    (resolved : ∀ {seg m address}, Resolved unit seg m address → ∀ s ∈ address, P s)
    (moves : ∀ s ∈ [assign .toD (.y .a), assign .toD (.y .m), assign .toM .d, pointSymbol scratch, pointDeref scratch],
      P s) :
    ∀ s ∈ steps, P s := by
  simp only [List.forall_mem_cons] at moves
  obtain ⟨keep, read, store, park, back, -⟩ := moves
  cases h with
  | nothing => simp
  | dropped => exact pop
  | again =>
    simp only [List.forall_mem_append]
    exact ⟨pop, push⟩
  | push h i =>
    simp only [List.forall_mem_append, List.forall_mem_singleton]
    cases i with
    | a => exact ⟨⟨resolved h, keep⟩, push⟩
    | m => exact ⟨⟨resolved h, read⟩, push⟩
  | staged h =>
    simp only [List.forall_mem_append, List.forall_mem_cons]
    exact ⟨⟨⟨resolved h, keep, park, store, List.forall_mem_nil _⟩, pop⟩, back, store, List.forall_mem_nil _⟩
  | pop h =>
    simp only [List.forall_mem_append, List.forall_mem_singleton]
    exact ⟨pop, resolved h, store⟩
  | arith op =>
    simp only [List.forall_mem_append]
    exact ⟨⟨pop, operation op rfl⟩, push⟩

/-! ## Labels -/

section

variable (steps : List Emission) (name : String) (dest : Dest) (comp : Comp) (jump : Jump)

@[simp] theorem stepLabels_pointSymbol : stepLabels (pointSymbol name :: steps) = stepLabels steps := rfl

@[simp] theorem stepLabels_assign : stepLabels (assign dest comp :: steps) = stepLabels steps := rfl

@[simp] theorem stepLabels_jumpTo : stepLabels (jumpTo name comp jump) = [] := rfl

@[simp] theorem stepLabels_pointTop : stepLabels pointTop = [] := rfl

end

@[simp] theorem stepLabels_popD : stepLabels popD = [] := rfl

@[simp] theorem stepLabels_pushD : stepLabels pushD = [] := rfl

theorem Resolved.stepLabels {unit : String} {seg : Segment} {n : UInt16} {address : List Emission}
    (h : Resolved unit seg n address) : stepLabels address = [] := by
  cases h <;> rfl

theorem stepLabels_compare (jump : Jump) (labels : CompareLabels) :
    stepLabels (compare jump labels) = labels.toList := by
  simp [compare, order, truth, dropTop, CompareLabels.toList]

theorem stepLabels_operate (labels : CompareLabels) (op : Op) :
    stepLabels (operate labels op) = if op.compares then labels.toList else [] := by
  cases op with
  | eq | gt | lt => exact stepLabels_compare _ labels
  | _ => rfl

theorem Shape.stepLabels {unit : String} {n : Nat} {compares : Bool} {steps : List Emission}
    (h : Shape unit n compares steps) :
    stepLabels steps = if compares then (CompareLabels.make unit n).toList else [] := by
  cases h with
  | nothing | dropped | again => rfl
  | push h i | staged h | pop h => simp only [stepLabels_append, h.stepLabels]; rfl
  | arith op => simp [stepLabels_operate]

/-- The labels of commands are those of the comparisons among them, which are numbered in order. -/
theorem stepLabels_lowerAll (unit : String) (n : Nat) (cmds : List Command) :
    stepLabels (lowerAll unit n cmds) = CompareLabels.series unit n (cmds.countP Command.compares) := by
  induction cmds generalizing n with
  | nil => rfl
  | cons cmd cmds ih =>
    rw [lowerAll, stepLabels_append, (shape_lower unit n cmd).stepLabels, List.countP_cons, ih]
    cases cmd.compares with
    | false => rfl
    | true => rfl

theorem mem_stepLabels_lowerAll {unit : String} {n : Nat} {cmds : List Command} {name : String}
    (h : name ∈ stepLabels (lowerAll unit n cmds)) : ∃ k, n ≤ k ∧ name ∈ (CompareLabels.make unit k).toList := by
  rw [stepLabels_lowerAll] at h
  exact CompareLabels.mem_series h

/-- No label is defined twice. -/
theorem nodup_stepLabels_lowerAll (unit : String) (n : Nat) (cmds : List Command) :
    (stepLabels (lowerAll unit n cmds)).Nodup := by
  rw [stepLabels_lowerAll]
  exact CompareLabels.nodup_series unit n _

/-- Names never clash. Compiled commands define the labels of their comparisons, numbered from 0, and any number of
comparisons have labels that are all different, of which none is a fixed name or a static cell; they are symbols
exactly if the unit's name is one or is empty. Static cells with different numbers have different names. -/
theorem CompareLabels.series_fresh (unit : String) (n : Nat) :
    (∀ cmds : List Command, cmds.countP Command.compares = n →
      Lines.labels (Context.compileAll { unit } cmds).emitter.output.toList = series unit 0 n) ∧
    (series unit 0 n).length = 5 * n ∧ (series unit 0 n).Nodup ∧
    (∀ name ∈ series unit 0 n, Symbol.predefined? name = none ∧ (∀ k, name ≠ staticName unit k) ∧
      (Symbol.isSymbol name.toList = true ↔ unit = "" ∨ Symbol.isSymbol unit.toList = true)) ∧
    ∀ j k, staticName unit j = staticName unit k → j = k := by
  refine ⟨?_, length_series unit 0 n, nodup_series unit 0 n, fun name h => ?_, fun j k h => ?_⟩
  · rintro cmds rfl
    rw [Context.output_compileAll, labels_linesFrom, stepLabels_lowerAll]
  · obtain ⟨k, -, hname⟩ := mem_series h
    exact ⟨predefined?_of_mem hname, ne_staticName hname, isSymbol_iff_of_mem hname⟩
  · rw [← staticNumber_staticName unit j, h, staticNumber_staticName]

/-! ## Operands -/

/-- The fixed names that generated code uses. -/
def fixedNames : List String := [Symbol.sp, Symbol.lcl, Symbol.arg, Symbol.this, Symbol.that, scratch]

/-- Whether a step only has operands that a text can express: numbers that fit, fixed names, static
cells and the labels given. -/
def Emission.Fits (unit : String) (labels : List String) : Emission → Prop
  | .point (.direct (.number n)) => n ≤ maxLiteral
  | .point (.direct (.symbol name)) => name ∈ fixedNames ∨ IsStatic unit name ∨ name ∈ labels
  | .point (.deref name) => name ∈ fixedNames
  | .line (.instr (.load _)) => False
  | .line (.instr (.compute _ _ _)) => True
  | .line (.label name) => name ∈ labels

section

variable {unit : String} {labels : List String}

theorem Emission.Fits.mono {labels' : List String} {s : Emission} (h : s.Fits unit labels)
    (hsub : ∀ name ∈ labels, name ∈ labels') : s.Fits unit labels' := by
  match s, h with
  | .point (.direct (.number n)), h => exact h
  | .point (.direct (.symbol name)), h => exact h.imp_right (Or.imp_right (hsub name))
  | .point (.deref name), h => exact h
  | .line (.instr (.compute _ _ _)), _ => trivial
  | .line (.label name), h => exact hsub name h

theorem fits_popD : ∀ s ∈ popD, s.Fits unit labels := by
  simp [popD, pointTop, dropTop, pointSymbol, assign, Line.assign, Emission.Fits, fixedNames]

theorem fits_pushD : ∀ s ∈ pushD, s.Fits unit labels := by
  simp [pushD, pointSymbol, pointDeref, assign, Line.assign, Emission.Fits, fixedNames]

theorem fits_operate (labels : CompareLabels) (op : Op) :
    ∀ s ∈ operate labels op, s.Fits unit (if op.compares then labels.toList else []) := by
  cases op <;> simp [operate, binary, compare, order, truth, jumpTo, pointTop, dropTop, pointSymbol, assign,
    Line.assign, Line.branch, Emission.Fits, fixedNames, Op.compares, CompareLabels.toList]

theorem Resolved.fits {seg : Segment} {n : UInt16} {address : List Emission} (h : Resolved unit seg n address) :
    ∀ s ∈ address, s.Fits unit labels := by
  cases h with
  | constant h => simpa [Emission.Fits] using h
  | temp h =>
    have h8 : n.toNat < 8 := h
    have h5 : 5 + n ≤ maxLiteral := by
      rw [UInt16.le_iff_toNat_le, UInt16.toNat_add]
      change (5 + n.toNat) % 65536 ≤ 32767
      omega
    simpa [Emission.Fits] using h5
  | this => simp [Emission.Fits, pointSymbol, fixedNames]
  | that => simp [Emission.Fits, pointSymbol, fixedNames]
  | static n => simpa [Emission.Fits, pointSymbol] using .inr (.inl ⟨n, rfl⟩)
  | @indirect seg base n hs h =>
    have hbase : base ∈ fixedNames := by
      cases seg <;> simp [Segment.policy] at hs <;> subst hs <;> decide
    simpa [Emission.Fits, pointSymbol, assign, Line.assign] using ⟨h, .inl hbase⟩

theorem Shape.fits {n : Nat} {compares : Bool} {steps : List Emission} (h : Shape unit n compares steps) :
    ∀ s ∈ steps, s.Fits unit (if compares then (CompareLabels.make unit n).toList else []) := by
  refine h.forall_mem fits_popD fits_pushD ?_ Resolved.fits ?_
  · rintro op rfl
    exact fits_operate _ op
  · simp [pointSymbol, pointDeref, assign, Line.assign, Emission.Fits, fixedNames]

/-- Commands have no operands but numbers that fit, fixed names, static cells and their own labels. -/
theorem fits_lowerAll (unit : String) (n : Nat) (cmds : List Command) :
    ∀ s ∈ lowerAll unit n cmds, s.Fits unit (stepLabels (lowerAll unit n cmds)) := by
  induction cmds generalizing n with
  | nil => simp [lowerAll]
  | cons cmd cmds ih =>
    have hshape := shape_lower unit n cmd
    rw [lowerAll, stepLabels_append, hshape.stepLabels]
    refine List.forall_mem_append.2 ⟨fun s hs => ?_, fun s hs => ?_⟩
    · exact (hshape.fits s hs).mono fun name hn => List.mem_append_left _ hn
    · exact (ih _ s hs).mono fun name hn => List.mem_append_right _ hn

end

/-! ## Dereferencing loads -/

/-- Whether a step is no dereferencing load that the cursor makes needless. Such a load could not be
left out, as a cell may have been overwritten through itself. -/
def Emission.Fresh (cursor : Option Target) : Emission → Prop
  | .point (.deref name) => cursor ≠ some (.deref name)
  | _ => True

def FreshFrom (cursor : Option Target) : List Emission → Prop
  | [] => True
  | s :: steps => s.Fresh cursor ∧ FreshFrom (s.cursorAfter cursor) steps

section

variable {cursor : Option Target} {unit : String}

theorem FreshFrom.append {steps more : List Emission} (h : FreshFrom cursor steps)
    (h' : FreshFrom (cursorFrom cursor steps) more) : FreshFrom cursor (steps ++ more) := by
  induction steps generalizing cursor with
  | nil => exact h'
  | cons s steps ih => exact ⟨h.1, ih h.2 h'⟩

theorem cursorFrom_popD : cursorFrom cursor popD = some (.direct (.symbol Symbol.sp)) := rfl

theorem freshFrom_popD : FreshFrom cursor popD := by
  simp [popD, pointTop, dropTop, pointSymbol, assign, FreshFrom, Emission.Fresh]

theorem freshFrom_pushD (h : cursor ≠ some (.deref Symbol.sp)) : FreshFrom cursor pushD := by
  simp [pushD, pointDeref, pointSymbol, assign, FreshFrom, Emission.Fresh, h]

theorem Resolved.freshFrom {seg : Segment} {n : UInt16} {address : List Emission}
    (h : Resolved unit seg n address) : FreshFrom cursor address := by
  cases h <;> simp [FreshFrom, Emission.Fresh, pointSymbol, assign]

theorem Resolved.cursorFrom_ne {seg : Segment} {n : UInt16} {address : List Emission}
    (h : Resolved unit seg n address) (name : String) : cursorFrom cursor address ≠ some (.deref name) := by
  cases h <;> simp [pointSymbol, assign, Line.assign, Emission.cursorAfter, Emitter.cursorAfter, Dest.toA]

theorem freshFrom_operate (labels : CompareLabels) (op : Op) : FreshFrom cursor (operate labels op) := by
  cases op <;> simp [operate, binary, compare, order, truth, jumpTo, pointTop, dropTop, pointSymbol, assign,
    FreshFrom, Emission.Fresh]

/-- An operation on the popped operand leaves the cursor at the stack pointer. -/
theorem cursorFrom_operate (labels : CompareLabels) (op : Op) :
    cursorFrom (some (.direct (.symbol Symbol.sp))) (operate labels op) = some (.direct (.symbol Symbol.sp)) := by
  cases op <;> simp [operate, binary, compare, dropTop, pointSymbol, assign, Line.assign, Emission.cursorAfter,
    Emitter.cursorAfter, Dest.toD, Dest.toM]

theorem Shape.freshFrom {n : Nat} {compares : Bool} {steps : List Emission} (h : Shape unit n compares steps) :
    FreshFrom cursor steps := by
  cases h with
  | nothing => trivial
  | dropped => exact freshFrom_popD
  | again => exact freshFrom_popD.append (freshFrom_pushD (by simp [cursorFrom_popD]))
  | push h i =>
    refine (h.freshFrom.append (by exact ⟨trivial, trivial⟩)).append (freshFrom_pushD ?_)
    rw [cursorFrom_append]
    exact h.cursorFrom_ne Symbol.sp
  | staged h =>
    -- the load of the scratch cell's content comes behind a pop, which leaves the cursor at the stack pointer
    refine ((h.freshFrom.append (by exact ⟨trivial, trivial, trivial, trivial⟩)).append freshFrom_popD).append
      ⟨?_, trivial, trivial⟩
    rw [cursorFrom_append, cursorFrom_popD]
    exact nofun
  | pop h => exact freshFrom_popD.append (h.freshFrom.append ⟨trivial, trivial⟩)
  | arith op =>
    refine (freshFrom_popD.append (freshFrom_operate _ op)).append (freshFrom_pushD ?_)
    rw [cursorFrom_append, cursorFrom_popD, cursorFrom_operate]
    exact nofun

/-- No dereferencing load of a command is needless. -/
theorem freshFrom_lowerAll (cursor : Option Target) (unit : String) (n : Nat) (cmds : List Command) :
    FreshFrom cursor (lowerAll unit n cmds) := by
  induction cmds generalizing cursor n with
  | nil => trivial
  | cons cmd cmds ih => exact (shape_lower unit n cmd).freshFrom.append (ih _ _)

end

/-! ## Loading -/

theorem nodup_labels_linesFrom (cursor : Option Target) (unit : String) (n : Nat) (cmds : List Command) :
    (Lines.labels (linesFrom cursor (lowerAll unit n cmds))).Nodup := by
  rw [labels_linesFrom]
  exact nodup_stepLabels_lowerAll unit n cmds

theorem nodup_labels_plainLines (unit : String) (n : Nat) (cmds : List Command) :
    (Lines.labels (plainLines (lowerAll unit n cmds))).Nodup := by
  rw [labels_plainLines]
  exact nodup_stepLabels_lowerAll unit n cmds

theorem isSymbol_of_mem_stepLabels {unit : String} (hu : Symbol.isSymbol unit.toList = true) {n : Nat}
    {cmds : List Command} {name : String} (h : name ∈ stepLabels (lowerAll unit n cmds)) :
    Symbol.isSymbol name.toList = true := by
  obtain ⟨k, -, h⟩ := mem_stepLabels_lowerAll h
  exact CompareLabels.isSymbol_of_mem hu h

theorem isSymbol_of_mem_fixedNames {name : String} (h : name ∈ fixedNames) :
    Symbol.isSymbol name.toList = true := by
  have table : ∀ name ∈ fixedNames, Symbol.isSymbol name.toList = true := by decide
  exact table name h

theorem Emission.Fits.legal {unit : String} (hu : Symbol.isSymbol unit.toList = true) {labels : List String}
    (hl : ∀ name ∈ labels, Symbol.isSymbol name.toList = true) {s : Emission} (h : s.Fits unit labels) :
    ∀ l ∈ s.plain, l.Legal := by
  match s, h with
  | .point (.direct (.number n)), h => simpa [plain, Line.load, Line.Legal, Operand.Legal, Fits] using h
  | .point (.direct (.symbol name)), h =>
    have : Symbol.isSymbol name.toList = true := by
      rcases h with h | ⟨n, rfl⟩ | h
      · exact isSymbol_of_mem_fixedNames h
      · exact isSymbol_staticName hu n
      · exact hl name h
    simpa [plain, Line.load, Line.Legal, Operand.Legal] using this
  | .point (.deref name), h =>
    simpa [plain, Line.load, Line.assign, Line.Legal, Operand.Legal] using isSymbol_of_mem_fixedNames h
  | .line (.instr (.compute _ _ _)), _ => simp [plain, Line.Legal]
  | .line (.label name), h => simpa [plain, Line.Legal] using hl name h

theorem legal_plainLines {unit : String} (hu : Symbol.isSymbol unit.toList = true) (n : Nat)
    (cmds : List Command) : ∀ l ∈ plainLines (lowerAll unit n cmds), l.Legal := by
  intro l hl
  obtain ⟨s, hs, hl⟩ := List.mem_flatMap.1 hl
  exact (fits_lowerAll unit n cmds s hs).legal hu (fun _ => isSymbol_of_mem_stepLabels hu) l hl

theorem legal_linesFrom {unit : String} (hu : Symbol.isSymbol unit.toList = true) (cursor : Option Target)
    (n : Nat) (cmds : List Command) : ∀ l ∈ linesFrom cursor (lowerAll unit n cmds), l.Legal :=
  fun l hl => legal_plainLines hu n cmds l ((linesFrom_sublist cursor _).subset hl)

/-- What the text of generated code loads as is the program of its lines. -/
theorem holds_of_parse_linesFrom {unit : String} (hu : Symbol.isSymbol unit.toList = true)
    {cursor : Option Target} {n : Nat} {cmds : List Command} {p : Program}
    (hp : Program.parse (Lines.text (linesFrom cursor (lowerAll unit n cmds))) = .ok p) :
    p.Holds (linesFrom cursor (lowerAll unit n cmds)) :=
  Program.holds_of_parse (legal_linesFrom hu cursor n cmds) (nodup_labels_linesFrom cursor unit n cmds) hp

theorem holds_of_parse_plainLines {unit : String} (hu : Symbol.isSymbol unit.toList = true) {n : Nat}
    {cmds : List Command} {p : Program}
    (hp : Program.parse (Lines.text (plainLines (lowerAll unit n cmds))) = .ok p) :
    p.Holds (plainLines (lowerAll unit n cmds)) :=
  Program.holds_of_parse (legal_plainLines hu n cmds) (nodup_labels_plainLines unit n cmds) hp

/-- Short code loads, with its needless loads or without. -/
theorem exists_parse_plainLines {unit : String} (hu : Symbol.isSymbol unit.toList = true) {n : Nat}
    {cmds : List Command} (hs : Lines.size (plainLines (lowerAll unit n cmds)) ≤ variableRoom) :
    ∃ p, Program.parse (Lines.text (plainLines (lowerAll unit n cmds))) = .ok p :=
  Program.exists_parse_of_size_le (legal_plainLines hu n cmds) (nodup_labels_plainLines unit n cmds) hs

theorem exists_parse_linesFrom {unit : String} (hu : Symbol.isSymbol unit.toList = true)
    {cursor : Option Target} {n : Nat} {cmds : List Command}
    (hs : Lines.size (plainLines (lowerAll unit n cmds)) ≤ variableRoom) :
    ∃ p, Program.parse (Lines.text (linesFrom cursor (lowerAll unit n cmds))) = .ok p :=
  Program.exists_parse_of_size_le (legal_linesFrom hu cursor n cmds) (nodup_labels_linesFrom cursor unit n cmds)
    (Nat.le_trans ((linesFrom_sublist cursor _).filterMap _).length_le hs)

end Hack.Codegen
