/-
Whatever compiles can be assembled. The text of a compiled unit loads unless it has too many
instructions, or else too many static cells; no line of it fails to read and no label comes twice. The
program has the instructions of the output in order, a place for every label, jumps to such labels only,
and a variable for every static cell in the order of first use.
-/
import Hack.Proofs.Codegen.Elision

namespace Hack.Codegen

open Vm

/-! ## Units -/

/-- The commands of a unit. -/
def commands (unit : Source) : Except CommandError (List Command) :=
  unit.lines.mapM fun line => Command.parse line.code

/-- Whether a command of a unit compiles. -/
def Accepted (unit : String) (cmd : Command) : Prop :=
  (lower unit 0 cmd).error = none

theorem error_lower (unit : String) (m n : Nat) (cmd : Command) :
    (lower unit m cmd).error = (lower unit n cmd).error := by
  cases cmd <;> rfl

/-- Where lines compile, the first one is a command that does, and the others follow with its span. -/
theorem compileFrom_cons_ok {file : String} {c : Context} {spans : List Span} {line : SourceLine}
    {lines : List SourceLine} {code : Code} (h : compileFrom file c spans (line :: lines) = .ok code) :
    ∃ cmd, Command.parse line.code = .ok cmd ∧ (c.compile cmd).2 = none ∧
      compileFrom file (c.compile cmd).1 (⟨line, c.size, (c.compile cmd).1.size⟩ :: spans) lines = .ok code := by
  rw [compileFrom] at h
  unfold Context.compileLine at h
  cases hp : Command.parse line.code with
  | error e => simp [hp] at h
  | ok cmd =>
    simp only [hp] at h
    cases he : (c.compile cmd).2 with
    | some e =>
      have hc : c.compile cmd = ((c.compile cmd).1, some e) := by rw [← he]
      rw [hc] at h
      cases h
    | none =>
      have hc : c.compile cmd = ((c.compile cmd).1, none) := by rw [← he]
      rw [hc] at h
      exact ⟨cmd, rfl, he, h⟩

/-- Lines compile if each is a command that does. -/
theorem compileFrom_ok {file : String} {c : Context} {spans : List Span} {lines : List SourceLine} {code : Code}
    (h : compileFrom file c spans lines = .ok code) :
    ∃ cmds, lines.mapM (fun line => Command.parse line.code) = .ok cmds ∧
      (∀ cmd ∈ cmds, Accepted c.unit cmd) ∧ code.output = (c.compileAll cmds).emitter.output := by
  induction lines generalizing c spans with
  | nil => cases h; exact ⟨[], rfl, by simp, rfl⟩
  | cons line lines ih =>
    obtain ⟨cmd, hp, he, h⟩ := compileFrom_cons_ok h
    obtain ⟨cmds, hcmds, hacc, hout⟩ := ih h
    refine ⟨cmd :: cmds, ?_, ?_, hout⟩
    · rw [List.mapM_cons, hp, hcmds]
      rfl
    · rw [List.forall_mem_cons]
      exact ⟨(error_lower _ _ _ _).trans he, hacc⟩

theorem compile_ok {unit : Source} {code : Code} (h : compile unit = .ok code) :
    ∃ cmds, commands unit = .ok cmds ∧ (∀ cmd ∈ cmds, Accepted unit.name cmd) ∧
      code.output.toList = linesFrom none (lowerAll unit.name 0 cmds) := by
  obtain ⟨cmds, hcmds, hacc, hout⟩ := compileFrom_ok h
  exact ⟨cmds, hcmds, hacc, by rw [hout, Context.output_compileAll]⟩

/-! ## Jumps -/

/-- Whether a line may jump. -/
def mayJump : Line → Bool
  | .instr (.compute _ _ jump) => jump ≠ .null
  | _ => false

/-- Whether every line that may jump comes right behind the load of one of the labels, `prev` being
the line before the first one. -/
def JumpsTo (labels : List String) : Option Line → List Line → Prop
  | _, [] => True
  | prev, l :: ls =>
    (mayJump l = true → ∃ name ∈ labels, prev = some (.load (.symbol name))) ∧ JumpsTo labels (some l) ls

namespace JumpsTo

variable {labels : List String} {prev : Option Line} {ls ms : List Line}

theorem of_none (h : JumpsTo labels none ls) : JumpsTo labels prev ls := by
  cases ls with
  | nil => trivial
  | cons l ls =>
    refine ⟨fun hj => ?_, h.2⟩
    obtain ⟨name, -, hn⟩ := h.1 hj
    cases hn

theorem append (h : JumpsTo labels prev ls) (h' : JumpsTo labels none ms) : JumpsTo labels prev (ls ++ ms) := by
  induction ls generalizing prev with
  | nil => exact h'.of_none
  | cons l ls ih => exact ⟨h.1, ih h.2⟩

theorem mono {labels' : List String} (h : JumpsTo labels prev ls) (hsub : ∀ name ∈ labels, name ∈ labels') :
    JumpsTo labels' prev ls := by
  induction ls generalizing prev with
  | nil => trivial
  | cons l ls ih =>
    refine ⟨fun hj => ?_, ih h.2⟩
    obtain ⟨name, hn, hp⟩ := h.1 hj
    exact ⟨name, hsub name hn, hp⟩

theorem of_forall (h : ∀ l ∈ ls, mayJump l = false) : JumpsTo labels prev ls := by
  induction ls generalizing prev with
  | nil => trivial
  | cons l ls ih =>
    rw [List.forall_mem_cons] at h
    exact ⟨fun hj => absurd hj (by simp [h.1]), ih h.2⟩

/-- The line before one that may jump. -/
theorem before_jump (h : JumpsTo labels prev ls) {before after : List Line} {l : Line}
    (hls : ls = before ++ l :: after) (hj : mayJump l = true) :
    ∃ name ∈ labels, (before = [] ∧ prev = some (.load (.symbol name))) ∨
      ∃ first, before = first ++ [.load (.symbol name)] := by
  induction ls generalizing prev before with
  | nil => simp at hls
  | cons l' ls ih =>
    cases before with
    | nil =>
      cases hls
      obtain ⟨name, hn, hp⟩ := h.1 hj
      exact ⟨name, hn, .inl ⟨rfl, hp⟩⟩
    | cons b before =>
      cases hls
      obtain ⟨name, hn, ⟨rfl, hp⟩ | ⟨first, rfl⟩⟩ := ih h.2 rfl
      · exact ⟨name, hn, .inr ⟨[], by rw [Option.some.inj hp]; rfl⟩⟩
      · exact ⟨name, hn, .inr ⟨l' :: first, rfl⟩⟩

end JumpsTo

/-- Whether the lines of steps jump to labels that are loaded right before. -/
structure JumpsFrom (labels : List String) (cursor : Option Target) (steps : List Emission) : Prop where
  lines : JumpsTo labels none (linesFrom cursor steps)

namespace JumpsFrom

variable {labels : List String} {cursor : Option Target} {steps more : List Emission}

theorem append (h : JumpsFrom labels cursor steps) (h' : JumpsFrom labels (cursorFrom cursor steps) more) :
    JumpsFrom labels cursor (steps ++ more) :=
  ⟨by rw [linesFrom_append]; exact h.lines.append h'.lines⟩

theorem mono {labels' : List String} (h : JumpsFrom labels cursor steps)
    (hsub : ∀ name ∈ labels, name ∈ labels') : JumpsFrom labels' cursor steps :=
  ⟨h.lines.mono hsub⟩

/-- Steps that cannot jump. -/
theorem plain (h : (plainLines steps).any mayJump = false) : JumpsFrom labels cursor steps := by
  rw [List.any_eq_false] at h
  exact ⟨.of_forall fun l hl => by simpa using h l ((linesFrom_sublist cursor steps).subset hl)⟩

theorem append_plain (h : JumpsFrom labels cursor steps) (h' : (plainLines more).any mayJump = false) :
    JumpsFrom labels cursor (steps ++ more) :=
  h.append (plain h')

/-- The load in front of a jump is emitted unless the cursor is at its label already. -/
theorem jumpTo {name : String} (hn : name ∈ labels) (hc : cursor ≠ some (.direct (.symbol name)))
    (comp : Comp) (jump : Jump) : JumpsFrom labels cursor (Codegen.jumpTo name comp jump) := by
  refine ⟨?_⟩
  simp only [Codegen.jumpTo, pointSymbol, linesFrom_cons, linesFrom_nil, Emission.appends, if_neg hc,
    List.map_cons, List.map_nil, List.singleton_append, List.append_nil]
  exact ⟨by simp [mayJump, Line.load], fun _ => ⟨name, hn, rfl⟩, trivial⟩

theorem append_jumpTo (h : JumpsFrom labels cursor steps) {name : String} (hn : name ∈ labels)
    {known : Option Target} (hne : known ≠ some (.direct (.symbol name))) (hc : cursorFrom cursor steps = known)
    (comp : Comp) (jump : Jump) : JumpsFrom labels cursor (steps ++ Codegen.jumpTo name comp jump) :=
  h.append (jumpTo hn (by rw [hc]; exact hne) comp jump)

end JumpsFrom

section

variable {cursor : Option Target} {unit : String} {l : CompareLabels}

theorem Resolved.mayJump {seg : Segment} {n : UInt16} {address : List Emission} (h : Resolved unit seg n address) :
    (plainLines address).any mayJump = false := by
  cases h <;> rfl

theorem jumpsFrom_order (hd : l.toList.Nodup) (hs : scratch ∉ l.toList) :
    JumpsFrom l.toList cursor (order l) := by
  have hneg : l.negative ∈ l.toList := by simp [CompareLabels.toList]
  have hsame : l.sameSign ∈ l.toList := by simp [CompareLabels.toList]
  have hready : l.ready ∈ l.toList := by simp [CompareLabels.toList]
  have hnone : (none : Option Target) ≠ some (.direct (.symbol l.negative)) := (Option.some_ne_none _).symm
  have hss : some (Target.direct (.symbol scratch)) ≠ some (.direct (.symbol l.sameSign)) := by
    simpa using ne_of_mem_of_not_mem hsame hs |>.symm
  have hsr : some (Target.direct (.symbol l.sameSign)) ≠ some (.direct (.symbol l.ready)) := by
    simp only [CompareLabels.toList, List.nodup_cons, List.mem_cons, List.not_mem_nil, or_false, not_or] at hd
    simpa using hd.2.1.1
  unfold order
  -- from the last block to the first
  refine .append_plain ?_ rfl
  refine .append_plain (.append_plain ?_ rfl) rfl
  refine .append_plain ?_ rfl
  refine .append_jumpTo (.append_plain ?_ rfl) hready hsr rfl .zero .jmp
  refine .append_jumpTo (.append_plain ?_ rfl) hsame hss rfl .d .jlt
  refine .append_plain ?_ rfl
  refine .append_jumpTo (.append_plain ?_ rfl) hready hsr rfl .zero .jmp
  refine .append_jumpTo (.append_plain ?_ rfl) hsame hss rfl .d .jge
  exact .append_jumpTo (.plain rfl) hneg hnone rfl .d .jlt

theorem jumpsFrom_truth (hd : l.toList.Nodup) (jump : Jump) (hc : cursor ≠ some (.direct (.symbol l.onTrue))) :
    JumpsFrom l.toList cursor (truth jump l) := by
  have htrue : l.onTrue ∈ l.toList := by simp [CompareLabels.toList]
  have hdone : l.done ∈ l.toList := by simp [CompareLabels.toList]
  have htd : some (Target.direct (.symbol l.onTrue)) ≠ some (.direct (.symbol l.done)) := by
    simp only [CompareLabels.toList, List.nodup_cons, List.mem_cons, List.not_mem_nil, or_false, not_or] at hd
    simpa using hd.2.2.2.1
  unfold truth
  refine .append_plain ?_ rfl
  exact .append_jumpTo (.append_plain (.jumpTo htrue hc .d jump) rfl) hdone htd rfl .zero .jmp

theorem jumpsFrom_operate (hd : l.toList.Nodup) (hs : scratch ∉ l.toList) (op : Op) (cursor : Option Target) :
    JumpsFrom (if op.compares then l.toList else []) cursor (operate l op) := by
  have hcompare (jump : Jump) : JumpsFrom l.toList cursor (compare jump l) := by
    refine .append_plain ((jumpsFrom_order hd hs).append (jumpsFrom_truth hd jump ?_)) rfl
    rw [order, cursorFrom_append]
    exact (Option.some_ne_none _).symm
  cases op with
  | eq | gt | lt => exact hcompare _
  | _ => exact .plain rfl

/-- Every jump of a command comes right behind the load of one of its labels. -/
theorem Shape.jumpsFrom {n : Nat} {compares : Bool} {steps : List Emission} (h : Shape unit n compares steps) :
    JumpsFrom (if compares then (CompareLabels.make unit n).toList else []) cursor steps := by
  cases h with
  | nothing | dropped | again => exact .plain rfl
  | push h i => exact ((JumpsFrom.plain h.mayJump).append (.plain rfl)).append_plain rfl
  | staged h => exact (((JumpsFrom.plain h.mayJump).append (.plain rfl)).append_plain rfl).append (.plain rfl)
  | pop h => exact (JumpsFrom.plain rfl).append ((JumpsFrom.plain h.mayJump).append (.plain rfl))
  | arith op =>
    have hop := jumpsFrom_operate (CompareLabels.nodup_make unit n) (CompareLabels.scratch_notMem_make unit n) op
    exact ((JumpsFrom.plain rfl).append (hop _)).append_plain rfl

theorem jumpsFrom_lowerAll (cursor : Option Target) (unit : String) (n : Nat) (cmds : List Command) :
    JumpsFrom (stepLabels (lowerAll unit n cmds)) cursor (lowerAll unit n cmds) := by
  induction cmds generalizing cursor n with
  | nil => exact .plain rfl
  | cons cmd cmds ih =>
    have hshape := shape_lower unit n cmd
    rw [lowerAll, stepLabels_append, hshape.stepLabels]
    exact (hshape.jumpsFrom.mono fun name hn => List.mem_append_left _ hn).append
      ((ih _ _).mono fun name hn => List.mem_append_right _ hn)

end

/-! ## Static cells -/

/-- The symbols that lines load, in order. -/
def loadedSymbols (ls : List Line) : List String :=
  (Lines.code ls).filterMap Instr.symbol?

/-- The static cells that lines mention, in the order of first use. -/
def staticCells (unit : String) (ls : List Line) : List String :=
  ((loadedSymbols ls).filter fun name => IsStatic unit name).eraseDups

theorem predefined?_of_mem_fixedNames {name : String} (h : name ∈ fixedNames) :
    (Symbol.predefined? name).isSome = true := by
  have table : ∀ name ∈ fixedNames, (Symbol.predefined? name).isSome = true := by decide
  exact table name h

/-- What generated code loads is a fixed name, a static cell or a label. -/
theorem mem_loadedSymbols {unit : String} {labels : List String} {steps : List Emission}
    (h : ∀ s ∈ steps, s.Fits unit labels) {name : String} (hn : name ∈ loadedSymbols (plainLines steps)) :
    name ∈ fixedNames ∨ IsStatic unit name ∨ name ∈ labels := by
  obtain ⟨i, hi, hs⟩ := List.mem_filterMap.1 hn
  obtain rfl := Instr.symbol?_eq_some hs
  obtain ⟨s, hmem, hl⟩ := List.mem_flatMap.1 (Lines.mem_code.1 hi)
  have hfits := h s hmem
  match s, hl, hfits with
  | .line (.instr (.compute dest comp jump)), hl, _ => simp [Emission.plain] at hl
  | .line (.label other), hl, _ => simp [Emission.plain] at hl
  | .point (.direct (.number n)), hl, _ => simp [Emission.plain, Line.load] at hl
  | .point (.direct (.symbol other)), hl, hfits =>
    simp only [Emission.plain, Line.load, List.mem_singleton, Line.instr.injEq, Instr.load.injEq,
      Operand.symbol.injEq] at hl
    rw [hl]
    exact hfits
  | .point (.deref other), hl, hfits =>
    simp only [Emission.plain, Line.load, Line.assign, List.mem_cons, Line.instr.injEq, Instr.load.injEq,
      Operand.symbol.injEq, reduceCtorEq, List.not_mem_nil, or_false] at hl
    rw [hl]
    exact .inl hfits

/-- The variables of generated code are its static cells. -/
theorem variables_eq_staticCells (unit : String) (n : Nat) (cmds : List Command) :
    Lines.variables (linesFrom none (lowerAll unit n cmds)) =
      staticCells unit (linesFrom none (lowerAll unit n cmds)) := by
  unfold Lines.variables freeSymbols staticCells
  rw [labels_linesFrom]
  refine congrArg List.eraseDups (List.filter_congr fun name hn => ?_)
  have hplain : name ∈ loadedSymbols (plainLines (lowerAll unit n cmds)) := by
    have hsub : (loadedSymbols (linesFrom none (lowerAll unit n cmds))).Sublist
        (loadedSymbols (plainLines (lowerAll unit n cmds))) :=
      ((linesFrom_sublist none _).filterMap _).filterMap _
    exact hsub.subset hn
  rw [isFree, Bool.eq_iff_iff]
  simp only [Bool.and_eq_true, Option.isNone_iff_eq_none, Bool.not_eq_true', List.contains_eq_mem,
    decide_eq_false_iff_not, decide_eq_true_eq]
  constructor
  · rintro ⟨hpre, hlab⟩
    rcases mem_loadedSymbols (fits_lowerAll unit n cmds) hplain with h | h | h
    · have := predefined?_of_mem_fixedNames h
      rw [hpre] at this
      cases this
    · exact h
    · exact absurd h hlab
  · rintro ⟨m, rfl⟩
    refine ⟨predefined?_staticName unit m, fun hm => ?_⟩
    obtain ⟨k, -, hk⟩ := mem_stepLabels_lowerAll hm
    exact CompareLabels.ne_staticName hk m rfl

/-! ## Loading -/

/-- A program is what the output of a unit is assembled to. -/
structure Assembled (unit : String) (ls : List Line) (p : Program) : Prop where
  /-- The instructions are those of the output, in order. -/
  code : p.code.toList = Lines.code ls
  /-- A label stands for the number of instructions before it. -/
  label : ∀ before name after, ls = before ++ .label name :: after →
    ∃ a, p.labels[name]? = some a ∧ a.toNat = Lines.size before
  /-- Nothing else is a label. -/
  onlyLabels : ∀ name, name ∈ p.labels → .label name ∈ ls
  /-- A jump goes to a label, which is loaded right before it. -/
  jump : ∀ before dest comp jump after, ls = before ++ .instr (.compute dest comp jump) :: after →
    jump ≠ .null → ∃ first target, before = first ++ [.load (.symbol target)] ∧ .label target ∈ ls
  /-- The variables are the static cells, in the order of first use. -/
  vars : p.vars.names.toList = staticCells unit ls
  /-- They are in consecutive cells. -/
  address : ∀ (i : Nat) name, (staticCells unit ls)[i]? = some name →
    ∃ a, p.vars.addresses[name]? = some a ∧ a.toNat = variableBase + i
  /-- Nothing else is a variable. -/
  onlyVars : ∀ name a, p.vars.addresses[name]? = some a → name ∈ staticCells unit ls

theorem assembled_of_holds {unit : String} {n : Nat} {cmds : List Command} {p : Program}
    (h : p.Holds (linesFrom none (lowerAll unit n cmds))) :
    Assembled unit (linesFrom none (lowerAll unit n cmds)) p := by
  have hvars := h.vars
  have hroom := h.room
  rw [variables_eq_staticCells] at hvars hroom
  have hsize := h.size_le
  refine ⟨h.code, fun before name after hls => ?_, fun name hm => ?_, fun before dest comp jump after hls hj => ?_,
    hvars.order, fun i name hi => ?_, fun name a ha => ?_⟩
  · refine ⟨_, (h.label name _).2 ⟨before, after, hls, rfl⟩, ?_⟩
    rw [hls] at hsize
    simp only [Lines.size_append, Lines.size_label, romSize] at hsize
    exact UInt16.toNat_ofNat_of_lt' (by change _ < 65536; omega)
  · exact Lines.mem_labels.1 (h.mem_labels.1 hm)
  · have hjumps := (jumpsFrom_lowerAll none unit n cmds).lines
    obtain ⟨target, ht, ⟨-, hp⟩ | ⟨first, hfirst⟩⟩ := hjumps.before_jump hls (by simpa [mayJump] using hj)
    · cases hp
    · exact ⟨first, target, hfirst, by rw [← Lines.mem_labels, labels_linesFrom]; exact ht⟩
  · refine ⟨_, (hvars.address name _).2 ⟨i, hi, rfl⟩, ?_⟩
    have hlt := (List.getElem?_eq_some_iff.1 hi).1
    refine UInt16.toNat_ofNat_of_lt' ?_
    simp only [variableRoom, variableEnd, variableBase] at hroom ⊢
    change _ < 65536
    omega
  · obtain ⟨i, hi, -⟩ := (hvars.address name a).1 ha
    exact List.mem_of_getElem? hi

/-- Every unit that compiles can be assembled: its text loads, as the program of its output, unless it
has too many instructions, or else too many static cells. -/
theorem parse_compile {unit : Source} (hu : Symbol.isSymbol unit.name.toList = true) {code : Code}
    (hc : compile unit = .ok code) :
    let ls := code.output.toList
    (romSize < Lines.size ls ∧ Program.parse code.text = .error (.romOverflow (Lines.size ls))) ∨
    (Lines.size ls ≤ romSize ∧ variableRoom < (staticCells unit.name ls).length ∧
      ∃ name, (staticCells unit.name ls)[variableRoom]? = some name ∧
        Program.parse code.text = .error (.ramOverflow name)) ∨
    (Lines.size ls ≤ romSize ∧ (staticCells unit.name ls).length ≤ variableRoom ∧
      ∃ p, Program.parse code.text = .ok p ∧ Assembled unit.name ls p) := by
  intro ls
  obtain ⟨cmds, -, -, hls⟩ := compile_ok hc
  have htext : code.text = Lines.text ls := rfl
  have hvars := variables_eq_staticCells unit.name 0 cmds
  rw [htext, show ls = _ from hls]
  rcases Program.parse_text (legal_linesFrom hu none 0 cmds)
    (nodup_labels_linesFrom none unit.name 0 cmds) with h | ⟨hs, name, hp, hn⟩ | ⟨p, hp, h⟩
  · exact .inl h
  · rw [hvars] at hn
    exact .inr (.inl ⟨hs, (List.getElem?_eq_some_iff.1 hn).1, name, hn, hp⟩)
  · have hroom := h.room
    rw [hvars] at hroom
    exact .inr (.inr ⟨h.size_le, hroom, p, hp, assembled_of_holds h⟩)

theorem parse_compile_statics : ∃ code p, compile (.ofText "Main" "push static 3\npop static 5") = .ok code ∧
    Program.parse code.text = .ok p ∧ p.vars.names.toList = ["Main.3", "Main.5"] := by
  have hu : Symbol.isSymbol (Source.ofText "Main" "push static 3\npop static 5").name.toList = true := by decide
  obtain ⟨code, hc⟩ : ∃ code, compile (.ofText "Main" "push static 3\npop static 5") = .ok code := ⟨_, rfl⟩
  have hcmds : commands (.ofText "Main" "push static 3\npop static 5") = .ok [.push .static 3, .pop .static 5] := rfl
  obtain ⟨cmds, h, -, hls⟩ := compile_ok hc
  cases hcmds.symm.trans h
  have hvars : staticCells "Main" code.output.toList = ["Main.3", "Main.5"] := by
    rw [hls]
    decide
  have hroom : ["Main.3", "Main.5"].length ≤ variableRoom := by decide
  rcases parse_compile hu hc with ⟨hs, -⟩ | ⟨-, hv, -⟩ | ⟨-, -, p, hp, ha⟩
  · rw [hls] at hs
    exact absurd hs (by decide)
  · exact absurd (hvars ▸ hv) (by decide)
  · exact ⟨code, p, hc, hp, ha.vars.trans hvars⟩

end Hack.Codegen
