/-
What the translator does when it cannot do all of its work: nothing is written. That is so if one output is
named for several units, if a unit cannot be read, and if a unit does not compile, whatever the other units
are. Where all units are read and some do not compile, what is printed tells of each of these, in the order of
the command line, the error that ended its compilation.
-/
import Hack.Proofs.Codegen.Accepts
import Hack.Proofs.Machine.Load
import Hack.Proofs.Tool.Translator

namespace Hack.Tool.Translator

open Text Vm Codegen

/-! ## Reasons to fail -/

/-- Whether there is a unit at a path, but it does not compile. -/
def Rejected (read : String → Found) (path : String) : Prop :=
  ∃ unit d, loadUnit read path = .ok unit ∧ compile unit = .error d

/-- Why there is no code for the unit at a path. -/
inductive Refused (read : String → Found) (path : String) : Prop
  /-- The path does not name a unit. -/
  | name {e : NameError} (h : unitName path = .error e)
  /-- Nothing can be opened there. -/
  | nothing (h : read path = .nothing)
  /-- What can be opened cannot be read. -/
  | directory (h : read path = .directory)
  /-- What is read is no text. -/
  | encoding {bytes : ByteArray} (h : read path = .file bytes) (htext : String.fromUTF8? bytes = none)
  /-- The text does not compile. -/
  | rejected (h : Rejected read path)

section

variable {read : String → Found} {path : String} {paths : List String} {say : String → List Action}
  {units : List Source} {a : Arguments}

/-- A unit for which there is no code does not compile, if it can be read. -/
theorem Refused.rejected_of_loadUnit (h : Refused read path) {unit : Source} (hu : loadUnit read path = .ok unit) :
    Rejected read path := by
  obtain ⟨name, bytes, text, hname, hbytes, htext, -⟩ := file_of_loadUnit hu
  cases h with
  | name h =>
    rw [hname] at h
    cases h
  | nothing h =>
    rw [hbytes] at h
    cases h
  | directory h =>
    rw [hbytes] at h
    cases h
  | encoding h hnone =>
    cases hbytes.symm.trans h
    rw [htext] at hnone
    cases hnone
  | rejected h => exact h

/-! ## Reading -/

theorem writesOf_loadUnits (hsay : IsSay say) (read : String → Found) (paths : List String) :
    writesOf (loadUnits say read paths).1 = [] := by
  induction paths with
  | nil => rfl
  | cons path paths ih =>
    unfold loadUnits
    cases loadUnit read path with
    | error message => exact hsay _
    | ok unit =>
      dsimp only
      rw [writesOf_append, hsay, ih]
      rfl

/-- Reading ends at a unit that cannot be read. -/
theorem loadUnits_error (say : String → List Action) (hmem : path ∈ paths) {message : String}
    (h : loadUnit read path = .error message) : ∃ first, (loadUnits say read paths).2 = .error first := by
  induction paths with
  | nil => cases hmem
  | cons other paths ih =>
    unfold loadUnits
    cases hu : loadUnit read other with
    | error first => exact ⟨first, rfl⟩
    | ok unit =>
      rcases List.mem_cons.1 hmem with rfl | hmem
      · rw [h] at hu
        cases hu
      · obtain ⟨first, hfirst⟩ := ih hmem
        exact ⟨first, by dsimp only; rw [hfirst]; rfl⟩

/-- Units that can all be read are named one after the other. -/
theorem loadUnits_of_forall (say : String → List Action) (h : ∀ path ∈ paths, ∃ unit, loadUnit read path = .ok unit) :
    ∃ units, loadUnits say read paths = (paths.flatMap fun path => say ("  < " ++ path), .ok units) := by
  induction paths with
  | nil => exact ⟨[], rfl⟩
  | cons path paths ih =>
    obtain ⟨⟨unit, hunit⟩, hrest⟩ := List.forall_mem_cons.1 h
    obtain ⟨units, hunits⟩ := ih hrest
    refine ⟨unit :: units, ?_⟩
    unfold loadUnits
    rw [hunit, hunits]
    rfl

/-! ## Compiling -/

theorem allCompiled_eq_none (hmem : ∃ unit ∈ units, ∃ d, compile unit = .error d) : allCompiled units = none := by
  obtain ⟨unit, hmem, d, hd⟩ := hmem
  cases hc : allCompiled units with
  | none => rfl
  | some compiled =>
    obtain ⟨hunits, hcodes⟩ := allCompiled_ok hc
    rw [← hunits] at hmem
    obtain ⟨u, hu, rfl⟩ := List.mem_map.1 hmem
    rw [hcodes u hu] at hd
    cases hd

/-- Where a unit does not compile, all are reported and no more is done. -/
theorem process_of_error (hmem : ∃ unit ∈ units, ∃ d, compile unit = .error d) :
    process a say units =
      ⟨say "2. Translate" ++ units.flatMap fun unit => reportUnit say unit (compile unit), 1⟩ := by
  rw [process, allCompiled_eq_none hmem]

/-- Each path once, at its first place. -/
theorem map_path_distinct (units : List Source) :
    (distinct units).map (·.path) = (units.map (·.path)).eraseDups := by
  induction units using List.reverseRecOn with
  | nil => rfl
  | append_singleton units unit ih =>
    have hany : (distinct units).any (·.path = unit.path) = true ↔ unit.path ∈ units.map (·.path) := by
      rw [List.any_eq_true, ← List.mem_eraseDups, ← ih, List.mem_map]
      simp only [decide_eq_true_eq]
    rw [distinct_concat, List.map_append, List.map_singleton, eraseDups_concat, ← ih]
    by_cases h : unit.path ∈ units.map (·.path)
    · rw [if_pos (hany.2 h), if_pos h]
    · rw [if_neg (fun hc => h (hany.1 hc)), if_neg h, List.map_append, List.map_singleton]

/-! ## Runs -/

theorem run_of_misused (h : Misused a) (read : String → Found) :
    run a read = ⟨[.say (errorLine "--output needs exactly one input file")], 2⟩ :=
  if_pos h

theorem run_of_loadUnits_error (h : ¬ Misused a) {message : String}
    (hl : (loadUnits (quietly a) read a.operands).2 = .error message) :
    (run a read).exit = 1 ∧ writesOf (run a read).actions = [] := by
  have hloading := writesOf_loadUnits (isSay_quietly a) read a.operands
  rw [run_of_not_misused h]
  rcases hrun : loadUnits (quietly a) read a.operands with ⟨loading, first | units⟩
  · rw [hrun] at hloading
    refine ⟨rfl, ?_⟩
    dsimp only
    rw [writesOf_failing, writesOf_append, writesOf_append, isSay_quietly, isSay_quietly, hloading]
    rfl
  · rw [hrun] at hl
    cases hl

/-- Where all units are read, whether one does not compile shows among those with different paths. -/
theorem exists_error_distinct (hunits : units.map (·.path) = paths)
    (hloaded : ∀ unit ∈ units, loadUnit read unit.path = .ok unit) (hmem : path ∈ paths) (h : Rejected read path) :
    ∃ unit ∈ distinct units, ∃ d, compile unit = .error d := by
  obtain ⟨unit, d, hunit, hd⟩ := h
  rw [← hunits] at hmem
  obtain ⟨first, hfirst, rfl⟩ := List.mem_map.1 hmem
  obtain ⟨kept, hkept, hpath⟩ := exists_mem_distinct hfirst
  have heq : kept = unit := by
    have hload := hloaded kept (mem_of_mem_distinct hkept)
    rw [hpath, hunit] at hload
    exact (Except.ok.inj hload).symm
  exact ⟨kept, hkept, d, by rw [heq, hd]⟩

/-- A run on units that are all read but do not all compile. -/
theorem run_of_rejected (h : ¬ Misused a) (hload : ∀ path ∈ a.operands, ∃ unit, loadUnit read path = .ok unit)
    (hmem : path ∈ a.operands) (hr : Rejected read path) :
    ∃ units, units.map (·.path) = a.operands ∧ (∀ unit ∈ units, loadUnit read unit.path = .ok unit) ∧
      run a read = ⟨quietly a "Hack VM Translator" ++ quietly a "1. Read Files" ++
        (a.operands.flatMap fun path => quietly a ("  < " ++ path)) ++ (quietly a "2. Translate" ++
          (distinct units).flatMap fun unit => reportUnit (quietly a) unit (compile unit)), 1⟩ := by
  obtain ⟨units, hunits⟩ := loadUnits_of_forall (quietly a) hload
  obtain ⟨-, hpaths, hloaded⟩ := loadUnits_ok (isSay_quietly a) hunits
  refine ⟨units, hpaths, hloaded, ?_⟩
  rw [run_of_not_misused h, hunits]
  dsimp only
  rw [process_of_error (exists_error_distinct hpaths hloaded hmem hr)]

/-- A run that cannot do all of its work fails and writes nothing. -/
theorem run_of_refused (h : Misused a ∨ ∃ path ∈ a.operands, Refused read path) :
    (run a read).exit ≠ 0 ∧ writesOf (run a read).actions = [] := by
  by_cases hm : Misused a
  · rw [run_of_misused hm]
    refine ⟨?_, rfl⟩
    show (2 : UInt32) ≠ 0
    decide
  · obtain ⟨path, hmem, hr⟩ := h.resolve_left hm
    by_cases hload : ∀ path ∈ a.operands, ∃ unit, loadUnit read path = .ok unit
    · -- all units are read, so it is the code of one that is refused
      obtain ⟨unit, hunit⟩ := hload path hmem
      obtain ⟨units, -, -, hrun⟩ := run_of_rejected hm hload hmem (hr.rejected_of_loadUnit hunit)
      rw [hrun]
      constructor
      · show (1 : UInt32) ≠ 0
        decide
      · have hsay := isSay_quietly a
        rw [writesOf_append, writesOf_append, writesOf_append, writesOf_append, hsay, hsay, hsay,
          writesOf_flatMap_nil (fun path => hsay _), writesOf_flatMap_nil (writesOf_reportUnit hsay)]
        rfl
    · push Not at hload
      obtain ⟨other, hother, hnone⟩ := hload
      obtain ⟨message, he⟩ : ∃ message, loadUnit read other = .error message := by
        cases hu : loadUnit read other with
        | error message => exact ⟨message, rfl⟩
        | ok unit => exact absurd hu (hnone unit)
      obtain ⟨first, hfirst⟩ := loadUnits_error (quietly a) hother he
      obtain ⟨hexit, hwrites⟩ := run_of_loadUnits_error hm hfirst
      rw [hexit]
      exact ⟨by decide, hwrites⟩

/-! ## What is printed -/

/-- Lines that are printed unless the run is quiet. -/
def progress (a : Arguments) (lines : List String) : List String :=
  if a.has "quiet" then [] else lines

/-- What is printed of the unit at a path: the error that ended its compilation, or a line of progress. -/
def reportLines (a : Arguments) (read : String → Found) (path : String) : List String :=
  match loadUnit read path with
  | .error _ => []
  | .ok unit =>
    match compile unit with
    | .ok code => progress a ["  * " ++ unit.name ++ " (" ++ toString code.output.size ++ " lines)"]
    | .error d => d.rows

/-- What is printed by a run that has read all units: progress, then a report for each path. -/
def runLines (a : Arguments) (read : String → Found) : List String :=
  progress a (["Hack VM Translator", "1. Read Files"] ++ a.operands.map ("  < " ++ ·) ++ ["2. Translate"]) ++
    a.operands.eraseDups.flatMap (reportLines a read)

theorem linesOf_quietly (a : Arguments) (line : String) : linesOf (quietly a line) = progress a [line] := by
  unfold quietly progress
  split <;> rfl

theorem linesOf_reportUnit {unit : Source} (h : loadUnit read unit.path = .ok unit) :
    linesOf (reportUnit (quietly a) unit (compile unit)) = reportLines a read unit.path := by
  unfold reportLines reportUnit
  rw [h]
  dsimp only
  cases compile unit with
  | ok code => exact linesOf_quietly a _
  | error d => exact linesOf_map_say _

theorem progress_append (a : Arguments) (lines more : List String) :
    progress a (lines ++ more) = progress a lines ++ progress a more := by
  unfold progress
  split <;> rfl

theorem flatMap_progress (a : Arguments) (f : String → String) (paths : List String) :
    (paths.flatMap fun path => progress a [f path]) = progress a (paths.map f) := by
  unfold progress
  split
  · exact List.flatMap_eq_nil_iff.2 fun _ _ => rfl
  · exact (List.map_eq_flatMap ..).symm

theorem linesOf_run_of_rejected (h : ¬ Misused a) (hload : ∀ path ∈ a.operands, ∃ unit, loadUnit read path = .ok unit)
    (hmem : path ∈ a.operands) (hr : Rejected read path) : linesOf (run a read).actions = runLines a read := by
  obtain ⟨units, hpaths, hloaded, hrun⟩ := run_of_rejected h hload hmem hr
  have hreports : ((distinct units).flatMap fun unit => linesOf (reportUnit (quietly a) unit (compile unit))) =
      a.operands.eraseDups.flatMap (reportLines a read) := by
    rw [← hpaths, ← map_path_distinct, List.flatMap_map]
    exact List.flatMap_congr fun unit hunit => linesOf_reportUnit (hloaded unit (mem_of_mem_distinct hunit))
  rw [hrun, runLines, linesOf_append, linesOf_append, linesOf_append, linesOf_append, linesOf_flatMap, linesOf_flatMap,
    hreports]
  simp only [linesOf_quietly]
  rw [flatMap_progress, ← progress_append, ← progress_append, ← List.append_assoc, ← progress_append]
  rfl

/-- What is printed of a unit that does not compile is the first fault of its text. -/
theorem reportLines_of_rejected (h : Rejected read path) :
    ∃ bytes text i raw e, read path = .file bytes ∧ String.fromUTF8? bytes = some text ∧
      FirstFault (lines text.toList) i raw e ∧
      reportLines a read path = (Diagnosis.mk path i (String.ofList raw) e).rows := by
  obtain ⟨unit, d, hunit, hd⟩ := h
  obtain ⟨name, bytes, text, -, hbytes, htext, rfl⟩ := file_of_loadUnit hunit
  rcases forall_or_firstFault (lines text.toList) with hall | ⟨i, raw, e, hfault⟩
  · obtain ⟨code, hcompile⟩ : ∃ code, compile (Source.ofFile path name text.toList) = .ok code :=
      compileFrom_of_forall hall
    rw [hd] at hcompile
    cases hcompile
  · refine ⟨bytes, text, i, raw, e, hbytes, htext, hfault, ?_⟩
    have hcompile : compile (Source.ofFile path name text.toList) = .error ⟨path, 0 + i, String.ofList raw, e⟩ :=
      compileFrom_of_firstFault hfault
    rw [Nat.zero_add] at hcompile
    unfold reportLines
    rw [hunit]
    dsimp only
    rw [hcompile]

end

/-- A command line that cannot be read leaves all files as they are, and so does one of which not all can be done.
Where all units are read but not all compile, what is printed is told by `runLines`: one report for each path, in
which a unit that does not compile is told with its first fault. -/
theorem onFiles_of_refused (args : List String) (files : Files) :
    (∀ stop, grammar.read args = .error stop →
      (tool.onFiles args files).files = files ∧ (stop = .usage → (tool.onFiles args files).exit ≠ 0)) ∧
    ∀ a, grammar.read args = .ok a →
      ((Misused a ∨ ∃ path ∈ a.operands, Refused files.read path) →
        (tool.onFiles args files).exit ≠ 0 ∧ (tool.onFiles args files).files = files) ∧
      (¬ Misused a → (∀ path ∈ a.operands, ∃ unit, loadUnit files.read path = .ok unit) →
        (∃ path ∈ a.operands, Rejected files.read path) →
        (tool.onFiles args files).stdout = String.join ((runLines a files.read).map lineText) ∧
        ∀ path ∈ a.operands, Rejected files.read path →
          ∃ bytes text i raw e, files.read path = .file bytes ∧ String.fromUTF8? bytes = some text ∧
            FirstFault (lines text.toList) i raw e ∧
            reportLines a files.read path = (Diagnosis.mk path i (String.ofList raw) e).rows) := by
  constructor
  · intro stop hstop
    have hread : tool.grammar.read args = .error stop := hstop
    unfold Tool.onFiles Tool.script
    rw [hread]
    refine ⟨by cases stop <;> rfl, ?_⟩
    rintro rfl
    show (2 : UInt32) ≠ 0
    decide
  · intro a ha
    unfold Tool.onFiles
    rw [script_of_read ha]
    constructor
    · intro h
      obtain ⟨hexit, hwrites⟩ := run_of_refused h
      rw [Script.perform, perform_of_writesOf_nil hwrites]
      exact ⟨hexit, rfl⟩
    · intro hm hload hrejected
      obtain ⟨path, hmem, hr⟩ := hrejected
      have hwrites := (run_of_refused (.inr ⟨path, hmem, .rejected hr⟩)).2
      rw [stdout_of_writesOf_nil hwrites, linesOf_run_of_rejected hm hload hmem hr]
      exact ⟨rfl, fun _ _ h => reportLines_of_rejected h⟩

/-- A unit that compiles and two that do not. -/
def mixed : Files :=
  .ofList [("A.vm", .file "push constant 1\n".toUTF8), ("B.vm", .file "add\nfoo\npop constant 0\n".toUTF8),
    ("C.vm", .file "pop constant 0\n".toUTF8)]

/-- The unit that compiles is not written, and each of the others is told once, with its first fault. -/
theorem onFiles_of_refused_mixed :
    ((tool.onFiles ["-q", "B.vm", "A.vm", "C.vm", "B.vm"] mixed).exit ≠ 0 ∧
      (tool.onFiles ["-q", "B.vm", "A.vm", "C.vm", "B.vm"] mixed).files = mixed) ∧
    (tool.onFiles ["-q", "B.vm", "A.vm", "C.vm", "B.vm"] mixed).stdout =
      "\x1b[31m\x1b[1merror\x1b[39m\x1b[22m: Unknown operation: `FOO`\n" ++
      "     \x1b[34m-->\x1b[39m \x1b[4mB.vm:2\x1b[24m\n" ++
      "      \x1b[34m|\x1b[39m\n" ++
      " \x1b[34m   2 |\x1b[39m foo\n" ++
      "      \x1b[34m|\x1b[39m\n" ++
      "\x1b[31m\x1b[1merror\x1b[39m\x1b[22m: Cannot pop into segment CONSTANT\n" ++
      "     \x1b[34m-->\x1b[39m \x1b[4mC.vm:1\x1b[24m\n" ++
      "      \x1b[34m|\x1b[39m\n" ++
      " \x1b[34m   1 |\x1b[39m pop constant 0\n" ++
      "      \x1b[34m|\x1b[39m\n" := by
  have ha : grammar.read ["-q", "B.vm", "A.vm", "C.vm", "B.vm"] =
      .ok ⟨[("quiet", none)], ["B.vm", "A.vm", "C.vm", "B.vm"]⟩ := rfl
  obtain ⟨hrefused, hlines⟩ := (onFiles_of_refused ["-q", "B.vm", "A.vm", "C.vm", "B.vm"] mixed).2 _ ha
  have hfound : ∀ path ∈ ["B.vm", "A.vm", "C.vm", "B.vm"], (loadUnit mixed.read path).toOption.isSome = true := by
    decide +kernel
  have hload : ∀ path ∈ ["B.vm", "A.vm", "C.vm", "B.vm"], ∃ unit, loadUnit mixed.read path = .ok unit := by
    intro path hpath
    cases hu : loadUnit mixed.read path with
    | ok unit => exact ⟨unit, rfl⟩
    | error message =>
      have hsome := hfound path hpath
      rw [hu] at hsome
      cases hsome
  have hrejected : ∃ path ∈ ["B.vm", "A.vm", "C.vm", "B.vm"], Rejected mixed.read path :=
    ⟨"B.vm", List.mem_cons_self, _, ⟨"B.vm", 1, "foo", .unknownOperation "FOO"⟩, rfl, rfl⟩
  have hrun : runLines ⟨[("quiet", none)], ["B.vm", "A.vm", "C.vm", "B.vm"]⟩ mixed.read =
      (Diagnosis.mk "B.vm" 1 "foo" (.unknownOperation "FOO")).rows ++
        (Diagnosis.mk "C.vm" 0 "pop constant 0" (.notWritable .constant)).rows := by
    decide +kernel
  constructor
  · obtain ⟨path, hmem, hr⟩ := hrejected
    exact hrefused (.inr ⟨path, hmem, .rejected hr⟩)
  · rw [(hlines (by simp [Misused, Arguments.has]) hload hrejected).1, hrun]
    decide +kernel

end Hack.Tool.Translator
