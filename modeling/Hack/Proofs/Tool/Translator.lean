/-
What the translator leaves behind. A run that ends well has read and compiled every unit that it was given, and
where it was to write a unit's assembly text it has written that of the unit or of another one of the same name
whose output is there too. Nothing else has changed.
-/
import Hack.Proofs.Path
import Hack.Proofs.Tool.Script
import Hack.Tool.Translator
import Mathlib.Data.List.Induction

namespace Hack.Tool

open Text Vm Codegen

/-! ## Units -/

/-- The file's path is only told in errors. -/
theorem compileFrom_file {file : String} {c : Context} {spans : List Span} {lines : List SourceLine} {code : Code}
    (h : compileFrom file c spans lines = .ok code) (other : String) : compileFrom other c spans lines = .ok code := by
  induction lines generalizing c spans with
  | nil => exact h
  | cons line lines ih =>
    rw [compileFrom] at h ⊢
    split at h
    · cases h
    · exact ih h

namespace Translator

variable {read : String → Found} {path : String}

/-- The assembly text of the unit at a path, if the path names one that compiles. -/
def translation? (read : String → Found) (path : String) : Option String :=
  match unitName path, read path with
  | .ok name, .file bytes => (String.fromUTF8? bytes).bind fun text => (compileText name text).toOption.map Code.text
  | _, _ => none

/-- What is read of a unit. -/
theorem file_of_loadUnit {unit : Source} (h : loadUnit read path = .ok unit) :
    ∃ name bytes text, unitName path = .ok name ∧ read path = .file bytes ∧ String.fromUTF8? bytes = some text ∧
      unit = Source.ofFile path name text.toList := by
  unfold loadUnit at h
  split at h
  · cases h
  · rename_i name hname
    split at h
    · cases h
    · cases h
    · rename_i bytes hbytes
      split at h
      · rename_i text htext
        cases h
        exact ⟨name, bytes, text, hname, hbytes, htext, rfl⟩
      · cases h

theorem path_of_loadUnit {unit : Source} (h : loadUnit read path = .ok unit) : unit.path = path := by
  obtain ⟨name, bytes, text, -, -, -, rfl⟩ := file_of_loadUnit h
  rfl

theorem translation?_of_loadUnit {unit : Source} {code : Code} (hl : loadUnit read path = .ok unit)
    (hc : compile unit = .ok code) : translation? read path = some code.text := by
  obtain ⟨name, bytes, text, hname, hbytes, htext, rfl⟩ := file_of_loadUnit hl
  have hcode : compileText name text = .ok code := compileFrom_file hc _
  unfold translation?
  rw [hname, hbytes]
  show (String.fromUTF8? bytes).bind _ = _
  rw [htext, Option.bind_some, hcode]
  rfl

/-! ## Scripts -/

/-- A line that is said or not. -/
def IsSay (say : String → List Action) : Prop :=
  ∀ line, writesOf (say line) = []

theorem loadUnits_ok {say : String → List Action} (hsay : IsSay say) {paths : List String} {actions : List Action}
    {units : List Source} (h : loadUnits say read paths = (actions, .ok units)) :
    writesOf actions = [] ∧ units.map (·.path) = paths ∧ ∀ unit ∈ units, loadUnit read unit.path = .ok unit := by
  induction paths generalizing actions units with
  | nil =>
    cases h
    exact ⟨rfl, rfl, by simp⟩
  | cons path paths ih =>
    unfold loadUnits at h
    cases hu : loadUnit read path with
    | error message =>
      rw [hu] at h
      cases h
    | ok unit =>
      rw [hu] at h
      rcases hrest : loadUnits say read paths with ⟨rest, message | others⟩
      · rw [hrest] at h
        cases h
      · rw [hrest] at h
        cases h
        obtain ⟨hwrites, hpaths, hloaded⟩ := ih hrest
        have hpath := path_of_loadUnit hu
        refine ⟨?_, ?_, ?_⟩
        · rw [writesOf_append, hsay, hwrites]
          rfl
        · rw [List.map_cons, hpath, hpaths]
        · rw [List.forall_mem_cons, hpath]
          exact ⟨hu, hloaded⟩

theorem distinct_concat (units : List Source) (unit : Source) :
    distinct (units ++ [unit]) =
      if (distinct units).any (·.path = unit.path) then distinct units else distinct units ++ [unit] := by
  rw [distinct, List.foldl_append]
  rfl

theorem mem_of_mem_distinct {units : List Source} {unit : Source} (h : unit ∈ distinct units) : unit ∈ units := by
  induction units using List.reverseRecOn with
  | nil => exact h
  | append_singleton units last ih =>
    rw [distinct_concat] at h
    split at h
    · exact List.mem_append_left _ (ih h)
    · rcases List.mem_append.1 h with h | h
      · exact List.mem_append_left _ (ih h)
      · exact List.mem_append_right _ h

/-- Every path is kept. -/
theorem exists_mem_distinct {units : List Source} {unit : Source} (h : unit ∈ units) :
    ∃ u ∈ distinct units, u.path = unit.path := by
  induction units using List.reverseRecOn with
  | nil => cases h
  | append_singleton units last ih =>
    rw [distinct_concat]
    rcases List.mem_append.1 h with h | h
    · obtain ⟨u, hu, hpath⟩ := ih h
      split
      · exact ⟨u, hu, hpath⟩
      · exact ⟨u, List.mem_append_left _ hu, hpath⟩
    · rw [List.mem_singleton.1 h]
      split
      · rename_i hany
        obtain ⟨u, hu, hpath⟩ := List.any_eq_true.1 hany
        exact ⟨u, hu, of_decide_eq_true hpath⟩
      · exact ⟨last, List.mem_append_right _ (List.mem_singleton_self _), rfl⟩

theorem allCompiled_ok {units : List Source} {compiled : List Compiled} (h : allCompiled units = some compiled) :
    compiled.map (·.1) = units ∧ ∀ u ∈ compiled, compile u.1 = .ok u.2 := by
  induction units generalizing compiled with
  | nil =>
    cases h
    exact ⟨rfl, by simp⟩
  | cons unit units ih =>
    unfold allCompiled at h
    cases hc : compile unit with
    | error d =>
      rw [hc] at h
      cases h
    | ok code =>
      rw [hc] at h
      obtain ⟨rest, hrest, rfl⟩ := Option.map_eq_some_iff.1 h
      obtain ⟨hunits, hcodes⟩ := ih hrest
      exact ⟨by rw [List.map_cons, hunits], List.forall_mem_cons.2 ⟨hc, hcodes⟩⟩

theorem writesOf_reportUnit {say : String → List Action} (hsay : IsSay say) (unit : Source) :
    writesOf (reportUnit say unit (compile unit)) = [] := by
  unfold reportUnit
  split
  · exact hsay _
  · exact writesOf_map_say _

/-- What a run of the translator that ends well writes: for each of its paths, a translation. -/
theorem writesOf_process {a : Arguments} {say : String → List Action} (hsay : IsSay say) {units : List Source}
    (ho : a.value? "output" = none) (hexit : (process a say units).exit = 0) :
    ∃ compiled, allCompiled units = some compiled ∧
      writesOf (process a say units).actions = compiled.map fun u => (asmPath u.1.path, u.2.text) := by
  unfold process at hexit ⊢
  cases hc : allCompiled units with
  | none =>
    rw [hc] at hexit
    cases hexit
  | some compiled =>
    refine ⟨compiled, rfl, ?_⟩
    have hwrites (u : Compiled) : writesOf (writeUnit say none u) = [(asmPath u.1.path, u.2.text)] := by
      rw [writeUnit, writesOf_append, hsay]
      rfl
    have hlistings : writesOf (if a.has "dump" then compiled.flatMap fun u => (listing u.1 u.2).map .say else []) = [] := by
      split
      · exact writesOf_flatMap_nil (fun u => writesOf_map_say _) compiled
      · rfl
    dsimp only
    rw [writesOf_append, writesOf_append, writesOf_append, writesOf_append, hsay, hsay, hlistings, ho,
      writesOf_flatMap_nil (writesOf_reportUnit hsay), writesOf_flatMap_singleton hwrites]
    simp only [List.nil_append, List.append_nil]

/-- Whether one output is named for several units. -/
def Misused (a : Arguments) : Prop :=
  a.has "output" = true ∧ 1 < a.operands.length

/-- A line of progress, which is left out of quiet runs. -/
def quietly (a : Arguments) (line : String) : List Action :=
  if a.has "quiet" then [] else [.say line]

theorem isSay_quietly (a : Arguments) : IsSay (quietly a) := by
  intro line
  unfold quietly
  split <;> rfl

/-- A run reads all units first and works on those with different paths then. -/
theorem run_of_not_misused {a : Arguments} (h : ¬ Misused a) (read : String → Found) :
    run a read =
      match loadUnits (quietly a) read a.operands with
      | (loading, .error message) =>
        .failing (quietly a "Hack VM Translator" ++ quietly a "1. Read Files" ++ loading) message
      | (loading, .ok units) =>
        ⟨quietly a "Hack VM Translator" ++ quietly a "1. Read Files" ++ loading ++
          (process a (quietly a) (distinct units)).actions, (process a (quietly a) (distinct units)).exit⟩ :=
  if_neg h

/-- What a run that ends well writes: a translation for each of its paths, and nothing else. -/
theorem writesOf_run {a : Arguments} (ho : a.has "output" = false) (hexit : (run a read).exit = 0) :
    ∃ outs : List (String × String), writesOf (run a read).actions = outs.map (fun out => (asmPath out.1, out.2)) ∧
      (∀ out ∈ outs, out.1 ∈ a.operands ∧ translation? read out.1 = some out.2) ∧
      ∀ path ∈ a.operands, ∃ out ∈ outs, out.1 = path := by
  have hvalue : a.value? "output" = none := by
    rw [Arguments.has, Option.isSome_eq_false_iff, Option.isNone_iff_eq_none] at ho
    rw [Arguments.value?, ho]
    rfl
  have hm : ¬ Misused a := by
    rintro ⟨ho', -⟩
    rw [ho] at ho'
    cases ho'
  have hsay := isSay_quietly a
  rw [run_of_not_misused hm] at hexit ⊢
  rcases hl : loadUnits (quietly a) read a.operands with ⟨loading, message | units⟩
  · rw [hl] at hexit
    cases hexit
  · rw [hl] at hexit
    obtain ⟨hloading, hpaths, hloaded⟩ := loadUnits_ok hsay hl
    obtain ⟨compiled, hc, hprocess⟩ := writesOf_process hsay hvalue hexit
    obtain ⟨hunits, hcodes⟩ := allCompiled_ok hc
    have hkept : ∀ u ∈ compiled, u.1 ∈ units := by
      intro u hu
      exact mem_of_mem_distinct (hunits ▸ List.mem_map_of_mem hu)
    refine ⟨compiled.map fun u => (u.1.path, u.2.text), ?_, ?_, ?_⟩
    · dsimp only
      rw [writesOf_append, writesOf_append, writesOf_append, hsay, hsay, hloading, hprocess, List.map_map]
      rfl
    · intro out hout
      obtain ⟨u, hu, rfl⟩ := List.mem_map.1 hout
      refine ⟨?_, translation?_of_loadUnit (hloaded u.1 (hkept u hu)) (hcodes u hu)⟩
      rw [← hpaths]
      exact List.mem_map_of_mem (hkept u hu)
    · intro path hpath
      rw [← hpaths] at hpath
      obtain ⟨unit, hunit, rfl⟩ := List.mem_map.1 hpath
      obtain ⟨v, hv, hvpath⟩ := exists_mem_distinct hunit
      rw [← hunits] at hv
      obtain ⟨u, hu, rfl⟩ := List.mem_map.1 hv
      exact ⟨_, List.mem_map_of_mem hu, hvpath⟩

/-! ## Outputs -/

section

variable {files : Files} {place : Location}

/-- The last part of a path to a file is its name. -/
theorem last_of_read {bytes : ByteArray} (h : files.read path = .file bytes) {init : List (List Char)} {last : List Char}
    (hs : splitAt '/' path.toList = init ++ [last]) : last ≠ [] ∧ last ≠ ['.'] := by
  rw [← not_or]
  intro hlast
  cases hl : files.locate path with
  | none =>
    unfold Files.read at h
    rw [hl] at h
    cases h
  | some place =>
    obtain ⟨dir, -, hdir, hplace⟩ := Files.locate_concat hs hl
    have hnext : Files.next dir (String.ofList last) = dir := by
      refine if_pos ?_
      rcases hlast with rfl | rfl
      · exact .inl rfl
      · exact .inr rfl
    rw [hplace, hnext] at hl
    rw [Files.read_of_isDirectory hl hdir] at h
    cases h

/-- No place where something always is has a name with an extension. -/
theorem lookup_standing_asm (dir : Location) (name : String) : Files.standing.lookup (dir ++ [name ++ ".asm"]) = none := by
  rw [List.lookup_eq_none_iff]
  have hdot : ∀ e ∈ Files.standing, '.' ∉ (e.1.getLast?.getD "").toList := by decide
  intro e he
  rw [bne_iff_ne]
  intro heq
  refine hdot e he ?_
  rw [← heq, List.getLast?_concat, Option.getD_some, String.toList_append]
  exact List.mem_append_right _ (by decide)

/-- A name with an extension leads down from a directory. -/
theorem next_asm (dir : Location) (name : String) : Files.next dir (name ++ ".asm") = dir ++ [name ++ ".asm"] := by
  have hne (s : String) (hs : s.toList.length < 4) : name ++ ".asm" ≠ s := by
    rintro rfl
    rw [String.toList_append, List.length_append] at hs
    have hlen : ".asm".toList.length = 4 := rfl
    omega
  unfold Files.next
  rw [if_neg (not_or.2 ⟨hne "" (by decide), hne "." (by decide)⟩), if_neg (hne ".." (by decide))]

/-- A unit's name is the stem of its path. -/
theorem stem_of_unitName {name : String} (h : unitName path = .ok name) :
    ∃ extension, Path.extension? path.toList = some extension ∧ Path.stem? path.toList = some name.toList := by
  unfold unitName at h
  split at h
  · rename_i hext
    obtain ⟨extension, he⟩ : ∃ extension, Path.extension? path.toList = some extension := by
      unfold Path.hasExtension at hext
      cases he : Path.extension? path.toList with
      | none =>
        rw [he] at hext
        cases hext
      | some extension => exact ⟨extension, rfl⟩
    refine ⟨extension, he, ?_⟩
    split at h
    · rename_i stem hstem
      split at h
      · cases h
        rw [hstem, String.toList_ofList]
      · cases h
    · cases h
  · cases h

/-- Where the output of a unit goes: to a file with the unit's name in some directory, unless a directory
is there. -/
theorem target_of_translation {text : String} (hplain : files.Plain) (ht : translation? files.read path = some text)
    (hl : files.locate (asmPath path) = some place) :
    files.isDirectory place = true ∨
      (files.Writable place ∧ ∃ dir name, unitName path = .ok name ∧ place = dir ++ [name ++ ".asm"]) := by
  unfold translation? at ht
  split at ht
  · rename_i name bytes hname hbytes
    obtain ⟨init, last, hs⟩ := exists_splitAt '/' path.toList
    obtain ⟨hne, hdot⟩ := last_of_read hbytes hs
    obtain ⟨extension, hext, hstem⟩ := stem_of_unitName hname
    obtain ⟨stem, hstem', hdots, rfl, heq⟩ := Path.exists_stem hs hne hdot hext
    rw [hstem] at heq
    cases heq
    by_cases hone : name.toList = ['.']
    · -- the output would be `..`
      rw [hone] at hs
      have hsplit := Path.splitAt_withExtension_dot hs hext "asm".toList
      rw [← String.toList_ofList (l := Path.withExtension _ _)] at hsplit
      obtain ⟨dir, hreached, -, rfl⟩ := Files.locate_concat hsplit hl
      exact .inl hreached.isDirectory_parent
    · have hsplit := Path.splitAt_withExtension hs hstem' hone hext (by decide : '/' ∉ "asm".toList)
      rw [← String.toList_ofList (l := Path.withExtension _ _)] at hsplit
      obtain ⟨dir, -, -, hplace⟩ := Files.locate_concat hsplit hl
      have hlast : String.ofList (name.toList ++ '.' :: "asm".toList) = name ++ ".asm" := by
        apply String.toList_inj.1
        rw [String.toList_ofList, String.toList_append]
        rfl
      rw [hlast, next_asm] at hplace
      rcases hplain.ordinary (hplace ▸ lookup_standing_asm dir name) with hd | hw
      · exact .inl hd
      · exact .inr ⟨hw, dir, name, hname, hplace⟩
  · cases ht

/-- Units of one name whose paths lead to the same file have the same assembly text. -/
theorem translation?_congr {other : String} (hname : unitName other = unitName path)
    (hl : files.locate other = files.locate path) : translation? files.read other = translation? files.read path := by
  have hread : files.read other = files.read path := by
    unfold Files.read
    rw [hl]
  rw [translation?, translation?, hname, hread]

/-- Two units share an output only if they have the same name. -/
theorem unitName_of_locate {other text text' : String} (hplain : files.Plain)
    (ht : translation? files.read path = some text) (ht' : translation? files.read other = some text')
    (hl : files.locate (asmPath path) = some place) (hl' : files.locate (asmPath other) = some place)
    (hw : files.Writable place) : unitName other = unitName path := by
  have hdir : ¬ files.isDirectory place = true := by
    rw [hw.isDirectory]
    exact Bool.false_ne_true
  obtain ⟨-, dir, name, hname, hplace⟩ := (target_of_translation hplain ht hl).resolve_left hdir
  obtain ⟨-, dir', name', hname', hplace'⟩ := (target_of_translation hplain ht' hl').resolve_left hdir
  have hlast : name' ++ ".asm" = name ++ ".asm" :=
    List.singleton_inj.1 (List.append_inj' (hplace'.symm.trans hplace) rfl).2
  rw [hname, hname', (String.append_left_inj _).1 hlast]

end

theorem script_of_read {args : List String} {a : Arguments} (ha : grammar.read args = .ok a) (read : String → Found) :
    tool.script args read = run a read := by
  have hread : tool.grammar.read args = .ok a := ha
  unfold Tool.script
  rw [hread]
  rfl

/-- What a run without an output path leaves behind if it ends well. At the output of each unit is the assembly
text of a unit of the same name that shares it, which is the unit's own if no other file shares the output; and
whatever is no output is unchanged. -/
theorem outputs_onFiles {args : List String} {a : Arguments} {files : Files} (hplain : files.Plain)
    (ha : grammar.read args = .ok a) (ho : a.has "output" = false) (hexit : (tool.onFiles args files).exit = 0) :
    (∀ path ∈ a.operands, ∃ other ∈ a.operands, unitName other = unitName path ∧
      files.locate (asmPath other) = files.locate (asmPath path) ∧ ∃ text, translation? files.read other = some text ∧
        (tool.onFiles args files).files.read (asmPath path) = .file text.toUTF8) ∧
    (∀ path ∈ a.operands,
      (∀ other ∈ a.operands, files.locate (asmPath other) = files.locate (asmPath path) →
        files.locate other = files.locate path) →
      ∃ text, translation? files.read path = some text ∧
        (tool.onFiles args files).files.read (asmPath path) = .file text.toUTF8) ∧
    ∀ place, (∀ path ∈ a.operands, files.locate (asmPath path) ≠ some place) →
      Files.entry? (tool.onFiles args files).files place = files.entry? place := by
  unfold Tool.onFiles at hexit ⊢
  rw [script_of_read ha] at hexit ⊢
  unfold Script.perform at hexit ⊢
  obtain ⟨outs, hwrites, houts, hall⟩ := writesOf_run ho (exit_of_perform hexit)
  -- an output never goes to a device: these have no extension
  have hplaces : ∀ w ∈ writesOf (run a files.read).actions, ∀ place, files.locate w.1 = some place →
      files.Ordinary place := by
    intro w hw place hl
    rw [hwrites] at hw
    obtain ⟨out, hout, rfl⟩ := List.mem_map.1 hw
    exact (target_of_translation hplain (houts out hout).2 hl).imp_right And.left
  have hwrote := wrote_of_perform hplaces hexit
  rw [hwrites] at hwrote
  have hfound : ∀ path ∈ a.operands, ∃ other ∈ a.operands, unitName other = unitName path ∧
      files.locate (asmPath other) = files.locate (asmPath path) ∧ ∃ text, translation? files.read other = some text ∧
        (perform files (run a files.read).exit [] (run a files.read).actions).files.read (asmPath path) =
          .file text.toUTF8 := by
    intro path hpath
    obtain ⟨out, hout, rfl⟩ := hall path hpath
    obtain ⟨place, hl, hw, w, hmem, hl', hread⟩ := hwrote.read (List.mem_map_of_mem hout)
    -- the last write to a place may come from another unit, but that has the same name
    obtain ⟨last, hlast, rfl⟩ := List.mem_map.1 hmem
    obtain ⟨hoperand, htext⟩ := houts last hlast
    have hname := unitName_of_locate hplain (houts out hout).2 htext hl hl' hw
    exact ⟨last.1, hoperand, hname, hl'.trans hl.symm, last.2, htext, hread⟩
  refine ⟨hfound, ?_, ?_⟩
  · intro path hpath hown
    obtain ⟨other, hother, hname, hl, text, htext, hread⟩ := hfound path hpath
    rw [translation?_congr hname (hown other hother hl)] at htext
    exact ⟨text, htext, hread⟩
  · intro place hplace
    refine hwrote.entry_of_ne ?_
    intro w hw
    obtain ⟨out, hout, rfl⟩ := List.mem_map.1 hw
    exact hplace out.1 (houts out hout).1

/-- Two units of the same name in different directories. -/
def apart : Files :=
  .ofList [("A.vm", .file "push constant 1\n".toUTF8), ("sub/A.vm", .file "push constant 2\n".toUTF8)]

theorem outputs_onFiles_apart :
    (∃ text, translation? apart.read "A.vm" = some text ∧
      (tool.onFiles ["-q", "A.vm", "sub/A.vm"] apart).files.read "A.asm" = .file text.toUTF8) ∧
    ∃ text, translation? apart.read "sub/A.vm" = some text ∧
      (tool.onFiles ["-q", "A.vm", "sub/A.vm"] apart).files.read "sub/A.asm" = .file text.toUTF8 := by
  have hplain : apart.Plain := .ofList (by simp [Files.IsPlain])
  have hexit : (tool.onFiles ["-q", "A.vm", "sub/A.vm"] apart).exit = 0 := by decide +kernel
  have ha : grammar.read ["-q", "A.vm", "sub/A.vm"] = .ok ⟨[("quiet", none)], ["A.vm", "sub/A.vm"]⟩ := rfl
  have hown : ∀ path ∈ ["A.vm", "sub/A.vm"], ∀ other ∈ ["A.vm", "sub/A.vm"],
      apart.locate (asmPath other) = apart.locate (asmPath path) → apart.locate other = apart.locate path := by
    decide +kernel
  have houtputs := (outputs_onFiles hplain ha rfl hexit).2.1
  have hfirst : asmPath "A.vm" = "A.asm" := by decide
  have hsecond : asmPath "sub/A.vm" = "sub/A.asm" := by decide
  constructor
  · rw [← hfirst]
    exact houtputs "A.vm" (by simp) (hown "A.vm" (by simp))
  · rw [← hsecond]
    exact houtputs "sub/A.vm" (by simp) (hown "sub/A.vm" (by simp))

/-- What a file holds, if a file is found. -/
def bytesOf : Found → Option ByteArray
  | .file bytes => some bytes
  | _ => none

/-- Two units whose paths differ in the case of the extension only. -/
def alike : Files :=
  .ofList [("A.vm", .file "push constant 1\n".toUTF8), ("A.VM", .file "push constant 2\n".toUTF8)]

/-- A run on both ends well, but one translation is lost. -/
theorem outputs_onFiles_alike :
    (tool.onFiles ["-q", "A.vm", "A.VM"] alike).exit = 0 ∧
    translation? alike.read "A.vm" = some "@1\nD=A\n@SP\nA=M\nM=D\n@SP\nM=M+1\n" ∧
    (tool.onFiles ["-q", "A.vm", "A.VM"] alike).files.read (asmPath "A.vm") ≠
      .file "@1\nD=A\n@SP\nA=M\nM=D\n@SP\nM=M+1\n".toUTF8 := by
  refine ⟨by decide +kernel, by decide +kernel, ?_⟩
  have hbytes : bytesOf ((tool.onFiles ["-q", "A.vm", "A.VM"] alike).files.read (asmPath "A.vm")) =
      some "@2\nD=A\n@SP\nA=M\nM=D\n@SP\nM=M+1\n".toUTF8 := by
    decide +kernel
  intro hread
  rw [hread] at hbytes
  exact absurd hbytes (by decide)

end Translator

end Hack.Tool
