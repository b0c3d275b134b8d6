/-
What the assembler leaves behind. An input is rejected if it holds no text or one that is no program, and if there is
no output path and the input does not have the extension that is replaced then. A rejected input leaves everything as
it was; any other one is assembled, and the output holds its binary text. An output path that is given makes the
extension count for nothing.
-/
import Hack.Machine.Program
import Hack.Proofs.Tool.Options
import Hack.Proofs.Tool.Script
import Hack.Tool.Assembler

namespace Hack.Tool.Assembler

/-! ## Inputs -/

/-- Where the binary text of an input goes. -/
def target (a : Arguments) (input : String) : String :=
  (a.value? "output").getD (String.ofList (Path.withExtension "hack".toList input.toList))

/-- Why an input is not assembled. -/
inductive Rejected (a : Arguments) (read : String → Found) (input : String) : Prop
  /-- It is not told where to write, and the input has another extension than `asm`. -/
  | extension (ho : a.value? "output" = none) (h : Path.hasExtension "asm".toList input.toList = false)
  /-- There is no file. -/
  | nothing (h : ∀ bytes, read input ≠ .file bytes)
  /-- What is read is no text. -/
  | encoding {bytes : ByteArray} (h : read input = .file bytes) (htext : String.fromUTF8? bytes = none)
  /-- The text is no program. -/
  | program {bytes : ByteArray} {text : String} {e : LoadError} (h : read input = .file bytes)
      (htext : String.fromUTF8? bytes = some text) (hp : Program.parse text = .error e)

/-- Whether the text of an input is that of a program. -/
def Assembles (read : String → Found) (input : String) (p : Program) : Prop :=
  ∃ bytes text, read input = .file bytes ∧ String.fromUTF8? bytes = some text ∧ Program.parse text = .ok p

section

variable {a : Arguments} {read : String → Found} {input : String} {p : Program}

theorem outputPath_eq :
    outputPath a input =
      if a.value? "output" = none ∧ Path.hasExtension "asm".toList input.toList = false then .error ⟨input⟩
      else .ok (target a input) := by
  unfold outputPath target hackPath
  cases a.value? "output" with
  | some path => rfl
  | none =>
    cases Path.hasExtension "asm".toList input.toList with
    | false => rfl
    | true => rfl

/-- An input that is not rejected has an output and is a program. -/
theorem accepted_of_not_rejected (h : ¬ Rejected a read input) :
    outputPath a input = .ok (target a input) ∧ ∃ p, Assembles read input p := by
  constructor
  · rw [outputPath_eq, if_neg]
    rintro ⟨ho, hext⟩
    exact h (.extension ho hext)
  · cases hread : read input with
    | nothing => exact absurd (.nothing (by rw [hread]; exact nofun)) h
    | directory => exact absurd (.nothing (by rw [hread]; exact nofun)) h
    | file bytes =>
      cases htext : String.fromUTF8? bytes with
      | none => exact absurd (.encoding hread htext) h
      | some text =>
        cases hp : Program.parse text with
        | error e => exact absurd (.program hread htext hp) h
        | ok p => exact ⟨p, bytes, text, hread, htext, hp⟩

/-! ## Scripts -/

theorem textOf_ok {text : String} :
    textOf read input = .ok text ↔ ∃ bytes, read input = .file bytes ∧ String.fromUTF8? bytes = some text := by
  unfold textOf
  constructor
  · intro h
    split at h
    · rename_i bytes hbytes
      split at h
      · rename_i htext
        cases h
        exact ⟨bytes, hbytes, htext⟩
      · cases h
    · cases h
  · rintro ⟨bytes, hbytes, htext⟩
    rw [hbytes]
    dsimp only
    rw [htext]

/-- Nothing is written if a phase fails, and that is so if the input is rejected. -/
theorem runOn_of_rejected (h : Rejected a read input) :
    (runOn a read input).exit = 1 ∧ writesOf (runOn a read input).actions = [] := by
  unfold runOn
  cases ho : outputPath a input with
  | error e => exact ⟨rfl, rfl⟩
  | ok out =>
    dsimp only
    cases ht : textOf read input with
    | error e => exact ⟨rfl, rfl⟩
    | ok text =>
      dsimp only
      cases hp : Program.parse text with
      | error e => exact ⟨rfl, rfl⟩
      | ok p =>
        -- all phases have succeeded, which leaves no reason
        obtain ⟨bytes, hbytes, htext⟩ := textOf_ok.1 ht
        cases h with
        | extension hnone hext =>
          rw [outputPath_eq, if_pos ⟨hnone, hext⟩] at ho
          cases ho
        | nothing hnone => exact absurd hbytes (hnone bytes)
        | encoding hbytes' hnone =>
          cases hbytes.symm.trans hbytes'
          rw [htext] at hnone
          cases hnone
        | program hbytes' htext' herror =>
          cases hbytes.symm.trans hbytes'
          cases htext.symm.trans htext'
          rw [hp] at herror
          cases herror

theorem runOn_of_assembles (ho : outputPath a input = .ok (target a input)) (h : Assembles read input p) :
    (runOn a read input).exit = 0 ∧
      writesOf (runOn a read input).actions = [(target a input, p.binaryText)] := by
  obtain ⟨bytes, text, hread, htext, hp⟩ := h
  unfold runOn
  rw [ho, textOf_ok.2 ⟨bytes, hread, htext⟩]
  dsimp only
  rw [hp]
  refine ⟨rfl, ?_⟩
  have hdump : writesOf (if a.has "dump" then (dumpRows p).map .say else []) = [] := by
    split
    · exact writesOf_map_say _
    · rfl
  dsimp only
  rw [writesOf_append, hdump]
  rfl

end

/-! ## Runs -/

theorem script_of_operands {args : List String} {a : Arguments} (ha : grammar.read args = .ok a) {input : String}
    (hinput : a.operands = [input]) (read : String → Found) : tool.script args read = runOn a read input := by
  have hread : tool.grammar.read args = .ok a := ha
  unfold Tool.script
  rw [hread]
  show run a read = _
  rw [run, hinput]

/-- A run on a rejected input fails and leaves all files as they were. Any other input holds a program, and if the
output's place takes files, then the run succeeds, the output holds the binary text of the program, and whatever is
at other places is unchanged. -/
theorem onFiles_of_read {args : List String} {a : Arguments} (ha : grammar.read args = .ok a) (files : Files) :
    ∃ input, a.operands = [input] ∧
      (Rejected a files.read input → (tool.onFiles args files).exit = 1 ∧ (tool.onFiles args files).files = files) ∧
      (¬ Rejected a files.read input → ∃ p, Assembles files.read input p ∧
        ∀ place, files.locate (target a input) = some place → files.Takes place →
          (tool.onFiles args files).exit = 0 ∧
          (tool.onFiles args files).files.read (target a input) = .file p.binaryText.toUTF8 ∧
          ∀ other, other ≠ place → Files.entry? (tool.onFiles args files).files other = files.entry? other) := by
  obtain ⟨input, hinput⟩ := operands_of_read rfl ha
  refine ⟨input, hinput, ?_, ?_⟩
  · intro h
    obtain ⟨hexit, hwrites⟩ := runOn_of_rejected h
    rw [Tool.onFiles, script_of_operands ha hinput, Script.perform, perform_of_writesOf_nil hwrites]
    exact ⟨hexit, rfl⟩
  · intro h
    obtain ⟨ho, p, hp⟩ := accepted_of_not_rejected h
    refine ⟨p, hp, ?_⟩
    intro place hl ht
    obtain ⟨hexit, hwrites⟩ := runOn_of_assembles ho hp
    have hwrite : files.write (target a input) p.binaryText =
        .ok ⟨files.put place (.file p.binaryText.toUTF8), ""⟩ := by
      rw [Files.write, hl]
      exact ht.writeAt _
    obtain ⟨hkept, hfiles⟩ := perform_of_writesOf_singleton hwrites hwrite (runOn a files.read input).exit []
    rw [Tool.onFiles, script_of_operands ha hinput, Script.perform, hkept, hfiles]
    refine ⟨hexit, ?_, ?_⟩
    · have hl' := ht.writable.locate_put p.binaryText.toUTF8 (target a input)
      rw [hl] at hl'
      refine Files.read_of_entry? hl' ?_
      rw [ht.writable.entry?_put, if_pos rfl]
    · intro other hne
      rw [ht.writable.entry?_put, if_neg hne]

/-- One program in two files. -/
def sources : Files :=
  .ofList [("A.asm", .file "@1\n".toUTF8), ("A.txt", .file "@1\n".toUTF8)]

theorem onFiles_of_read_sources :
    ((tool.onFiles ["A.txt"] sources).exit = 1 ∧ (tool.onFiles ["A.txt"] sources).files = sources) ∧
    (tool.onFiles ["-d", "A.asm"] sources).exit = 0 ∧
    (tool.onFiles ["-d", "A.asm"] sources).files.read "A.hack" = .file "0000000000000001\n".toUTF8 := by
  have htxt : grammar.read ["A.txt"] = .ok ⟨[], ["A.txt"]⟩ := rfl
  have hasm : grammar.read ["-d", "A.asm"] = .ok ⟨[("dump", none)], ["A.asm"]⟩ := rfl
  constructor
  · obtain ⟨input, hinput, hrejected, -⟩ := onFiles_of_read htxt sources
    cases hinput
    exact hrejected (.extension rfl (by decide))
  · obtain ⟨input, hinput, hrejected, haccepted⟩ := onFiles_of_read hasm sources
    cases hinput
    have hexit : (tool.onFiles ["-d", "A.asm"] sources).exit = 0 := by decide +kernel
    have hnot : ¬ Rejected ⟨[("dump", none)], ["A.asm"]⟩ sources.read "A.asm" := by
      intro h
      rw [hexit] at hrejected
      exact absurd (hrejected h).1 (by decide)
    obtain ⟨p, ⟨bytes, text, hbytes, htext, hp⟩, hplace⟩ := haccepted hnot
    have hread : sources.read "A.asm" = .file "@1\n".toUTF8 := rfl
    have hdecoded : String.fromUTF8? "@1\n".toUTF8 = some "@1\n" := by decide +kernel
    have hbinary : (Program.parse "@1\n").toOption.map (·.binaryText) = some "0000000000000001\n" := by decide +kernel
    cases hread.symm.trans hbytes
    cases hdecoded.symm.trans htext
    have hword : p.binaryText = "0000000000000001\n" := by
      rw [hp] at hbinary
      exact Option.some.inj hbinary
    have htarget : target ⟨[("dump", none)], ["A.asm"]⟩ "A.asm" = "A.hack" := by decide
    have hlocate : sources.locate "A.hack" = some ["A.hack"] := by decide +kernel
    have htakes : sources.Takes ["A.hack"] := .inr ⟨rfl, by decide⟩
    rw [htarget] at hplace
    obtain ⟨-, houtput, -⟩ := hplace _ hlocate htakes
    rw [hword] at houtput
    exact ⟨hexit, houtput⟩

/-- With an output path the same text is assembled whatever the extension is. -/
theorem onFiles_sources_output :
    Path.hasExtension "asm".toList "A.txt".toList = false ∧
    (tool.onFiles ["-o", "out.hack", "A.txt"] sources).exit = 0 ∧
    sources.read "out.hack" = .nothing ∧
    (tool.onFiles ["-o", "out.hack", "A.txt"] sources).files.read "out.hack" =
      .file "0000000000000001\n".toUTF8 :=
  ⟨by decide, by decide +kernel, rfl, rfl⟩

end Hack.Tool.Assembler
