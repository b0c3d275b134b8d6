/-
What a label's name is loaded as. A name may be fixed, a label or a variable. A label is never taken for a
variable, wherever its line stands, but a fixed address goes before a label: with such a name the label is noted
and not reached.
-/
import Hack.Proofs.Machine.Loader

namespace Hack

/-- Every instruction that loads a name has become the load of an address. -/
def Program.Loads (p : Program) (ls : List Line) (name : String) (address : Nat) : Prop :=
  ∀ front back, ls = front ++ .instr (.load (.symbol name)) :: back →
    ∃ a, p.words[Lines.size front]? = some (.load a) ∧ a.toNat = address

/-! ## Meanings of a name -/

/-- A text whose lines are fine is loaded if there are no more instructions than cells for variables. -/
theorem Legible.exists_parse {text : String} {ls : List Line} (h : Legible text ls)
    (hs : Lines.size ls ≤ variableRoom) : ∃ p, Program.parse text = .ok p ∧ p.Holds ls := by
  have hroom : variableRoom < romSize := by decide
  obtain ⟨l, hl, hh⟩ := h.laidOut
  have hparse : Program.parse text = Program.ofLayout l := by rw [Program.parse, hl]; rfl
  rw [hparse]
  rcases Program.ofLayout_of_size_le hh (by omega) with hp | ⟨name, -, hn⟩
  · exact hp
  · have hlt := (List.getElem?_eq_some_iff.1 hn).1
    have hvars := Lines.length_variables_le ls
    omega

/-- A text that is loaded is loaded from any lines that it reads as. -/
theorem Legible.holds {text : String} {ls : List Line} {p : Program} (h : Legible text ls)
    (hp : Program.parse text = .ok p) : p.Holds ls := by
  rcases h.parse with ⟨q, hq, hh⟩ | ⟨e, -, he⟩
  · rw [hp] at hq
    cases hq
    exact hh
  · rw [hp] at he
    cases he

namespace Program

variable {p : Program} {ls : List Line} {name : String}

/-- Where a name is loaded, it is loaded as one address. -/
theorem Loads.unique {a b : Nat} (ha : p.Loads ls name a) (hb : p.Loads ls name b)
    (hmem : .instr (.load (.symbol name)) ∈ ls) : a = b := by
  obtain ⟨front, back, hls⟩ := List.append_of_mem hmem
  obtain ⟨v, hv, rfl⟩ := ha front back hls
  obtain ⟨w, hw, rfl⟩ := hb front back hls
  rw [hv] at hw
  cases hw
  rfl

/-- A name is loaded as what it stands for. -/
theorem Holds.loads (h : p.Holds ls) {a : UInt16} (ha : p.symbol? name = some a) : p.Loads ls name a.toNat := by
  intro front back hls
  obtain ⟨w, hw, he⟩ := h.word_at hls
  rw [Instr.word?, ha] at he
  cases he
  exact ⟨a, hw, rfl⟩

theorem Holds.loads_fixed (h : p.Holds ls) {fixed : UInt16} (hfixed : Symbol.predefined? name = some fixed) :
    p.Loads ls name fixed.toNat := by
  refine h.loads ?_
  rw [symbol?, symbolAddress?, hfixed]
  rfl

theorem Holds.loads_label (h : p.Holds ls) {before after : List Line} (hls : ls = before ++ .label name :: after)
    (hfree : Symbol.predefined? name = none) : p.Loads ls name (Lines.size before) := by
  have ha : p.symbol? name = some (UInt16.ofNat (Lines.size before)) := by
    rw [symbol?, symbolAddress?, hfree, (h.label name _).2 ⟨before, after, hls, rfl⟩]
    rfl
  have hloads := h.loads ha
  rwa [UInt16.toNat_ofNat_of_lt' (h.size_lt hls)] at hloads

end Program

/-- A label has no cell. -/
theorem Lines.label_not_mem_variables {ls : List Line} {name : String} (h : .label name ∈ ls) :
    name ∉ Lines.variables ls := by
  intro hv
  have hfree := (mem_freeSymbols.1 hv).1
  simp [isFree, Lines.mem_labels.2 h] at hfree

/-! ## Labels -/

/-- Where the uses of a label's name lead. The label is noted with the number of instructions before it, and no
cell is given to its name. All uses load that number if the name has no fixed address, and the fixed address if it
has one; so they lead to the label exactly if that is no other address, or there are none. -/
theorem Program.loads_label_iff {text : String} {p : Program} (hp : Program.parse text = .ok p) :
    (∃ ls, Legible text ls) ∧ ∀ ls, Legible text ls → ∀ before name after, ls = before ++ .label name :: after →
      p.labels[name]? = some (UInt16.ofNat (Lines.size before)) ∧ Lines.size before ≤ romSize ∧
      p.vars.addresses[name]? = none ∧
      (Symbol.predefined? name = none → p.Loads ls name (Lines.size before)) ∧
      (∀ fixed, Symbol.predefined? name = some fixed → p.Loads ls name fixed.toNat) ∧
      (p.Loads ls name (Lines.size before) ↔ .instr (.load (.symbol name)) ∉ ls ∨
        ∀ fixed, Symbol.predefined? name = some fixed → fixed.toNat = Lines.size before) := by
  refine ⟨?_, fun ls hlegible before name after hls => ?_⟩
  · obtain ⟨ls, hlegible, -⟩ := (Program.parse_exact text).2 p hp
    exact ⟨ls, hlegible⟩
  have h := hlegible.holds hp
  have hsize : Lines.size before ≤ romSize := by
    have := h.size_le
    rw [hls, Lines.size_append] at this
    omega
  refine ⟨(h.label name _).2 ⟨before, after, hls, rfl⟩, hsize, ?_, h.loads_label hls, fun _ => h.loads_fixed, ?_⟩
  · rw [h.vars.mem]
    exact Lines.label_not_mem_variables (by simp [hls])
  · constructor
    · intro hloads
      by_cases hmem : .instr (.load (.symbol name)) ∈ ls
      · exact .inr fun fixed hfixed => (h.loads_fixed hfixed).unique hloads hmem
      · exact .inl hmem
    · rintro (hunused | hsame)
      · intro front back hsplit
        exact absurd (by simp [hsplit]) hunused
      · cases hfixed : Symbol.predefined? name with
        | none => exact h.loads_label hls hfixed
        | some fixed =>
          rw [← hsame fixed hfixed]
          exact h.loads_fixed hfixed

/-- A loop whose label is loaded before it stands anywhere. -/
theorem loads_label_loop : ∃ p, Program.parse "@LOOP\n(LOOP)\n@LOOP\n0;JMP\n" = .ok p ∧
    p.labels["LOOP"]? = some 1 ∧ p.words[0]? = some (.load 1) ∧ p.words[1]? = some (.load 1) := by
  have hlegible : Legible "@LOOP\n(LOOP)\n@LOOP\n0;JMP\n"
      [.load (.symbol "LOOP"), .label "LOOP", .load (.symbol "LOOP"), .branch .zero .jmp] := by
    refine ⟨?_, by decide⟩
    exact .code (by decide) (by decide) (.code (by decide) (by decide)
      (.code (by decide) (by decide) (.code (by decide) (by decide) .nil)))
  obtain ⟨p, hp, -⟩ := hlegible.exists_parse (by decide)
  obtain ⟨hlabel, -, -, htarget, -⟩ := (Program.loads_label_iff hp).2 _ hlegible
    [.load (.symbol "LOOP")] "LOOP" [.load (.symbol "LOOP"), .branch .zero .jmp] rfl
  have hloads := htarget (by decide)
  obtain ⟨a, ha, he⟩ := hloads [] _ rfl
  obtain ⟨b, hb, hf⟩ := hloads [.load (.symbol "LOOP"), .label "LOOP"] _ rfl
  obtain rfl : a = 1 := UInt16.toNat_inj.1 he
  obtain rfl : b = 1 := UInt16.toNat_inj.1 hf
  exact ⟨p, hp, hlabel, ha, hb⟩

/-- The label `SP` is noted as instruction 1, but its name is loaded as 0, the cell of the stack pointer. -/
theorem loads_label_stackPointer : ∃ p, Program.parse "@1\n(SP)\n@SP\n0;JMP\n" = .ok p ∧
    p.labels["SP"]? = some 1 ∧ p.words[1]? = some (.load 0) := by
  have hlegible : Legible "@1\n(SP)\n@SP\n0;JMP\n"
      [.load (.number 1), .label "SP", .load (.symbol "SP"), .branch .zero .jmp] := by
    refine ⟨?_, by decide⟩
    exact .code (by decide) (by decide) (.code (by decide) (by decide)
      (.code (by decide) (by decide) (.code (by decide) (by decide) .nil)))
  obtain ⟨p, hp, hh⟩ := hlegible.exists_parse (by decide)
  refine ⟨p, hp, (hh.label "SP" 1).2 ⟨[.load (.number 1)], _, rfl, by decide⟩, ?_⟩
  have hfixed : Symbol.predefined? "SP" = some 0 := rfl
  obtain ⟨a, ha, he⟩ := hh.loads_fixed hfixed [.load (.number 1), .label "SP"] _ rfl
  obtain rfl : a = 0 := UInt16.toNat_inj.1 he
  exact ha

end Hack
