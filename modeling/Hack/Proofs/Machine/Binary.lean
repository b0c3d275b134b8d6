/-
The file of binary numbers that a program is written to, and what it says when it is read back: sixteen
digits are a code, and a code is a load if it has a leading zero and a computation if it has three leading
ones and a known computation behind them. Every program reads back word for word, except that a load keeps
fifteen bits of its value. Nothing is lost, therefore, unless a full memory of words has a label behind it
and an instruction loads that label: the file then loads 0 where the program loads the label's address.
-/
import Hack.Proofs.Machine.Cpu
import Hack.Proofs.Machine.Parse

namespace Hack

open Text

/-! ## Reading digits -/

/-- The value of a run of binary digits. -/
def binaryValue? (s : List Char) : Option Nat :=
  s.foldlM (fun n c => if c = '0' then some (2 * n) else if c = '1' then some (2 * n + 1) else none) 0

/-- A leading part of a number's sixteen digits is the number without the bits behind it. -/
theorem binaryValue?_range {n : Nat} (hn : n < 2 ^ 16) {len : Nat} (h : len ≤ 16) :
    binaryValue? ((List.range len).map fun i => if n.testBit (15 - i) then '1' else '0') =
      some (n / 2 ^ (16 - len)) := by
  induction len with
  | zero =>
    rw [Nat.sub_zero, Nat.div_eq_of_lt hn]
    rfl
  | succ len ih =>
    have hexp : 16 - len = 15 - len + 1 := by omega
    have hlast : 16 - (len + 1) = 15 - len := by omega
    have hhalf : n / 2 ^ (16 - len) = n / 2 ^ (15 - len) / 2 := by
      rw [hexp, Nat.pow_succ, Nat.div_div_eq_div_mul]
    unfold binaryValue? at ih ⊢
    rw [List.range_succ, List.map_append, List.foldlM_append, ih (by omega), hhalf, hlast,
      List.map_singleton, Nat.testBit_eq_decide_div_mod_eq]
    -- the digits so far are all bits of the longer part but its last, which the next digit is
    generalize n / 2 ^ (15 - len) = m
    by_cases hbit : m % 2 = 1
    · have hm : 2 * (m / 2) + 1 = m := by omega
      simp [hbit, hm]
    · have hm : 2 * (m / 2) = m := by omega
      simp [hbit, hm]

theorem binaryValue?_binary16 (code : UInt16) : binaryValue? (binary16 code) = some code.toNat := by
  rw [binary16, binaryValue?_range code.toNat_lt (Nat.le_refl 16), Nat.sub_self, Nat.pow_zero, Nat.div_one]

/-- The code written with sixteen binary digits. -/
def codeOfDigits? (s : List Char) : Option UInt16 :=
  if s.length = 16 then (binaryValue? s).map UInt16.ofNat else none

/-- The codes in the lines of a text. -/
def codesOfText? (text : String) : Option (List UInt16) :=
  (lines text.toList).mapM codeOfDigits?

theorem codeOfDigits?_binary16 (code : UInt16) : codeOfDigits? (binary16 code) = some code := by
  rw [codeOfDigits?, if_pos (length_binary16 code), binaryValue?_binary16, Option.map_some, UInt16.ofNat_toNat]

theorem plain_binary16 (code : UInt16) : ∀ c ∈ binary16 code, isPlain c = true := by
  intro c hc
  obtain ⟨i, -, rfl⟩ := List.mem_map.1 hc
  split <;> decide

/-- A program's file has a line for the code of every word. -/
theorem codesOfText?_binaryText (p : Program) :
    codesOfText? p.binaryText = some (p.words.toList.map Word.encode) := by
  have hplain : ∀ s ∈ p.words.toList.map fun w => binary16 w.encode, ∀ c ∈ s, isPlain c = true := by
    intro s hs
    obtain ⟨w, -, rfl⟩ := List.mem_map.1 hs
    exact plain_binary16 w.encode
  have hlines : lines p.binaryText.toList = p.words.toList.map fun w => binary16 w.encode := by
    rw [← lines_flatMap_newline hplain, List.flatMap_map, Program.binaryText, String.toList_ofList]
  rw [codesOfText?, hlines]
  generalize p.words.toList = ws
  induction ws with
  | nil => rfl
  | cons w ws ih =>
    rw [List.map_cons, List.mapM_cons, codeOfDigits?_binary16, ih]
    rfl

/-! ## Reading words -/

/-- The computation with a given code. -/
def Comp.ofBits? (bits : Nat) : Option Comp :=
  Comp.all.find? fun c => c.bits.toNat = bits

theorem Comp.ofBits?_bits (c : Comp) : ofBits? c.bits.toNat = some c := by
  have table : ∀ c ∈ all, ofBits? c.bits.toNat = some c := by decide
  exact table c c.mem_all

namespace Word

/-- The word with a given code. -/
def decode? (code : UInt16) : Option Word :=
  if code.toNat < 0x8000 then some (.load code)
  else if code.toNat / 0x2000 = 7 then
    (Comp.ofBits? (compField code)).map fun comp =>
      .compute (.ofBits (destField code)) comp (.ofBits (jumpField code))
  else none

/-- The words written in the lines of a text. -/
def ofBinaryText? (text : String) : Option (List Word) :=
  (codesOfText? text).bind fun codes => codes.mapM decode?

/-- What a code keeps of a word. -/
def stored : Word → Word
  | .load v => .load (v &&& 0x7FFF)
  | w => w

theorem stored_eq_iff {w : Word} : w.stored = w ↔ w.Fits := by
  cases w with
  | load v =>
    show load (v &&& 0x7FFF) = load v ↔ v.toNat < 0x8000
    have hv : (v &&& 0x7FFF).toNat = v.toNat % 0x8000 := toNat_encode_load v
    rw [load.injEq, ← UInt16.toNat_inj, hv]
    omega
  | compute dest comp jump => exact iff_of_true rfl trivial

theorem decode?_encode (w : Word) : decode? w.encode = some w.stored := by
  cases w with
  | load v =>
    have hlt : (load v).encode.toNat < 0x8000 := by
      rw [toNat_encode_load]
      exact Nat.mod_lt _ (by decide)
    rw [decode?, if_pos hlt]
    rfl
  | compute dest comp jump =>
    have hlead := leading_encode dest comp jump
    rw [decode?, if_neg (by omega), if_pos hlead, compField_encode, destField_encode, jumpField_encode,
      Comp.ofBits?_bits, Option.map_some, Dest.ofBits_bits, Jump.ofBits_bits]
    rfl

/-- All that was stored of a program's words reads back from its file. -/
theorem ofBinaryText?_binaryText (p : Program) :
    ofBinaryText? p.binaryText = some (p.words.toList.map stored) := by
  rw [ofBinaryText?, codesOfText?_binaryText, Option.bind_some]
  generalize p.words.toList = ws
  induction ws with
  | nil => rfl
  | cons w ws ih =>
    rw [List.map_cons, List.mapM_cons, decode?_encode, ih]
    rfl

theorem map_stored_eq_iff {ws : List Word} : ws.map stored = ws ↔ ∀ w ∈ ws, w.Fits := by
  induction ws with
  | nil => simp
  | cons w ws ih => rw [List.map_cons, List.cons.injEq, ih, List.forall_mem_cons, stored_eq_iff]

end Word

/-! ## A full memory of words -/

/-- As many words as there can be, with a label behind the last; the first loads `v` and the others jump. -/
def fullMemory (v : Operand) : List Line :=
  .load v :: (List.replicate 0x7FFF (.branch .zero .jmp) ++ [.label "END"])

theorem code_replicate_branch (n : Nat) :
    Lines.code (List.replicate n (.branch .zero .jmp)) = List.replicate n (.compute .null .zero .jmp) := by
  induction n with
  | zero => rfl
  | succ n ih =>
    rw [List.replicate_succ, List.replicate_succ, ← ih]
    rfl

theorem labels_replicate_branch (n : Nat) : Lines.labels (List.replicate n (.branch .zero .jmp)) = [] := by
  induction n with
  | zero => rfl
  | succ n ih =>
    rw [List.replicate_succ, ← ih]
    rfl

theorem labels_fullMemory (v : Operand) : Lines.labels (fullMemory v) = ["END"] := by
  rw [fullMemory, Line.load, Lines.labels_instr, Lines.labels_append, labels_replicate_branch]
  rfl

theorem code_fullMemory (v : Operand) :
    Lines.code (fullMemory v) = .load v :: List.replicate 0x7FFF (.compute .null .zero .jmp) := by
  rw [fullMemory, Line.load, Lines.code_instr, Lines.code_append, code_replicate_branch, Lines.code_label,
    Lines.code_nil, List.append_nil]

theorem size_fullMemory (v : Operand) : Lines.size (fullMemory v) = romSize := by
  rw [Lines.size, code_fullMemory, List.length_cons, List.length_replicate]
  rfl

theorem legal_fullMemory {v : Operand} (hv : v.Legal) : ∀ l ∈ fullMemory v, l.Legal := by
  intro l hl
  rcases List.mem_cons.1 hl with rfl | hl
  · exact hv
  · rcases List.mem_append.1 hl with hl | hl
    · rw [List.eq_of_mem_replicate hl]
      trivial
    · rw [List.mem_singleton.1 hl]
      exact (by decide : Symbol.isSymbol "END".toList = true)

theorem holds_fullMemory {v : Operand} (hv : v.Legal) (hfree : ∀ name, v = .symbol name → isFree ["END"] name = false) :
    ∃ p, Program.parse (Lines.text (fullMemory v)) = .ok p ∧ p.Holds (fullMemory v) := by
  have hd : (Lines.labels (fullMemory v)).Nodup := by
    rw [labels_fullMemory]
    exact List.nodup_singleton _
  rcases Program.parse_text (legal_fullMemory hv) hd with ⟨hlt, -⟩ | ⟨-, name, -, hname⟩ | h
  · rw [size_fullMemory] at hlt
    exact absurd hlt (Nat.lt_irrefl _)
  · -- a variable could only come from the first word
    obtain ⟨hname, hload⟩ := mem_freeSymbols.1 (List.mem_of_getElem? hname)
    rw [code_fullMemory] at hload
    rcases List.mem_cons.1 hload with he | he
    · cases he
      rw [labels_fullMemory, hfree name rfl] at hname
      cases hname
    · cases List.eq_of_mem_replicate he
  · exact h

/-! ## Programs that load -/

/-- What the file of a program that loads says. It gives the words back exactly if no instruction loads the
label behind a full memory of words; then the processor on the file's codes goes where the machine goes. Only
the address of such a label is a value of more than fifteen bits. -/
theorem Program.binaryText_exact_iff {text : String} {p : Program} (h : Program.parse text = .ok p) :
    (Word.ofBinaryText? p.binaryText = some p.words.toList ↔
      ∀ name, .load (.symbol name) ∈ p.code → ¬ p.IsEnd name) ∧
    (∀ v, .load v ∈ p.words → v.toNat < 0x8000 ∨ (v = 0x8000 ∧ p.words.size = romSize)) ∧
    ∃ codes, codesOfText? p.binaryText = some codes ∧
      ((∀ name, .load (.symbol name) ∈ p.code → ¬ p.IsEnd name) →
        ∀ m n, (p.run n m).fault = none → ∀ k ≤ n, Cpu.run codes.toArray k m = (p.run k m).machine) := by
  obtain ⟨ls, hl⟩ := Program.loaded_of_parse h
  refine ⟨?_, ?_, p.words.toList.map Word.encode, codesOfText?_binaryText p, ?_⟩
  · rw [Word.ofBinaryText?_binaryText, Option.some_inj, Word.map_stored_eq_iff, ← hl.forall_fits_iff]
    simp only [Array.mem_toList_iff]
  · intro v hv
    by_cases hfits : (Word.load v).Fits
    · exact .inl hfits
    · exact .inr (hl.load_of_not_fits hv hfits)
  · intro hend m n hf k hk
    have hcodes : (p.words.toList.map Word.encode).toArray = p.words.map Word.encode := by
      rw [← Array.toList_map]
    rw [hcodes]
    refine Cpu.run_encode k hk hf ?_
    -- wherever the machine comes, it finds words of the program only
    intro j _ w hw
    exact hl.forall_fits_iff.2 hend w (Array.mem_of_getElem? hw)

theorem binaryText_exact_iff_number :
    ∃ p, Program.parse (Lines.text (fullMemory (.number 0x7FFF))) = .ok p ∧ p.words.size = romSize ∧
      Word.ofBinaryText? p.binaryText = some p.words.toList := by
  obtain ⟨p, hp, hh⟩ := holds_fullMemory (v := .number 0x7FFF) (by decide : (0x7FFF : UInt16) ≤ maxLiteral) (by simp)
  refine ⟨p, hp, ?_, (Program.binaryText_exact_iff hp).1.2 ?_⟩
  · rw [hh.size_words, size_fullMemory]
  · intro name hload
    rw [← Array.mem_toList_iff, hh.code, code_fullMemory] at hload
    rcases List.mem_cons.1 hload with he | he
    · cases he
    · cases List.eq_of_mem_replicate he

/-- The label behind a full memory of words has an address of sixteen bits. -/
theorem symbol?_fullMemory {p : Program} {v : Operand} (h : p.Holds (fullMemory v)) :
    p.symbol? "END" = some 0x8000 := by
  have hlabel : p.labels["END"]? = some 0x8000 := by
    refine (h.label "END" 0x8000).2
      ⟨.load v :: List.replicate 0x7FFF (.branch .zero .jmp), [], List.cons_append.symm, ?_⟩
    rw [Line.load, Lines.size_instr, Lines.size, code_replicate_branch, List.length_replicate]
    rfl
  have hfixed : Symbol.predefined? "END" = none := by decide
  rw [Program.symbol?, symbolAddress?, hfixed, hlabel]
  rfl

/-- A full memory of words loads, and its file does not give it back: the first word loads the address behind
the memory, so that the machine halts after its jump, but the file's first code loads 0, so that the
processor jumps back to the start. -/
theorem binaryText_fullMemory : ∃ p codes,
    Program.parse (Lines.text (fullMemory (.symbol "END"))) = .ok p ∧
    codesOfText? p.binaryText = some codes ∧ Word.ofBinaryText? p.binaryText ≠ some p.words.toList ∧
    p.words[0]? = some (.load 0x8000) ∧ codes[0]? = some 0 ∧
    p.halted (p.run 2 .start).machine = true ∧ (Cpu.run codes.toArray 2 .start).pc = 0 := by
  obtain ⟨p, hp, hh⟩ := holds_fullMemory (v := .symbol "END") (by decide : Symbol.isSymbol "END".toList = true)
    (by rintro _ ⟨⟩; decide)
  have h0 : p.words[0]? = some (.load 0x8000) := by
    have hfirst : fullMemory (.symbol "END") = [] ++ .instr (.load (.symbol "END")) :: _ := rfl
    obtain ⟨w, hw, he⟩ := hh.word_at hfirst
    rw [Instr.word?, symbol?_fullMemory hh] at he
    cases he
    exact hw
  have h1 : p.words[1]? = some (.compute .null .zero .jmp) := by
    have hsecond : fullMemory (.symbol "END") =
        [.load (.symbol "END")] ++ .instr (.compute .null .zero .jmp) :: _ := rfl
    obtain ⟨w, hw, he⟩ := hh.word_at hsecond
    cases he
    exact hw
  refine ⟨p, p.words.toList.map Word.encode, hp, codesOfText?_binaryText p, ?_, h0, ?_, ?_, ?_⟩
  · intro hexact
    rw [Word.ofBinaryText?_binaryText, Option.some_inj, Word.map_stored_eq_iff] at hexact
    have hfits := hexact _ (Array.mem_toList_iff.2 (Array.mem_of_getElem? h0))
    exact absurd hfits (by decide)
  · rw [List.getElem?_map, Array.getElem?_toList, h0]
    rfl
  · have hs0 : p.step .start = .next ⟨0x8000, 0, 1, .zero⟩ :=
      Program.step_eq_next.2 ⟨_, h0, rfl, rfl⟩
    have hs1 : p.step ⟨0x8000, 0, 1, .zero⟩ = .next ⟨0x8000, 0, 0x8000, .zero⟩ :=
      Program.step_eq_next.2 ⟨_, h1, rfl, rfl⟩
    simp only [Program.run_succ, hs0, hs1]
    show decide (p.words.size ≤ 0x8000) = true
    rw [hh.size_words, size_fullMemory]
    rfl
  · have hc0 : (p.words.toList.map Word.encode).toArray[0]? = some 0 := by
      rw [List.getElem?_toArray, List.getElem?_map, Array.getElem?_toList, h0]
      rfl
    have hc1 : (p.words.toList.map Word.encode).toArray[1]? =
        some (Word.compute .null .zero .jmp).encode := by
      rw [List.getElem?_toArray, List.getElem?_map, Array.getElem?_toList, h1]
      rfl
    have hjump := Cpu.exec_encode (w := .compute .null .zero .jmp) trivial ⟨0, 0, 1, .zero⟩
    rw [Cpu.run, show Machine.start.pc.toNat = 0 from rfl, hc0]
    show (Cpu.run _ 1 ⟨0, 0, 1, .zero⟩).pc = 0
    rw [Cpu.run, show (⟨0, 0, 1, .zero⟩ : Machine).pc.toNat = 1 from rfl, hc1]
    show (Cpu.exec _ _).pc = 0
    rw [hjump]
    rfl

end Hack
