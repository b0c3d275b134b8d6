/-
What every text that loads says. Each of its lines with code reads as a legal line, no label comes twice
among these, and the program is what they are assembled to. Its words load numbers of fifteen bits, except
that the address of a label behind a full memory of words is one more than that.
-/
import Hack.Proofs.Machine.Encoding
import Hack.Proofs.Machine.Pass

namespace Hack

open Text

/-! ## Both passes -/

/-- A line of a text with its number reads as a line. -/
def Reads (source : Nat × List Char) (l : Line) : Prop := Line.parse (String.ofList source.2) = .ok l

/-- A first pass that succeeds has read every line with code. -/
theorem Layout.foldlM_addSource_ok {sources : List (Nat × List Char)} {start l : Layout}
    (h : sources.foldlM Layout.addSource start = .ok l) :
    ∃ ls, List.Forall₂ Reads sources ls ∧ ls.foldlM Layout.add start = .ok l := by
  induction sources generalizing start with
  | nil => exact ⟨[], .nil, h⟩
  | cons source sources ih =>
    rw [List.foldlM_cons] at h
    unfold Layout.addSource at h
    cases hp : Line.parse (String.ofList source.2) with
    | error e => rw [hp] at h; cases h
    | ok line =>
      rw [hp] at h
      dsimp only at h
      cases ha : start.add line with
      | error e => rw [ha] at h; cases h
      | ok next =>
        rw [ha] at h
        obtain ⟨ls, hreads, hls⟩ := ih h
        refine ⟨line :: ls, .cons hp hreads, ?_⟩
        rw [List.foldlM_cons, ha]
        exact hls

/-- Lines that are laid out have no label twice. -/
theorem Layout.holds_of_foldlM {ls : List Line} {l : Layout} (h : ls.foldlM Layout.add {} = .ok l) :
    (Lines.labels ls).Nodup ∧ l.Holds ls := by
  -- from the last line on, since a label is refused for the lines before it
  induction ls using List.reverseRecOn generalizing l with
  | nil => cases h; exact ⟨List.nodup_nil, .empty⟩
  | append_singleton ls line ih =>
    rw [List.foldlM_append] at h
    cases hbefore : ls.foldlM Layout.add ({} : Layout) with
    | error e => rw [hbefore] at h; cases h
    | ok before =>
      rw [hbefore] at h
      obtain ⟨hd, hh⟩ := ih hbefore
      have hadd : before.add line = .ok l := by
        change List.foldlM Layout.add before [line] = _ at h
        rw [List.foldlM_cons] at h
        cases hl : before.add line with
        | error e => rw [hl] at h; cases h
        | ok l' => rw [hl] at h; cases h; rfl
      cases line with
      | instr i =>
        obtain ⟨l', hl', h'⟩ := hh.add_instr i
        rw [hadd] at hl'
        cases hl'
        refine ⟨?_, h'⟩
        rw [Lines.labels_append, Lines.labels_instr, Lines.labels_nil, List.append_nil]
        exact hd
      | label name =>
        by_cases hm : name ∈ Lines.labels ls
        · rw [hh.add_label_again hm] at hadd
          cases hadd
        · obtain ⟨l', hl', h'⟩ := hh.add_label hm
          rw [hadd] at hl'
          cases hl'
          refine ⟨?_, h'⟩
          rw [Lines.labels_append, Lines.labels_label, Lines.labels_nil]
          refine List.nodup_append.2 ⟨hd, List.nodup_singleton _, ?_⟩
          intro a ha b hb
          rw [List.mem_singleton.1 hb]
          rintro rfl
          exact hm ha

/-- What a text that loads is made of. -/
structure Program.Loaded (p : Program) (text : String) (ls : List Line) : Prop where
  /-- The lines are those of the text that hold code. -/
  reads : List.Forall₂ Reads (codeLines text.toList) ls
  nodup : (Lines.labels ls).Nodup
  holds : p.Holds ls

theorem Program.Loaded.legal {p : Program} {text : String} {ls : List Line} (h : p.Loaded text ls) :
    ∀ l ∈ ls, l.Legal := by
  have hreads := h.reads
  generalize codeLines text.toList = sources at hreads
  clear h
  induction hreads with
  | nil => simp
  | cons hl _ ih => exact List.forall_mem_cons.2 ⟨Line.legal_of_parse hl, ih⟩

/-- Every program that loads is what the lines of its text are assembled to. -/
theorem Program.loaded_of_parse {text : String} {p : Program} (h : Program.parse text = .ok p) :
    ∃ ls, p.Loaded text ls := by
  rw [Program.parse] at h
  cases hl : Layout.ofText text.toList with
  | error e => rw [hl] at h; cases h
  | ok l =>
    rw [hl] at h
    obtain ⟨ls, hreads, hls⟩ := Layout.foldlM_addSource_ok hl
    obtain ⟨hd, hh⟩ := Layout.holds_of_foldlM hls
    refine ⟨ls, hreads, hd, ?_⟩
    change Program.ofLayout l = .ok p at h
    rcases Nat.lt_or_ge romSize (Lines.size ls) with hs | hs
    · rw [Program.ofLayout_romOverflow hh hs] at h
      cases h
    · rcases Program.ofLayout_of_size_le hh hs with ⟨p', hp', hholds⟩ | ⟨name, hp', -⟩
      · rw [hp'] at h
        cases h
        exact hholds
      · rw [hp'] at h
        cases h

/-! ## What words load -/

namespace Program.Holds

variable {p : Program} {ls : List Line}

/-- A word is the one of an instruction. -/
theorem exists_instr (h : p.Holds ls) {w : Word} (hw : w ∈ p.words) :
    ∃ i ∈ Lines.code ls, i.word? p.symbol? = some w := by
  have hmem : some w ∈ p.words.toList.map some := List.mem_map_of_mem (Array.mem_toList_iff.2 hw)
  rw [h.words] at hmem
  obtain ⟨i, hi, he⟩ := List.mem_map.1 hmem
  exact ⟨i, hi, he⟩

/-- An instruction has a word. -/
theorem exists_word (h : p.Holds ls) {i : Instr} (hi : i ∈ Lines.code ls) :
    ∃ w ∈ p.words, i.word? p.symbol? = some w := by
  have hmem : i.word? p.symbol? ∈ p.words.toList.map some := by
    rw [h.words]
    exact List.mem_map_of_mem hi
  obtain ⟨w, hw, he⟩ := List.mem_map.1 hmem
  exact ⟨w, Array.mem_toList_iff.1 hw, he.symm⟩

/-- Addresses of fixed names and of variables are below the end of memory, and so are those of labels,
except behind a full memory of words. -/
theorem toNat_symbol? (h : p.Holds ls) {name : String} {a : UInt16} (ha : p.symbol? name = some a) :
    a.toNat < romSize ∨ (a.toNat = romSize ∧ Lines.size ls = romSize ∧
      Symbol.predefined? name = none ∧ p.labels[name]? = some a) := by
  unfold Program.symbol? symbolAddress? at ha
  have hfixed : ∀ entry ∈ Symbol.predefinedTable, entry.2.toNat < romSize := by decide
  cases hp : Symbol.predefined? name with
  | some b =>
    rw [hp] at ha
    cases ha
    obtain ⟨before, after, htable, -⟩ := List.lookup_eq_some_iff.1 hp
    exact .inl (hfixed (name, a) (by rw [htable]; simp))
  | none =>
    cases hl : p.labels[name]? with
    | some b =>
      rw [hp, hl] at ha
      cases ha
      obtain ⟨before, after, rfl, rfl⟩ := (h.label name a).1 hl
      have hsize := h.size_le
      rw [Lines.size_append, Lines.size_label] at hsize ⊢
      have hbefore : (UInt16.ofNat (Lines.size before)).toNat = Lines.size before :=
        UInt16.toNat_ofNat_of_lt' (by simp only [romSize] at hsize; change _ < 65536; omega)
      rw [hbefore]
      rcases Nat.lt_or_ge (Lines.size before) romSize with hlt | hge
      · exact .inl hlt
      · exact .inr ⟨by omega, by omega, rfl, rfl⟩
    | none =>
      rw [hp, hl] at ha
      obtain ⟨i, hi, rfl⟩ := (h.vars.address name a).1 ha
      have hroom := h.room
      have hlt := (List.getElem?_eq_some_iff.1 hi).1
      simp only [variableRoom, variableEnd, variableBase] at hroom
      left
      rw [variableBase, romSize, UInt16.toNat_ofNat_of_lt' (by change _ < 65536; omega)]
      omega

end Program.Holds

/-- The label of a program that stands behind a full memory of words. -/
def Program.IsEnd (p : Program) (name : String) : Prop :=
  Symbol.predefined? name = none ∧ p.labels[name]? = some 0x8000

/-- A load of a symbol fits unless the symbol is the label behind a full memory of words. -/
theorem Program.Holds.lt_iff_not_isEnd {p : Program} {ls : List Line} (h : p.Holds ls) {name : String} {a : UInt16}
    (ha : p.symbol? name = some a) : a.toNat < 0x8000 ↔ ¬ p.IsEnd name := by
  have hend : a = 0x8000 ↔ a.toNat = 0x8000 := by rw [← UInt16.toNat_inj]; rfl
  constructor
  · rintro hlt ⟨hp, hl⟩
    rw [Program.symbol?, symbolAddress?, hp, hl] at ha
    have := hend.1 (Option.some.inj ha).symm
    omega
  · intro hne
    rcases h.toNat_symbol? ha with hlt | ⟨heq, -, hp, hl⟩
    · exact hlt
    · rw [hend.2 heq] at hl
      exact absurd ⟨hp, hl⟩ hne

namespace Program.Loaded

variable {p : Program} {text : String} {ls : List Line}

/-- The word of an instruction fits unless it loads the label behind a full memory of words. -/
theorem fits_iff (h : p.Loaded text ls) {i : Instr} {w : Word} (hi : i ∈ Lines.code ls)
    (hw : i.word? p.symbol? = some w) : w.Fits ↔ ∀ name, i = .load (.symbol name) → ¬ p.IsEnd name := by
  match i, hw with
  | .compute dest comp jump, rfl => exact iff_of_true trivial (by simp)
  | .load (.number n), rfl =>
    have hlegal : n ≤ maxLiteral := h.legal _ (Lines.mem_code.1 hi)
    have hn : n.toNat ≤ 0x7FFF := UInt16.le_iff_toNat_le.1 hlegal
    exact iff_of_true (show n.toNat < 0x8000 by omega) (by simp)
  | .load (.symbol name), hw =>
    obtain ⟨a, ha, rfl⟩ := Option.map_eq_some_iff.1 hw
    show a.toNat < 0x8000 ↔ _
    rw [h.holds.lt_iff_not_isEnd ha]
    constructor
    · intro hne name' he
      cases he
      exact hne
    · intro hall
      exact hall name rfl

/-- All words fit unless an instruction loads the label behind a full memory of words. -/
theorem forall_fits_iff (h : p.Loaded text ls) :
    (∀ w ∈ p.words, w.Fits) ↔ ∀ name, .load (.symbol name) ∈ p.code → ¬ p.IsEnd name := by
  have hcode (i : Instr) : i ∈ p.code ↔ i ∈ Lines.code ls := by
    rw [← Array.mem_toList_iff, h.holds.code]
  constructor
  · intro hall name hi
    obtain ⟨w, hw, he⟩ := h.holds.exists_word ((hcode _).1 hi)
    exact (h.fits_iff ((hcode _).1 hi) he).1 (hall w hw) name rfl
  · intro hall w hw
    obtain ⟨i, hi, he⟩ := h.holds.exists_instr hw
    refine (h.fits_iff hi he).2 ?_
    rintro name rfl
    exact hall name ((hcode _).2 hi)

/-- Only a full memory of words has a load that does not fit, and only of the address behind it. -/
theorem load_of_not_fits (h : p.Loaded text ls) {v : UInt16} (hw : .load v ∈ p.words)
    (hv : ¬ (Word.load v).Fits) : v = 0x8000 ∧ p.words.size = romSize := by
  obtain ⟨i, hi, he⟩ := h.holds.exists_instr hw
  cases i with
  | compute dest comp jump => cases he
  | load operand =>
    cases operand with
    | number n =>
      cases he
      exact absurd ((h.fits_iff hi rfl).2 (by simp)) hv
    | symbol name =>
      obtain ⟨a, ha, hav⟩ := Option.map_eq_some_iff.1 he
      cases hav
      rcases h.holds.toNat_symbol? ha with hlt | ⟨heq, hsize, -⟩
      · exact absurd hlt hv
      · refine ⟨UInt16.toNat_inj.1 heq, ?_⟩
        rw [h.holds.size_words]
        exact hsize

end Program.Loaded

end Hack
