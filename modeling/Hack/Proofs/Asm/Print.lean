/-
Printing of assembly lines: a legal line, one whose number fits into a load and whose symbol is one, prints as one of
its spellings, a non-empty plain text, and so reads back as the same line. Lines that are read are legal, and the text
they print as is the same for all their spellings.
-/
import Hack.Proofs.Asm.Grammar

namespace Hack

open Text

/-! ## Symbols -/

namespace Symbol

theorem isSymbolChar_of_mem {s : List Char} (h : isSymbol s = true) {c : Char} (hc : c ∈ s) :
    isSymbolChar c = true := by
  cases s with
  | nil => cases hc
  | cons d s =>
    simp only [isSymbol, Bool.and_eq_true, List.all_eq_true] at h
    rcases List.mem_cons.1 hc with rfl | hc
    · exact h.1.2
    · exact h.2 c hc

theorem isPlain_of_isSymbolChar {c : Char} (h : isSymbolChar c = true) : isPlain c = true := by
  unfold isSymbolChar Char.isAlphanum Char.isAlpha Char.isUpper Char.isLower Char.isDigit at h
  simp only [Bool.or_eq_true, Bool.and_eq_true, decide_eq_true_eq, beq_iff_eq, ge_iff_le,
    UInt32.le_iff_toNat_le] at h
  change ((((((65 ≤ c.toNat ∧ c.toNat ≤ 90) ∨ (97 ≤ c.toNat ∧ c.toNat ≤ 122)) ∨
    (48 ≤ c.toNat ∧ c.toNat ≤ 57)) ∨ c = '_') ∨ c = '.') ∨ c = '$') ∨ c = ':' at h
  rcases h with ((((h | h) | rfl) | rfl) | rfl) | rfl
  · exact isPlain_of_ascii (by omega) (by omega) (by rintro rfl; simp at h)
  · exact isPlain_of_ascii (by omega) (by omega) (by rintro rfl; simp at h)
  all_goals decide

/-- More symbol characters behind a symbol leave it one. -/
theorem isSymbol_append {s t : List Char} (h : isSymbol s = true) (ht : ∀ c ∈ t, isSymbolChar c = true) :
    isSymbol (s ++ t) = true := by
  cases s with
  | nil => cases h
  | cons c s =>
    simp only [isSymbol, Bool.and_eq_true, List.all_eq_true, List.cons_append, List.mem_append] at h ⊢
    exact ⟨h.1, fun d hd => hd.elim (h.2 d) (ht d)⟩

end Symbol

/-! ## Legal lines -/

/-- The operand of a load that can be written. -/
def Operand.Legal : Operand → Prop
  | .number n => n ≤ maxLiteral
  | .symbol name => Symbol.isSymbol name.toList = true

/-- A line that can be written. -/
def Line.Legal : Line → Prop
  | .instr (.load v) => v.Legal
  | .instr (.compute _ _ _) => True
  | .label name => Symbol.isSymbol name.toList = true

theorem Line.Spelled.legal {s : List Char} {l : Line} (h : l.Spelled s) : l.Legal := by
  cases h with
  | load hv =>
    cases hv with
    | @number n hne hd hv hn =>
      have hlt : n < 65536 := Nat.lt_of_le_of_lt hn (by decide)
      exact UInt16.le_iff_toNat_le.2 (by rw [UInt16.toNat_ofNat_of_lt' hlt]; exact hn)
    | symbol hs => simpa [Line.load, Line.Legal, Operand.Legal] using hs
  | label hs => simpa [Line.Legal] using hs
  | compute hd hc hj => trivial

/-- A line that is read can be written. -/
theorem Line.legal_of_parse {s : String} {l : Line} (h : Line.parse s = .ok l) : l.Legal :=
  (Line.parse_eq_ok_iff.1 h).legal

/-! ## Plain texts -/

theorem Operand.Spelled.plain {s : List Char} {v : Operand} (h : v.Spelled s) : ∀ c ∈ s, isPlain c = true := by
  cases h with
  | number hne hd hv hn => exact fun c hc => isPlain_of_isDigit (hd c hc)
  | symbol hs => exact fun c hc => Symbol.isPlain_of_isSymbolChar (Symbol.isSymbolChar_of_mem hs hc)

theorem Dest.Spelled.plain {s : List Char} {dest : Dest} (h : dest.Spelled s) : ∀ c ∈ s, isPlain c = true := by
  have table : ∀ e ∈ Dest.spellings, (e.1.toList ++ ['=']).all isPlain = true := by decide
  cases h with
  | nothing => simp
  | field hmem => exact List.all_eq_true.1 (table _ hmem)

theorem Jump.Spelled.plain {s : List Char} {jump : Jump} (h : jump.Spelled s) : ∀ c ∈ s, isPlain c = true := by
  have table : ∀ j ∈ Jump.all, (';' :: j.text.toList).all isPlain = true := by decide
  cases h with
  | nothing => simp
  | field hmem => exact List.all_eq_true.1 (table _ hmem)

/-- No spelling has a blank or a slash in it. -/
theorem Line.Spelled.plain {s : List Char} {l : Line} (h : l.Spelled s) : ∀ c ∈ s, isPlain c = true := by
  have table : ∀ e ∈ Comp.spellings, e.1.toList.all isPlain = true := by decide
  cases h with
  | load hv => exact List.forall_mem_cons.2 ⟨by decide, hv.plain⟩
  | label hs =>
    have hname : ∀ c ∈ _, isPlain c = true := fun c hc =>
      Symbol.isPlain_of_isSymbolChar (Symbol.isSymbolChar_of_mem hs hc)
    exact List.forall_mem_cons.2 ⟨by decide, List.forall_mem_append.2 ⟨hname, List.forall_mem_singleton.2 rfl⟩⟩
  | compute hd hc hj =>
    exact List.forall_mem_append.2 ⟨hd.plain, List.forall_mem_append.2 ⟨List.all_eq_true.1 (table _ hc), hj.plain⟩⟩

/-! ## Written lines -/

theorem Operand.spelled_text {v : Operand} (h : v.Legal) : v.Spelled v.text.toList := by
  cases v with
  | number n =>
    obtain ⟨hne, hd, hv⟩ := decimal?_iff.1 (decimal?_repr n.toNat)
    have hspelled := Operand.Spelled.number hne hd hv (UInt16.le_iff_toNat_le.1 h)
    rwa [UInt16.ofNat_toNat] at hspelled
  | symbol name =>
    have hspelled := Operand.Spelled.symbol h
    rwa [String.ofList_toList] at hspelled

theorem Dest.spelled_text (dest : Dest) :
    dest.Spelled (if dest = .null then "" else dest.text ++ "=").toList := by
  by_cases hd : dest = .null
  · subst hd
    exact .nothing
  · have hmem : (dest.text, dest) ∈ Dest.spellings := (lookup_eq_some_iff (by decide)).1 (Dest.parse?_text hd)
    rw [if_neg hd, String.toList_append]
    exact .field hmem

theorem Jump.spelled_text (jump : Jump) :
    jump.Spelled (if jump = .null then "" else ";" ++ jump.text).toList := by
  by_cases hj : jump = .null
  · subst hj
    exact .nothing
  · have hmem : jump ∈ Jump.all := (Jump.parse_eq_ok_iff.1 (by rw [Jump.parse, Jump.parse?_text hj])).1
    rw [if_neg hj, String.toList_append]
    exact .field hmem

/-- Fields print as a spelling, whatever they are. -/
theorem Instr.spelled_text (dest : Dest) (comp : Comp) (jump : Jump) :
    Line.Spelled (Instr.compute dest comp jump).text.toList (.instr (.compute dest comp jump)) := by
  have hmem : (comp.text, comp) ∈ Comp.spellings := (lookup_eq_some_iff (by decide)).1 comp.parse?_text
  rw [Instr.text, String.toList_append, String.toList_append, List.append_assoc]
  exact .compute dest.spelled_text hmem jump.spelled_text

/-- A legal line prints as one of its spellings. -/
theorem Line.spelled_text {l : Line} (h : l.Legal) : l.Spelled l.text.toList := by
  match l, h with
  | .instr (.load v), h =>
    rw [Line.text, Instr.text, String.toList_append]
    exact .load (Operand.spelled_text h)
  | .instr (.compute dest comp jump), _ => exact Instr.spelled_text dest comp jump
  | .label name, h =>
    have hspelled := Line.Spelled.label h
    have htext : (Line.label name).text.toList = '(' :: (name.toList ++ [')']) := by simp [Line.text]
    rwa [String.ofList_toList, ← htext] at hspelled

theorem Line.plain_text {l : Line} (h : l.Legal) : ∀ c ∈ l.text.toList, isPlain c = true :=
  (Line.spelled_text h).plain

theorem Line.Spelled.ne_nil {s : List Char} {l : Line} (h : l.Spelled s) : s ≠ [] := by
  cases h with
  | load hv => exact List.cons_ne_nil _ _
  | label hs => exact List.cons_ne_nil _ _
  | @compute front back _ _ _ _ hd hc hj =>
    obtain ⟨c, rest, hcons, -⟩ := exists_cons_of_beginsField (beginsField_of_spelled hd hc back)
    rw [hcons]
    exact List.cons_ne_nil _ _

/-- A legal line reads back from its text. -/
theorem Line.parse_text {l : Line} (h : l.Legal) : Line.parse l.text = .ok l :=
  Line.parse_eq_ok_iff.2 (Line.spelled_text h)

/-- Reading and writing. What is read is what the grammar spells; a line reads back from its text exactly if it can be
written, and every line that is read can; so the texts of two lines that are read differ if the lines do. -/
theorem Line.parse_text_iff_legal :
    (∀ s l, Line.parse s = .ok l ↔ l.Spelled s.toList) ∧
    (∀ l, Line.parse l.text = .ok l ↔ l.Legal) ∧
    (∀ s l, Line.parse s = .ok l → l.Legal ∧ ∀ c ∈ s.toList, isPlain c = true) ∧
    ∀ s t l m, Line.parse s = .ok l → Line.parse t = .ok m → (l.text = m.text ↔ l = m) := by
  refine ⟨fun s l => Line.parse_eq_ok_iff, fun l => ⟨Line.legal_of_parse, Line.parse_text⟩, fun s l h => ?_, ?_⟩
  · exact ⟨Line.legal_of_parse h, (Line.parse_eq_ok_iff.1 h).plain⟩
  · intro s t l m hl hm
    constructor
    · intro htext
      have hback := Line.parse_text (Line.legal_of_parse hl)
      rw [htext, Line.parse_text (Line.legal_of_parse hm)] at hback
      exact (Except.ok.inj hback).symm
    · rintro rfl
      rfl

/-- Other spellings than the one that is written. -/
example : Line.parse "@0032767" = .ok (.load (.number 32767)) ∧ Line.parse "DM=M+D" = Line.parse "MD=D+M" :=
  ⟨rfl, rfl⟩

end Hack
