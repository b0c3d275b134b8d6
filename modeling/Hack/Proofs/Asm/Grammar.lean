/-
The language of assembly lines as a grammar, which says how each part of a line is spelled and in which order the
parts come. A line is read from a text exactly if the grammar spells it so.
-/
import Hack.Asm.Line
import Hack.Proofs.Text.Read

namespace Hack

open Text

/-! ## Spellings -/

/-- How an operand is spelled: a number in digits, with any leading zeros, or a symbol as it is. -/
inductive Operand.Spelled : List Char → Operand → Prop
  | number {digits : List Char} {n : Nat} (hne : digits ≠ []) (hd : ∀ c ∈ digits, c.isDigit = true)
      (hv : Nat.ofDigitChars 10 digits 0 = n) (hn : n ≤ 32767) : Operand.Spelled digits (.number (.ofNat n))
  | symbol {name : List Char} (h : Symbol.isSymbol name = true) : Operand.Spelled name (.symbol (.ofList name))

/-- What stands in front of a computation: nothing, or a destination and its mark. -/
inductive Dest.Spelled : List Char → Dest → Prop
  | nothing : Dest.Spelled [] .null
  | field {text : String} {dest : Dest} (h : (text, dest) ∈ Dest.spellings) : Dest.Spelled (text.toList ++ ['=']) dest

/-- What stands behind a computation: nothing, or a mark and a jump. -/
inductive Jump.Spelled : List Char → Jump → Prop
  | nothing : Jump.Spelled [] .null
  | field {jump : Jump} (h : jump ∈ Jump.all) : Jump.Spelled (';' :: jump.text.toList) jump

/-- How a line is spelled. -/
inductive Line.Spelled : List Char → Line → Prop
  | load {s : List Char} {v : Operand} (h : v.Spelled s) : Line.Spelled ('@' :: s) (.load v)
  | label {name : List Char} (h : Symbol.isSymbol name = true) :
      Line.Spelled ('(' :: (name ++ [')'])) (.label (.ofList name))
  | compute {front back : List Char} {text : String} {dest : Dest} {comp : Comp} {jump : Jump}
      (hd : dest.Spelled front) (hc : (text, comp) ∈ Comp.spellings) (hj : jump.Spelled back) :
      Line.Spelled (front ++ (text.toList ++ back)) (.instr (.compute dest comp jump))

/-! ## Fields -/

/-- In a table whose texts differ, a text is found exactly where it stands. -/
theorem lookup_eq_some_iff {β : Type} {table : List (String × β)} (h : ∀ e ∈ table, table.lookup e.1 = some e.2)
    {text : String} {b : β} : table.lookup text = some b ↔ (text, b) ∈ table := by
  refine ⟨fun hl => ?_, h (text, b)⟩
  obtain ⟨before, after, rfl, -⟩ := List.lookup_eq_some_iff.1 hl
  exact List.mem_append_right _ List.mem_cons_self

theorem Dest.parse_eq_ok_iff {text : String} {dest : Dest} :
    Dest.parse text = .ok dest ↔ (text, dest) ∈ Dest.spellings := by
  rw [← lookup_eq_some_iff (by decide), Dest.parse, Dest.parse?]
  cases Dest.spellings.lookup text <;> simp

theorem Comp.parse_eq_ok_iff {text : String} {comp : Comp} :
    Comp.parse text = .ok comp ↔ (text, comp) ∈ Comp.spellings := by
  rw [← lookup_eq_some_iff (by decide), Comp.parse, Comp.parse?]
  cases Comp.spellings.lookup text <;> simp

theorem Jump.parse_eq_ok_iff {text : String} {jump : Jump} :
    Jump.parse text = .ok jump ↔ jump ∈ Jump.all ∧ jump.text = text := by
  have htable : jump ∈ Jump.all ∧ jump.text = text ↔ (text, jump) ∈ Jump.all.map fun j => (j.text, j) := by
    rw [List.mem_map]
    constructor
    · rintro ⟨hmem, rfl⟩
      exact ⟨jump, hmem, rfl⟩
    · rintro ⟨j, hmem, he⟩
      cases he
      exact ⟨hmem, rfl⟩
  rw [htable, ← lookup_eq_some_iff (by decide), Jump.parse, Jump.parse?]
  cases List.lookup text (Jump.all.map fun j => (j.text, j)) <;> simp

/-- Whether a text begins with a character that neither a load nor a label begins with. -/
def beginsField (s : List Char) : Bool :=
  s.head?.any fun c => c != '@' && c != '('

theorem exists_cons_of_beginsField {s : List Char} (h : beginsField s = true) :
    ∃ c rest, s = c :: rest ∧ c ≠ '@' ∧ c ≠ '(' := by
  cases s with
  | nil => cases h
  | cons c rest => exact ⟨c, rest, rfl, by simpa [beginsField] using h⟩

/-- No spelling of a computation has a mark in it or begins like a load or a label. -/
theorem Comp.marks_of_mem_spellings {text : String} {comp : Comp} (h : (text, comp) ∈ Comp.spellings) :
    '=' ∉ text.toList ∧ ';' ∉ text.toList ∧ beginsField text.toList = true := by
  have table : ∀ e ∈ Comp.spellings,
      '=' ∉ e.1.toList ∧ ';' ∉ e.1.toList ∧ beginsField e.1.toList = true := by decide
  exact table _ h

theorem Dest.marks_of_mem_spellings {text : String} {dest : Dest} (h : (text, dest) ∈ Dest.spellings) :
    '=' ∉ text.toList ∧ beginsField text.toList = true := by
  have table : ∀ e ∈ Dest.spellings, '=' ∉ e.1.toList ∧ beginsField e.1.toList = true := by decide
  exact table _ h

/-! ## Reading -/

/-- A symbol does not start like a number. -/
theorem Symbol.head?_of_isSymbol {s : List Char} (h : isSymbol s = true) : s.head?.any Char.isDigit = false := by
  cases s with
  | nil => rfl
  | cons c s =>
    simp only [isSymbol, Bool.and_eq_true, Bool.not_eq_true'] at h
    simpa using h.1.1

theorem Operand.parse_eq_ok_iff {s : List Char} {v : Operand} : Operand.parse s = .ok v ↔ v.Spelled s := by
  constructor
  · intro h
    unfold Operand.parse at h
    split at h
    · split at h
      · rename_i n hn
        split at h
        · rename_i hle
          cases h
          obtain ⟨hne, hd, hv⟩ := decimal?_iff.1 hn
          exact .number hne hd hv hle
        · cases h
      · cases h
    · split at h
      · rename_i hs
        cases h
        exact .symbol hs
      · cases h
  · intro h
    unfold Operand.parse
    cases h with
    | number hne hd hv hn =>
      obtain ⟨c, rest, rfl⟩ := List.exists_cons_of_ne_nil hne
      have hc : c.isDigit = true := hd c List.mem_cons_self
      simp only [List.head?_cons, Option.any_some, hc, if_true, decimal?_iff.2 ⟨hne, hd, hv⟩]
      exact if_pos hn
    | symbol hs =>
      simp only [Symbol.head?_of_isSymbol hs, Bool.false_eq_true, if_false, hs, if_true]

theorem Line.parseLabel_eq_ok_iff {line : String} {s : List Char} {l : Line} :
    Line.parseLabel line s = .ok l ↔
      ∃ name, s = name ++ [')'] ∧ Symbol.isSymbol name = true ∧ l = .label (.ofList name) := by
  unfold Line.parseLabel
  constructor
  · intro h
    split at h
    · rename_i hlast
      obtain ⟨name, rfl⟩ := List.getLast?_eq_some_iff.1 hlast
      rw [List.dropLast_concat] at h
      split at h
      · rename_i hs
        cases h
        exact ⟨name, rfl, hs, rfl⟩
      · cases h
    · cases h
  · rintro ⟨name, rfl, hs, rfl⟩
    simp only [List.getLast?_concat, List.dropLast_concat, hs, if_true]

/-- The fields behind the destination. -/
def Instr.parseTail (dest : Dest) (s : List Char) : Except Malformed Instr :=
  match cutFirst ';' s with
  | some (comp, jump) => do
    let jump ← Jump.parse (String.ofList jump)
    let comp ← Comp.parse (String.ofList comp)
    pure (.compute dest comp jump)
  | none => do
    let comp ← Comp.parse (String.ofList s)
    pure (.compute dest comp .null)

theorem Instr.parseCompute_eq (s : List Char) :
    Instr.parseCompute s = match cutFirst '=' s with
      | some (dest, rest) => Dest.parse (String.ofList dest) >>= (Instr.parseTail · rest)
      | none => Instr.parseTail .null s := by
  unfold Instr.parseCompute Instr.parseTail
  rcases hd : cutFirst '=' s with _ | ⟨dest, rest⟩
  · rcases hc : cutFirst ';' s with _ | ⟨comp, jump⟩
    · simp [hc, bind, Except.bind, pure, Except.pure]
    · cases hj : Jump.parse (String.ofList jump) <;> simp [hc, hj, bind, Except.bind, pure, Except.pure]
  · rcases hx : Dest.parse (String.ofList dest) with e | x
    · simp [hx, bind, Except.bind]
    · rcases hc : cutFirst ';' rest with _ | ⟨comp, jump⟩
      · simp [hx, hc, bind, Except.bind, pure, Except.pure]
      · cases hj : Jump.parse (String.ofList jump) <;> simp [hx, hc, hj, bind, Except.bind, pure, Except.pure]

/-- What the computation and what stands behind it are read as. -/
theorem Instr.parseTail_eq_ok_iff {dest : Dest} {s : List Char} {i : Instr} :
    Instr.parseTail dest s = .ok i ↔ ∃ text comp back jump, s = String.toList text ++ back ∧
      (text, comp) ∈ Comp.spellings ∧ jump.Spelled back ∧ i = .compute dest comp jump := by
  unfold Instr.parseTail
  constructor
  · intro h
    split at h
    · rename_i text jumpText hcut
      obtain ⟨rfl, -⟩ := eq_of_cutFirst hcut
      cases hj : Jump.parse (String.ofList jumpText) with
      | error e => rw [hj] at h; cases h
      | ok jump =>
        cases hc : Comp.parse (String.ofList text) with
        | error e => rw [hj, hc] at h; cases h
        | ok comp =>
          rw [hj, hc] at h
          cases h
          obtain ⟨hmem, htext⟩ := Jump.parse_eq_ok_iff.1 hj
          have hback := Jump.Spelled.field hmem
          rw [htext, String.toList_ofList] at hback
          refine ⟨_, comp, _, jump, ?_, Comp.parse_eq_ok_iff.1 hc, hback, rfl⟩
          rw [String.toList_ofList]
    · cases hc : Comp.parse (String.ofList s) with
      | error e => rw [hc] at h; cases h
      | ok comp =>
        rw [hc] at h
        cases h
        refine ⟨_, comp, [], .null, ?_, Comp.parse_eq_ok_iff.1 hc, .nothing, rfl⟩
        rw [String.toList_ofList, List.append_nil]
  · rintro ⟨text, comp, back, jump, rfl, hc, hj, rfl⟩
    have hsemicolon := (Comp.marks_of_mem_spellings hc).2.1
    have hcomp := Comp.parse_eq_ok_iff.2 hc
    cases hj with
    | nothing =>
      rw [List.append_nil, cutFirst_eq_none_iff.2 hsemicolon]
      simp only [String.ofList_toList, hcomp]
      rfl
    | field hmem =>
      rw [cutFirst_append _ hsemicolon]
      simp only [String.ofList_toList, Jump.parse_eq_ok_iff.2 ⟨hmem, rfl⟩, hcomp]
      rfl

theorem Jump.Spelled.notMem {back : List Char} {jump : Jump} (h : jump.Spelled back) : '=' ∉ back := by
  have table : ∀ j ∈ Jump.all, '=' ∉ j.text.toList := by decide
  cases h with
  | nothing => exact List.not_mem_nil
  | field hmem => simpa using table jump hmem

theorem Instr.parseCompute_eq_ok_iff {s : List Char} {i : Instr} :
    Instr.parseCompute s = .ok i ↔ Line.Spelled s (.instr i) ∧ ∃ dest comp jump, i = .compute dest comp jump := by
  rw [Instr.parseCompute_eq]
  constructor
  · intro h
    split at h
    · rename_i destText rest hcut
      obtain ⟨rfl, -⟩ := eq_of_cutFirst hcut
      cases hd : Dest.parse (String.ofList destText) with
      | error e => rw [hd] at h; cases h
      | ok dest =>
        rw [hd] at h
        obtain ⟨text, comp, back, jump, rfl, hc, hj, rfl⟩ := Instr.parseTail_eq_ok_iff.1 h
        have hfield := Dest.Spelled.field (Dest.parse_eq_ok_iff.1 hd)
        rw [String.toList_ofList] at hfield
        refine ⟨?_, dest, comp, jump, rfl⟩
        have hline := Line.Spelled.compute hfield hc hj
        rwa [List.append_assoc] at hline
    · obtain ⟨text, comp, back, jump, rfl, hc, hj, rfl⟩ := Instr.parseTail_eq_ok_iff.1 h
      exact ⟨.compute .nothing hc hj, .null, comp, jump, rfl⟩
  · rintro ⟨h, dest, comp, jump, rfl⟩
    cases h with
    | @compute front back text _ _ _ hd hc hj =>
      have htail : Instr.parseTail dest (text.toList ++ back) = .ok (.compute dest comp jump) :=
        Instr.parseTail_eq_ok_iff.2 ⟨text, comp, back, jump, rfl, hc, hj, rfl⟩
      cases hd with
      | nothing =>
        have hequals : '=' ∉ text.toList ++ back := by
          rw [List.mem_append, not_or]
          exact ⟨(Comp.marks_of_mem_spellings hc).1, hj.notMem⟩
        rw [List.nil_append, cutFirst_eq_none_iff.2 hequals]
        exact htail
      | field hmem =>
        rw [List.append_assoc, List.singleton_append, cutFirst_append _ (Dest.marks_of_mem_spellings hmem).1]
        simp only [String.ofList_toList, Dest.parse_eq_ok_iff.2 hmem]
        exact htail

/-- A computing instruction begins like neither a load nor a label. -/
theorem beginsField_of_spelled {front : List Char} {text : String} {dest : Dest} {comp : Comp}
    (hd : dest.Spelled front) (hc : (text, comp) ∈ Comp.spellings) (back : List Char) :
    beginsField (front ++ (text.toList ++ back)) = true := by
  have grow {s t : List Char} (h : beginsField s = true) : beginsField (s ++ t) = true := by
    obtain ⟨c, rest, rfl, -⟩ := exists_cons_of_beginsField h
    exact h
  cases hd with
  | nothing =>
    rw [List.nil_append]
    exact grow (Comp.marks_of_mem_spellings hc).2.2
  | field h =>
    rw [List.append_assoc]
    exact grow (Dest.marks_of_mem_spellings h).2

/-- A line is read from a text exactly if the grammar spells it so. -/
theorem Line.parse_eq_ok_iff {s : String} {l : Line} : Line.parse s = .ok l ↔ l.Spelled s.toList := by
  unfold Line.parse
  generalize s.toList = t
  constructor
  · intro h
    split at h
    · rename_i v
      cases hv : Operand.parse v with
      | error e => rw [hv] at h; cases h
      | ok operand =>
        rw [hv] at h
        cases h
        exact .load (Operand.parse_eq_ok_iff.1 hv)
    · obtain ⟨name, rfl, hs, rfl⟩ := Line.parseLabel_eq_ok_iff.1 h
      exact .label hs
    · cases hi : Instr.parseCompute t with
      | error e => rw [hi] at h; cases h
      | ok i =>
        rw [hi] at h
        cases h
        exact (Instr.parseCompute_eq_ok_iff.1 hi).1
  · intro h
    cases h with
    | load hv =>
      simp only [Operand.parse_eq_ok_iff.2 hv]
      rfl
    | label hs => exact Line.parseLabel_eq_ok_iff.2 ⟨_, rfl, hs, rfl⟩
    | @compute front back text dest comp jump hd hc hj =>
      have hi := Instr.parseCompute_eq_ok_iff.2 ⟨.compute hd hc hj, dest, comp, jump, rfl⟩
      obtain ⟨c, rest, hcons, hload, hlabel⟩ := exists_cons_of_beginsField (beginsField_of_spelled hd hc back)
      rw [hcons] at hi ⊢
      split
      · exact absurd (List.cons.inj ‹_›).1 hload
      · exact absurd (List.cons.inj ‹_›).1 hlabel
      · rw [hi]; rfl

end Hack
