/-
The second pass of loading, and loading as a whole. The variables of a program are the symbols that
are neither fixed names nor labels, in the order of their first use, in consecutive cells; every word
is its instruction with the symbol replaced by its address. Loading the text of legal lines whose
labels differ fails only if there are too many instructions, or else too many variables.
-/
import Hack.Proofs.Machine.Layout

namespace Hack

open Text

/-! ## First occurrences -/

theorem eraseDups_concat (l : List String) (a : String) :
    (l ++ [a]).eraseDups = if a ∈ l then l.eraseDups else l.eraseDups ++ [a] := by
  rw [List.eraseDups_append]
  by_cases h : a ∈ l
  · rw [if_pos h, show [a].removeAll l = [] by simp [List.removeAll, h], List.eraseDups_nil, List.append_nil]
  · rw [if_neg h, show [a].removeAll l = [a] by simp [List.removeAll, h]]
    simp [List.eraseDups_cons]

theorem length_eraseDups_le (l : List String) : l.eraseDups.length ≤ l.length := by
  induction l using List.reverseRecOn with
  | nil => exact Nat.le_refl _
  | append_singleton l a ih =>
    rw [eraseDups_concat]
    split <;> simp only [List.length_append, List.length_singleton] <;> omega

/-! ## Symbols -/

/-- The symbol that an instruction loads, if it loads one. -/
def Instr.symbol? : Instr → Option String
  | .load (.symbol name) => some name
  | _ => none

theorem Instr.symbol?_eq_some {i : Instr} {name : String} (h : i.symbol? = some name) : i = .load (.symbol name) := by
  cases i with
  | compute dest comp jump => cases h
  | load v =>
    cases v with
    | number n => cases h
    | symbol other => cases h; rfl

/-- How many cells there are for variables. -/
def variableRoom : Nat := variableEnd - variableBase

/-- Whether a symbol needs a cell of its own. -/
def isFree (labels : List String) (name : String) : Bool :=
  (Symbol.predefined? name).isNone && !labels.contains name

/-- The symbols of instructions that need cells, in the order of first use. -/
def freeSymbols (labels : List String) (code : List Instr) : List String :=
  ((code.filterMap Instr.symbol?).filter (isFree labels)).eraseDups

/-- The variables of lines. -/
def Lines.variables (ls : List Line) : List String := freeSymbols (Lines.labels ls) (Lines.code ls)

/-- Every variable is loaded by an instruction. -/
theorem Lines.length_variables_le (ls : List Line) : (Lines.variables ls).length ≤ size ls :=
  calc (Lines.variables ls).length
    _ ≤ _ := length_eraseDups_le _
    _ ≤ _ := List.length_filter_le _ _
    _ ≤ size ls := List.length_filterMap_le _ _

theorem freeSymbols_concat_of_none (labels : List String) (code : List Instr) {i : Instr}
    (h : ∀ name, i.symbol? = some name → isFree labels name = false) :
    freeSymbols labels (code ++ [i]) = freeSymbols labels code := by
  unfold freeSymbols
  cases hi : i.symbol? with
  | none => simp [hi]
  | some name => simp [hi, h name hi]

theorem mem_freeSymbols {labels : List String} {code : List Instr} {name : String} :
    name ∈ freeSymbols labels code ↔ isFree labels name = true ∧ .load (.symbol name) ∈ code := by
  unfold freeSymbols
  rw [List.mem_eraseDups, List.mem_filter, List.mem_filterMap, and_comm]
  refine and_congr_right fun _ => ⟨?_, fun h => ⟨_, h, rfl⟩⟩
  rintro ⟨i, hi, hs⟩
  rw [← Instr.symbol?_eq_some hs]
  exact hi

theorem freeSymbols_concat (labels : List String) (code : List Instr) {name : String}
    (h : isFree labels name = true) :
    freeSymbols labels (code ++ [.load (.symbol name)]) =
      if name ∈ freeSymbols labels code then freeSymbols labels code
      else freeSymbols labels code ++ [name] := by
  have hs : ((code ++ [Instr.load (.symbol name)]).filterMap Instr.symbol?).filter (isFree labels) =
      (code.filterMap Instr.symbol?).filter (isFree labels) ++ [name] := by
    simp [Instr.symbol?, h]
  unfold freeSymbols
  rw [hs, eraseDups_concat]
  simp only [List.mem_eraseDups]

/-- What an instruction adds depends only on the symbols before it. -/
theorem freeSymbols_congr {labels : List String} {code code' : List Instr}
    (h : freeSymbols labels code = freeSymbols labels code') (i : Instr) :
    freeSymbols labels (code ++ [i]) = freeSymbols labels (code' ++ [i]) := by
  have old (hf : ∀ name, i.symbol? = some name → isFree labels name = false) :
      freeSymbols labels (code ++ [i]) = freeSymbols labels (code' ++ [i]) := by
    rw [freeSymbols_concat_of_none _ _ hf, freeSymbols_concat_of_none _ _ hf, h]
  match i with
  | .load (.number n) => exact old (by simp [Instr.symbol?])
  | .compute dest comp jump => exact old (by simp [Instr.symbol?])
  | .load (.symbol name) =>
    cases hf : isFree labels name with
    | false => exact old (by simp [Instr.symbol?, hf])
    | true => rw [freeSymbols_concat _ _ hf, freeSymbols_concat _ _ hf, h]

/-- A load that has come before adds nothing. -/
theorem freeSymbols_again {labels : List String} {code code' : List Instr}
    (h : freeSymbols labels code = freeSymbols labels code') {v : Operand}
    (hm : ∀ name, v = .symbol name → .load (.symbol name) ∈ code) :
    freeSymbols labels code = freeSymbols labels (code' ++ [.load v]) := by
  have old (hf : ∀ name, (Instr.load v).symbol? = some name → isFree labels name = false) :
      freeSymbols labels code = freeSymbols labels (code' ++ [.load v]) := by
    rw [freeSymbols_concat_of_none _ _ hf, h]
  match v with
  | .number n => exact old (by simp [Instr.symbol?])
  | .symbol name =>
    cases hf : isFree labels name with
    | false => exact old (by simp [Instr.symbol?, hf])
    | true => rw [freeSymbols_concat _ _ hf, ← h, if_pos (mem_freeSymbols.2 ⟨hf, hm name rfl⟩)]

/-- More code adds variables behind those there are. -/
theorem freeSymbols_prefix (labels : List String) (code more : List Instr) :
    freeSymbols labels code <+: freeSymbols labels (code ++ more) := by
  unfold freeSymbols
  rw [List.filterMap_append, List.filter_append, List.eraseDups_append]
  exact List.prefix_append _ _

/-! ## Addresses -/

/-- The address that a symbol stands for: a fixed one, a label's or a variable's. -/
def symbolAddress? (labels : Std.HashMap String UInt16) (vars : Variables) (name : String) : Option UInt16 :=
  Symbol.predefined? name <|> labels[name]? <|> vars.addresses[name]?

/-- The word of an instruction, if its symbol has an address. -/
def Instr.word? (address : String → Option UInt16) : Instr → Option Word
  | .load (.number n) => some (.load n)
  | .load (.symbol name) => (address name).map .load
  | .compute dest comp jump => some (.compute dest comp jump)

theorem Instr.word?_mono {address address' : String → Option UInt16}
    (h : ∀ name a, address name = some a → address' name = some a) {i : Instr} {w : Word}
    (hw : i.word? address = some w) : i.word? address' = some w := by
  match i, hw with
  | .load (.number n), hw => exact hw
  | .compute dest comp jump, hw => exact hw
  | .load (.symbol name), hw =>
    obtain ⟨a, ha, rfl⟩ := Option.map_eq_some_iff.1 hw
    simp [Instr.word?, h name a ha]

/-- The cells of variables are consecutive, in the order of the names. -/
structure Variables.Holds (vars : Variables) (names : List String) : Prop where
  order : vars.names.toList = names
  address : ∀ name a, vars.addresses[name]? = some a ↔
    ∃ i : Nat, names[i]? = some name ∧ a = UInt16.ofNat (variableBase + i)

namespace Variables.Holds

variable {vars : Variables} {names : List String}

theorem empty : Variables.Holds {} [] :=
  ⟨rfl, by simp⟩

theorem mem (h : vars.Holds names) {name : String} :
    vars.addresses[name]? = none ↔ name ∉ names := by
  rw [← not_iff_not, not_not, ← ne_eq, Option.ne_none_iff_exists']
  constructor
  · rintro ⟨a, ha⟩
    obtain ⟨i, hi, -⟩ := (h.address name a).1 ha
    exact List.mem_of_getElem? hi
  · intro hm
    obtain ⟨i, hi⟩ := List.mem_iff_getElem?.1 hm
    exact ⟨_, (h.address name _).2 ⟨i, hi, rfl⟩⟩

theorem next (h : vars.Holds names) : vars.next = variableBase + names.length := by
  rw [Variables.next, ← h.order, Array.length_toList]

/-- A new name gets the cell behind the last one. -/
theorem allocate (h : vars.Holds names) {name : String} (hn : name ∉ names) :
    (vars.allocate name).Holds (names ++ [name]) := by
  refine ⟨by simp [Variables.allocate, h.order], fun other a => ?_⟩
  simp only [Variables.allocate, Std.HashMap.getElem?_insert, List.getElem?_append, h.next]
  split
  · rename_i he
    obtain rfl : name = other := by simpa using he
    constructor
    · rintro ⟨⟩
      exact ⟨names.length, by simp, rfl⟩
    · rintro ⟨i, hi, rfl⟩
      split at hi
      · exact absurd (List.mem_of_getElem? hi) hn
      · have : i - names.length = 0 := by
          by_contra hne
          rw [List.getElem?_eq_none (by simp; omega)] at hi
          cases hi
        rw [show i = names.length by omega]
  · rename_i he
    rw [h.address]
    refine exists_congr fun i => and_congr_left fun _ => ?_
    split
    · rfl
    · rename_i hlt
      rw [List.getElem?_eq_none (by omega)]
      simp only [reduceCtorEq, false_iff]
      intro hi
      have := List.mem_of_getElem? hi
      simp_all

end Variables.Holds

/-! ## The second pass -/

/-- What a resolution has made is the words of instructions and the variables among them. -/
structure Resolution.Holds (labels : Std.HashMap String UInt16) (names : List String) (r : Resolution)
    (code : List Instr) : Prop where
  vars : r.vars.Holds (freeSymbols names code)
  words : r.words.toList.map some = code.map (Instr.word? (symbolAddress? labels r.vars))
  room : (freeSymbols names code).length ≤ variableRoom

namespace Resolution.Holds

variable {labels : Std.HashMap String UInt16} {names : List String} {r : Resolution} {code : List Instr}

theorem empty : Resolution.Holds labels names {} [] :=
  ⟨.empty, rfl, Nat.zero_le _⟩

/-- An instruction whose symbol needs no new cell. -/
theorem push (h : r.Holds labels names code) {i : Instr} {w : Word}
    (hf : freeSymbols names (code ++ [i]) = freeSymbols names code)
    (hw : i.word? (symbolAddress? labels r.vars) = some w) :
    (r.push w).Holds labels names (code ++ [i]) := by
  refine ⟨by rw [hf]; exact h.vars, ?_, by rw [hf]; exact h.room⟩
  rw [Resolution.push, Array.toList_push, List.map_append, List.map_append, h.words,
    List.map_singleton, List.map_singleton, hw]

/-- A symbol met for the first time takes the next cell. -/
theorem allocate (h : r.Holds labels names code) {name : String} (hf : isFree names name = true)
    (hp : Symbol.predefined? name = none) (hl : labels[name]? = none)
    (hn : name ∉ freeSymbols names code) (hlt : r.vars.next < variableEnd) :
    Resolution.Holds labels names
      { words := r.words.push (.load (UInt16.ofNat r.vars.next)), vars := r.vars.allocate name }
      (code ++ [.load (.symbol name)]) := by
  have hfs := freeSymbols_concat names code hf
  rw [if_neg hn] at hfs
  have hv := h.vars.allocate hn
  have hnext := h.vars.next
  -- symbols that have an address keep it
  have hold : ∀ other a, symbolAddress? labels r.vars other = some a →
      symbolAddress? labels (r.vars.allocate name) other = some a := by
    intro other a ha
    have hne : other ≠ name := by
      rintro rfl
      simp [symbolAddress?, hp, hl, h.vars.mem.2 hn] at ha
    have : (r.vars.allocate name).addresses[other]? = r.vars.addresses[other]? := by
      simp [Variables.allocate, Std.HashMap.getElem?_insert, Ne.symm hne]
    rw [symbolAddress?, this]
    exact ha
  refine ⟨by rw [hfs]; exact hv, ?_, by rw [hfs, List.length_append]; simp [variableRoom]; omega⟩
  rw [Array.toList_push, List.map_append, List.map_append, h.words]
  congr 1
  · refine List.map_congr_left fun i hi => ?_
    have : i.word? (symbolAddress? labels r.vars) ∈ r.words.toList.map some := by
      rw [h.words]; exact List.mem_map_of_mem hi
    obtain ⟨w, -, hw⟩ := List.mem_map.1 this
    rw [← hw, Instr.word?_mono hold hw.symm]
  · simp [Instr.word?, symbolAddress?, hp, hl, Variables.allocate]

/-- A load of a symbol: it is resolved, or it needs a cell and there is none left. -/
theorem add_symbol (h : r.Holds labels names code) (hl : ∀ name, name ∈ labels ↔ name ∈ names)
    (name : String) :
    (∃ r', Resolution.add labels r (.load (.symbol name)) = .ok r' ∧
      r'.Holds labels names (code ++ [.load (.symbol name)])) ∨
      Resolution.add labels r (.load (.symbol name)) = .error (.ramOverflow name) ∧
        (freeSymbols names (code ++ [.load (.symbol name)]))[variableRoom]? = some name := by
  have fixed : isFree names name = false → freeSymbols names (code ++ [.load (.symbol name)]) =
      freeSymbols names code := fun hf =>
    freeSymbols_concat_of_none _ _ (by simp [Instr.symbol?, hf])
  cases hp : Symbol.predefined? name with
  | some a =>
    exact .inl ⟨r.push (.load a), by simp only [Resolution.add, hp],
      h.push (fixed (by simp [isFree, hp])) (by simp [Instr.word?, symbolAddress?, hp])⟩
  | none =>
    cases hlab : labels[name]? with
    | some a =>
      have hm : name ∈ names := (hl name).1 (Std.HashMap.mem_iff_isSome_getElem?.2 (by rw [hlab]; rfl))
      exact .inl ⟨r.push (.load a), by simp only [Resolution.add, hp, hlab],
        h.push (fixed (by simp [isFree, hm])) (by simp [Instr.word?, symbolAddress?, hp, hlab])⟩
    | none =>
      have hm : name ∉ names := fun hm => by
        have := Std.HashMap.mem_iff_isSome_getElem?.1 ((hl name).2 hm)
        rw [hlab] at this; cases this
      have hf : isFree names name = true := by simp [isFree, hp, hm]
      cases hv : r.vars.addresses[name]? with
      | some a =>
        obtain ⟨i, hi, -⟩ := (h.vars.address name a).1 hv
        refine .inl ⟨r.push (.load a), by simp only [Resolution.add, hp, hlab, hv],
          h.push ?_ (by simp [Instr.word?, symbolAddress?, hp, hlab, hv])⟩
        rw [freeSymbols_concat _ _ hf, if_pos (List.mem_of_getElem? hi)]
      | none =>
        have hn := h.vars.mem.1 hv
        by_cases hlt : r.vars.next < variableEnd
        · exact .inl ⟨_, by simp only [Resolution.add, hp, hlab, hv, hlt, if_true], h.allocate hf hp hlab hn hlt⟩
        · refine .inr ⟨by simp only [Resolution.add, hp, hlab, hv, hlt, if_false], ?_⟩
          have hroom := h.room
          rw [h.vars.next] at hlt
          rw [freeSymbols_concat _ _ hf, if_neg hn,
            show variableRoom = (freeSymbols names code).length by simp only [variableRoom] at hroom ⊢; omega]
          simp

/-- One instruction: it is resolved, or it needs a cell and there is none left. -/
theorem add (h : r.Holds labels names code) (hl : ∀ name, name ∈ labels ↔ name ∈ names) (i : Instr) :
    (∃ r', Resolution.add labels r i = .ok r' ∧ r'.Holds labels names (code ++ [i])) ∨
      ∃ name, Resolution.add labels r i = .error (.ramOverflow name) ∧
        (freeSymbols names (code ++ [i]))[variableRoom]? = some name := by
  match i with
  | .compute dest comp jump =>
    exact .inl ⟨_, rfl, h.push (freeSymbols_concat_of_none _ _ (by simp [Instr.symbol?])) rfl⟩
  | .load (.number n) =>
    exact .inl ⟨_, rfl, h.push (freeSymbols_concat_of_none _ _ (by simp [Instr.symbol?])) rfl⟩
  | .load (.symbol name) => exact (h.add_symbol hl name).imp_right fun h => ⟨name, h⟩

/-- The whole pass: it fails exactly if a variable has no cell, and names the first one that has none. -/
theorem addAll (labels : Std.HashMap String UInt16) (names : List String)
    (hl : ∀ name, name ∈ labels ↔ name ∈ names) (code : List Instr) :
    (∃ r, code.foldlM (Resolution.add labels) {} = .ok r ∧ r.Holds labels names code) ∨
      ∃ name, code.foldlM (Resolution.add labels) {} = .error (.ramOverflow name) ∧
        (freeSymbols names code)[variableRoom]? = some name := by
  -- a variable that has no cell stays the first one of its kind as more code comes
  induction code using List.reverseRecOn with
  | nil => exact .inl ⟨{}, rfl, .empty⟩
  | append_singleton code i ih =>
    rw [List.foldlM_append]
    rcases ih with ⟨r, hr, h⟩ | ⟨name, hr, hn⟩
    · rw [hr]
      rcases h.add hl i with ⟨r', hr', h'⟩ | ⟨name, hr', hn⟩
      · exact .inl ⟨r', by simp [bind, Except.bind, hr', pure, Except.pure], h'⟩
      · exact .inr ⟨name, by simp [bind, Except.bind, hr'], hn⟩
    · rw [hr]
      refine .inr ⟨name, rfl, ?_⟩
      obtain ⟨more, hm⟩ := freeSymbols_prefix names code [i]
      rw [← hm, List.getElem?_append_left (List.getElem?_eq_some_iff.1 hn).1, hn]

end Resolution.Holds

/-! ## Programs -/

/-- The address that a symbol of a program stands for. -/
def Program.symbol? (p : Program) (name : String) : Option UInt16 := symbolAddress? p.labels p.vars name

/-- A program is what lines are assembled to. -/
structure Program.Holds (p : Program) (ls : List Line) : Prop where
  code : p.code.toList = Lines.code ls
  label : ∀ name a, p.labels[name]? = some a ↔
    ∃ before after, ls = before ++ .label name :: after ∧ a = UInt16.ofNat (Lines.size before)
  vars : p.vars.Holds (Lines.variables ls)
  words : p.words.toList.map some = (Lines.code ls).map (Instr.word? p.symbol?)
  size_le : Lines.size ls ≤ romSize
  room : (Lines.variables ls).length ≤ variableRoom

/-- The labels of a program are those of its lines. -/
theorem Program.Holds.mem_labels {p : Program} {ls : List Line} (h : p.Holds ls) {name : String} :
    name ∈ p.labels ↔ name ∈ Lines.labels ls :=
  Layout.Holds.mem_labels (l := ⟨p.code, p.labels⟩) ⟨h.code, h.label⟩

theorem Program.ofLayout_romOverflow {l : Layout} {ls : List Line} (h : l.Holds ls)
    (hs : romSize < Lines.size ls) : Program.ofLayout l = .error (.romOverflow (Lines.size ls)) := by
  rw [← h.size] at hs ⊢
  simp [Program.ofLayout, hs, throw, throwThe, MonadExceptOf.throw, bind, Except.bind]

theorem Program.ofLayout_of_size_le {l : Layout} {ls : List Line} (h : l.Holds ls)
    (hs : Lines.size ls ≤ romSize) :
    (∃ p, Program.ofLayout l = .ok p ∧ p.Holds ls) ∨
      ∃ name, Program.ofLayout l = .error (.ramOverflow name) ∧
        (Lines.variables ls)[variableRoom]? = some name := by
  have hs' : ¬ romSize < l.code.size := by rw [h.size]; omega
  have hr := Resolution.Holds.addAll l.labels (Lines.labels ls) (fun _ => h.mem_labels) l.code.toList
  rcases hr with ⟨r, hr, hh⟩ | ⟨name, hr, hn⟩
  · refine .inl ⟨{ words := r.words, code := l.code, labels := l.labels, vars := r.vars }, ?_, ?_⟩
    · simp [Program.ofLayout, hs', hr, bind, Except.bind, pure, Except.pure]
    · rw [h.code] at hh
      exact ⟨h.code, h.label, hh.vars, hh.words, hs, hh.room⟩
  · refine .inr ⟨name, ?_, by rw [h.code] at hn; exact hn⟩
    simp [Program.ofLayout, hs', hr, bind, Except.bind]

/-- Loading legal lines whose labels differ: it succeeds unless there are too many instructions or,
with room for these, too many variables. -/
theorem Program.parse_text {ls : List Line} (hl : ∀ l ∈ ls, l.Legal) (hd : (Lines.labels ls).Nodup) :
    (romSize < Lines.size ls ∧ Program.parse (Lines.text ls) = .error (.romOverflow (Lines.size ls))) ∨
    (Lines.size ls ≤ romSize ∧ ∃ name, Program.parse (Lines.text ls) = .error (.ramOverflow name) ∧
      (Lines.variables ls)[variableRoom]? = some name) ∨
    ∃ p, Program.parse (Lines.text ls) = .ok p ∧ p.Holds ls := by
  obtain ⟨l, hlay, h⟩ := Layout.holds_of_nodup hd
  have hparse : Program.parse (Lines.text ls) = Program.ofLayout l := by
    rw [Program.parse, Layout.ofText_text hl, hlay]
    rfl
  rw [hparse]
  rcases Nat.lt_or_ge romSize (Lines.size ls) with hs | hs
  · exact .inl ⟨hs, Program.ofLayout_romOverflow h hs⟩
  · rcases Program.ofLayout_of_size_le h hs with hp | ⟨name, hp, hn⟩
    · exact .inr (.inr hp)
    · exact .inr (.inl ⟨hs, name, hp, hn⟩)

/-- A program loaded from the text of such lines is what they are assembled to. -/
theorem Program.holds_of_parse {ls : List Line} (hl : ∀ l ∈ ls, l.Legal) (hd : (Lines.labels ls).Nodup)
    {p : Program} (hp : Program.parse (Lines.text ls) = .ok p) : p.Holds ls := by
  rcases Program.parse_text hl hd with ⟨-, h⟩ | ⟨-, name, h, -⟩ | ⟨p', h, hh⟩
  · rw [hp] at h; cases h
  · rw [hp] at h; cases h
  · rw [hp] at h; cases h; exact hh

/-- Lines load if there are no more instructions than cells for variables. -/
theorem Program.exists_parse_of_size_le {ls : List Line} (hl : ∀ l ∈ ls, l.Legal) (hd : (Lines.labels ls).Nodup)
    (hs : Lines.size ls ≤ variableRoom) : ∃ p, Program.parse (Lines.text ls) = .ok p := by
  have hroom : variableRoom < romSize := by decide
  have hvars := Lines.length_variables_le ls
  rcases Program.parse_text hl hd with ⟨h, -⟩ | ⟨-, name, -, h⟩ | ⟨p, hp, -⟩
  · omega
  · have := (List.getElem?_eq_some_iff.1 h).1
    omega
  · exact ⟨p, hp⟩

end Hack
