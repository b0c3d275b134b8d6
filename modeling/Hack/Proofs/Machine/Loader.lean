/-
What loading does, by the text alone. Its raw lines are read as lines of assembly; a line that is blank but for a
comment is dropped. The first line that does not read or defines a label again is refused; else there may
be too many instructions, and else too many variables. Every other text is loaded, and instructions, labels,
variables and words of the program are those that its lines call for.
-/
import Hack.Proofs.Machine.Parse

namespace Hack

open Text

/-! ## Texts -/

/-- What is left of a raw line without its comment and without blanks around it. -/
def bare (raw : List Char) : List Char := trim (beforeComment raw)

/-- Raw lines read as lines of assembly. -/
inductive ReadAs : List (List Char) → List Line → Prop
  | nil : ReadAs [] []
  | blank {raw raws ls} (h : bare raw = []) (rest : ReadAs raws ls) : ReadAs (raw :: raws) ls
  | code {raw raws l ls} (h : bare raw ≠ []) (reads : Line.parse (String.ofList (bare raw)) = .ok l)
      (rest : ReadAs raws ls) : ReadAs (raw :: raws) (l :: ls)

/-- Why a raw line is refused behind lines. -/
inductive LineRefused (ls : List Line) (number : Nat) (raw : List Char) : LoadError → Prop
  | line {e} (h : bare raw ≠ []) (fails : Line.parse (String.ofList (bare raw)) = .error e) :
      LineRefused ls number raw (.line number e)
  | label {name} (h : bare raw ≠ []) (reads : Line.parse (String.ofList (bare raw)) = .ok (.label name))
      (again : name ∈ Lines.labels ls) : LineRefused ls number raw (.redefinedLabel name)

/-- A text reads as lines that define every label once. -/
structure Legible (text : String) (ls : List Line) : Prop where
  reads : ReadAs (lines text.toList) ls
  nodup : (Lines.labels ls).Nodup

/-- Why a text is no program. The lines in front of one that is refused are all fine, so it is the first. -/
inductive Unloadable (text : String) : LoadError → Prop
  | refused {before raw after ls e} (split : lines text.toList = before ++ raw :: after) (reads : ReadAs before ls)
      (nodup : (Lines.labels ls).Nodup) (refused : LineRefused ls (before.length + 1) raw e) : Unloadable text e
  | romOverflow {ls} (legible : Legible text ls) (excess : romSize < Lines.size ls) :
      Unloadable text (.romOverflow (Lines.size ls))
  | ramOverflow {ls name} (legible : Legible text ls) (room : Lines.size ls ≤ romSize)
      (excess : (Lines.variables ls)[variableRoom]? = some name) : Unloadable text (.ramOverflow name)

namespace ReadAs

theorem append {raws raws' : List (List Char)} {ls ls' : List Line} (h : ReadAs raws ls) (h' : ReadAs raws' ls') :
    ReadAs (raws ++ raws') (ls ++ ls') := by
  induction h with
  | nil => exact h'
  | blank hb _ ih => exact .blank hb ih
  | code hne hl _ ih => exact .code hne hl ih

theorem snoc_blank {raws : List (List Char)} {ls : List Line} (h : ReadAs raws ls) {raw : List Char}
    (hb : bare raw = []) : ReadAs (raws ++ [raw]) ls := by
  have := h.append (.blank hb .nil)
  rwa [List.append_nil] at this

theorem snoc {raws : List (List Char)} {ls : List Line} (h : ReadAs raws ls) {raw : List Char} {l : Line}
    (hne : bare raw ≠ []) (hl : Line.parse (String.ofList (bare raw)) = .ok l) : ReadAs (raws ++ [raw]) (ls ++ [l]) :=
  h.append (.code hne hl .nil)

/-- Raw lines read as lines without a label twice, or one of them is the first to be refused. -/
theorem or_refused (raws : List (List Char)) :
    (∃ ls, ReadAs raws ls ∧ (Lines.labels ls).Nodup) ∨
      ∃ before raw after ls e, raws = before ++ raw :: after ∧ ReadAs before ls ∧ (Lines.labels ls).Nodup ∧
        LineRefused ls (before.length + 1) raw e := by
  -- from the last line on: a line that is refused stays so, whatever comes behind it
  induction raws using List.reverseRecOn with
  | nil => exact .inl ⟨[], .nil, List.nodup_nil⟩
  | append_singleton raws raw ih =>
    rcases ih with ⟨ls, hreads, hd⟩ | ⟨before, first, after, ls, e, rfl, hreads, hd, hr⟩
    · by_cases hne : bare raw = []
      · exact .inl ⟨ls, hreads.snoc_blank hne, hd⟩
      have refuses {e : LoadError} (hr : LineRefused ls (raws.length + 1) raw e) :
          ∃ before first after ls e, raws ++ [raw] = before ++ first :: after ∧ ReadAs before ls ∧
            (Lines.labels ls).Nodup ∧ LineRefused ls (before.length + 1) first e :=
        ⟨raws, raw, [], ls, e, rfl, hreads, hd, hr⟩
      cases hl : Line.parse (String.ofList (bare raw)) with
      | error e => exact .inr (refuses (.line hne hl))
      | ok l =>
        cases l with
        | instr i =>
          refine .inl ⟨ls ++ [.instr i], hreads.snoc hne hl, ?_⟩
          rw [Lines.labels_append, Lines.labels_instr, Lines.labels_nil, List.append_nil]
          exact hd
        | label name =>
          by_cases hm : name ∈ Lines.labels ls
          · exact .inr (refuses (.label hne hl hm))
          · refine .inl ⟨ls ++ [.label name], hreads.snoc hne hl, ?_⟩
            rw [Lines.labels_append, Lines.labels_label, Lines.labels_nil, ← List.concat_eq_append]
            exact hd.concat hm
    · exact .inr ⟨before, first, after ++ [raw], ls, e, by simp, hreads, hd, hr⟩

end ReadAs

/-! ## The first pass -/

/-- The raw lines that hold code, with their numbers. -/
def sourcesFrom (number : Nat) (raws : List (List Char)) : List (Nat × List Char) :=
  (raws.zipIdx number).filterMap fun (raw, number) =>
    let code := trim (beforeComment raw)
    if code.isEmpty then none else some (number, code)

theorem codeLines_eq (text : List Char) : codeLines text = sourcesFrom 1 (lines text) := rfl

theorem sourcesFrom_blank {raw : List Char} (h : bare raw = []) (number : Nat) (raws : List (List Char)) :
    sourcesFrom number (raw :: raws) = sourcesFrom (number + 1) raws := by
  have hb : trim (beforeComment raw) = [] := h
  simp [sourcesFrom, hb]

theorem sourcesFrom_code {raw : List Char} (h : bare raw ≠ []) (number : Nat) (raws : List (List Char)) :
    sourcesFrom number (raw :: raws) = (number, bare raw) :: sourcesFrom (number + 1) raws := by
  have hb : trim (beforeComment raw) ≠ [] := h
  simp [sourcesFrom, hb, bare]

theorem sourcesFrom_append (number : Nat) (raws more : List (List Char)) :
    sourcesFrom number (raws ++ more) = sourcesFrom number raws ++ sourcesFrom (number + raws.length) more := by
  rw [sourcesFrom, List.zipIdx_append, List.filterMap_append]
  rfl

/-- The pass over raw lines is the pass over the lines that they are read as. -/
theorem ReadAs.foldlM_sourcesFrom {raws : List (List Char)} {ls : List Line} (h : ReadAs raws ls) (number : Nat)
    (start : Layout) :
    (sourcesFrom number raws).foldlM Layout.addSource start = ls.foldlM Layout.add start := by
  induction h generalizing number start with
  | nil => rfl
  | blank hb _ ih => rw [sourcesFrom_blank hb, ih]
  | code hne hl _ ih =>
    rw [sourcesFrom_code hne, List.foldlM_cons, List.foldlM_cons, Layout.addSource, hl]
    exact bind_congr fun next => ih (number + 1) next

/-- What raw lines without a label twice are laid out as. -/
theorem ReadAs.laidOut {raws : List (List Char)} {ls : List Line} (h : ReadAs raws ls)
    (hd : (Lines.labels ls).Nodup) :
    ∃ l, (sourcesFrom 1 raws).foldlM Layout.addSource {} = .ok l ∧ l.Holds ls := by
  rw [h.foldlM_sourcesFrom]
  exact Layout.holds_of_nodup hd

theorem LineRefused.addSource {ls : List Line} {number : Nat} {raw : List Char} {e : LoadError}
    (h : LineRefused ls number raw e) {l : Layout} (hl : l.Holds ls) : l.addSource (number, bare raw) = .error e := by
  cases h with
  | line _ fails => rw [Layout.addSource, fails]
  | label _ reads again =>
    rw [Layout.addSource, reads]
    exact hl.add_label_again again

theorem LineRefused.bare_ne_nil {ls : List Line} {number : Nat} {raw : List Char} {e : LoadError}
    (h : LineRefused ls number raw e) : bare raw ≠ [] := by
  cases h <;> assumption

theorem Legible.laidOut {text : String} {ls : List Line} (h : Legible text ls) :
    ∃ l, Layout.ofText text.toList = .ok l ∧ l.Holds ls :=
  h.reads.laidOut h.nodup

/-- A line that is refused ends the pass. -/
theorem Layout.ofText_refused {text : String} {before after : List (List Char)} {raw : List Char} {ls : List Line}
    {e : LoadError} (hsplit : lines text.toList = before ++ raw :: after) (hreads : ReadAs before ls)
    (hd : (Lines.labels ls).Nodup) (hr : LineRefused ls (before.length + 1) raw e) :
    Layout.ofText text.toList = .error e := by
  obtain ⟨l, hl, hh⟩ := hreads.laidOut hd
  rw [Layout.ofText, codeLines_eq, hsplit, sourcesFrom_append, List.foldlM_append, hl, Nat.add_comm,
    sourcesFrom_code hr.bare_ne_nil]
  change List.foldlM Layout.addSource l (_ :: _) = _
  rw [List.foldlM_cons, hr.addSource hh]
  rfl

/-! ## Programs -/

/-- A program is made of the lines of a text. -/
structure Program.Reflects (p : Program) (ls : List Line) : Prop where
  words : p.words.size = p.code.size
  code : p.code.toList = Lines.code ls
  /-- A label stands for the number of instructions before it. -/
  label : ∀ name a, p.labels[name]? = some a ↔
    ∃ before after, ls = before ++ .label name :: after ∧ a.toNat = Lines.size before
  /-- Variables in the order of first use. -/
  names : p.vars.names.toList = Lines.variables ls
  nodup : (Lines.variables ls).Nodup
  /-- Their cells are consecutive. -/
  cell : ∀ name a, p.vars.addresses[name]? = some a ↔
    ∃ i : Nat, (Lines.variables ls)[i]? = some name ∧ a.toNat = variableBase + i
  compute : ∀ (k : Nat) dest comp jump, p.code[k]? = some (.compute dest comp jump) →
    p.words[k]? = some (.compute dest comp jump)
  number : ∀ (k : Nat) n, p.code[k]? = some (.load (.number n)) → p.words[k]? = some (.load n)
  /-- Symbols that are no labels but have a fixed address. -/
  fixed : ∀ (k : Nat) name a, p.code[k]? = some (.load (.symbol name)) → name ∉ Lines.labels ls →
    Symbol.predefined? name = some a → p.words[k]? = some (.load a)
  /-- Labels without a fixed address, wherever they are. -/
  toLabel : ∀ (k : Nat) name before after, p.code[k]? = some (.load (.symbol name)) →
    Symbol.predefined? name = none → ls = before ++ .label name :: after →
    ∃ a, p.words[k]? = some (.load a) ∧ a.toNat = Lines.size before
  /-- All others. -/
  toVariable : ∀ (k : Nat) name, p.code[k]? = some (.load (.symbol name)) → Symbol.predefined? name = none →
    name ∉ Lines.labels ls → ∃ (i : Nat) (a : _), (Lines.variables ls)[i]? = some name ∧
      p.words[k]? = some (.load a) ∧ a.toNat = variableBase + i

theorem nodup_eraseDups (l : List String) : l.eraseDups.Nodup := by
  induction l using List.reverseRecOn with
  | nil => exact List.nodup_nil
  | append_singleton l a ih =>
    rw [eraseDups_concat]
    split
    · exact ih
    · rename_i hm
      rw [← List.concat_eq_append]
      exact ih.concat (by rwa [List.mem_eraseDups])

theorem eq_ofNat_iff {a : UInt16} {n : Nat} (hn : n < 65536) : a = UInt16.ofNat n ↔ a.toNat = n := by
  have hofNat : (UInt16.ofNat n).toNat = n := UInt16.toNat_ofNat_of_lt' hn
  rw [← UInt16.toNat_inj, hofNat]

namespace Program.Holds

variable {p : Program} {ls : List Line}

/-- The word of an instruction stands at the same index. -/
theorem getElem?_words (h : p.Holds ls) {k : Nat} {i : Instr} {w : Word} (hi : p.code[k]? = some i)
    (hw : i.word? p.symbol? = some w) : p.words[k]? = some w := by
  have hk := congrArg (·[k]?) h.words
  simp only [List.getElem?_map, Array.getElem?_toList] at hk
  rw [← h.code, Array.getElem?_toList, hi, Option.map_some, hw] at hk
  obtain ⟨w', hw', he⟩ := Option.map_eq_some_iff.1 hk
  rw [hw', he]

theorem cell_lt (h : p.Holds ls) {i : Nat} {name : String} (hi : (Lines.variables ls)[i]? = some name) :
    variableBase + i < 65536 := by
  have hroom := h.room
  have hlt := (List.getElem?_eq_some_iff.1 hi).1
  simp only [variableRoom, variableEnd, variableBase] at hroom ⊢
  omega

theorem label_iff (h : p.Holds ls) (name : String) (a : UInt16) : p.labels[name]? = some a ↔
    ∃ before after, ls = before ++ .label name :: after ∧ a.toNat = Lines.size before := by
  rw [h.label]
  refine exists_congr fun before => exists_congr fun after => and_congr_right fun hls => ?_
  exact eq_ofNat_iff (h.size_lt hls)

theorem cell_iff (h : p.Holds ls) (name : String) (a : UInt16) : p.vars.addresses[name]? = some a ↔
    ∃ i : Nat, (Lines.variables ls)[i]? = some name ∧ a.toNat = variableBase + i := by
  rw [h.vars.address]
  refine exists_congr fun i => and_congr_right fun hi => ?_
  exact eq_ofNat_iff (h.cell_lt hi)

theorem reflects (h : p.Holds ls) : p.Reflects ls where
  words := by rw [h.size_words, h.size_code]
  code := h.code
  label := h.label_iff
  names := h.vars.order
  nodup := nodup_eraseDups _
  cell := h.cell_iff
  compute := fun k dest comp jump hi => h.getElem?_words hi rfl
  number := fun k n hi => h.getElem?_words hi rfl
  fixed := by
    intro k name a hi _ ha
    refine h.getElem?_words hi ?_
    simp [Instr.word?, Program.symbol?, symbolAddress?, ha]
  toLabel := by
    intro k name before after hi hp hls
    have ha := (h.label name _).2 ⟨before, after, hls, rfl⟩
    refine ⟨UInt16.ofNat (Lines.size before), h.getElem?_words hi ?_,
      UInt16.toNat_ofNat_of_lt' (h.size_lt hls)⟩
    simp [Instr.word?, Program.symbol?, symbolAddress?, hp, ha]
  toVariable := by
    intro k name hi hp hl
    have hmem : .load (.symbol name) ∈ Lines.code ls := by
      rw [← h.code, Array.mem_toList_iff]
      exact Array.mem_of_getElem? hi
    have hfree : name ∈ Lines.variables ls := mem_freeSymbols.2 ⟨by simp [isFree, hp, hl], hmem⟩
    obtain ⟨i, hn⟩ := List.mem_iff_getElem?.1 hfree
    have ha := (h.vars.address name _).2 ⟨i, hn, rfl⟩
    have hnone : p.labels[name]? = none := Std.HashMap.getElem?_eq_none (mt h.mem_labels.1 hl)
    refine ⟨i, _, hn, h.getElem?_words hi ?_, UInt16.toNat_ofNat_of_lt' (h.cell_lt hn)⟩
    simp [Instr.word?, Program.symbol?, symbolAddress?, hp, hnone, ha]

end Program.Holds

/-! ## Loading -/

/-- A text whose lines are fine is loaded, unless it is too large. -/
theorem Legible.parse {text : String} {ls : List Line} (h : Legible text ls) :
    (∃ p, Program.parse text = .ok p ∧ p.Holds ls) ∨ ∃ e, Unloadable text e ∧ Program.parse text = .error e := by
  obtain ⟨l, hl, hh⟩ := h.laidOut
  have hparse : Program.parse text = Program.ofLayout l := by rw [Program.parse, hl]; rfl
  rw [hparse]
  rcases Nat.lt_or_ge romSize (Lines.size ls) with hs | hs
  · exact .inr ⟨_, .romOverflow h hs, Program.ofLayout_romOverflow hh hs⟩
  · rcases Program.ofLayout_of_size_le hh hs with hp | ⟨name, hp, hn⟩
    · exact .inl hp
    · exact .inr ⟨_, .ramOverflow h hs hn, hp⟩

/-- Every text is loaded from lines that are fine, or there is a reason against it. -/
theorem Program.parse_or (text : String) :
    (∃ p ls, Program.parse text = .ok p ∧ Legible text ls ∧ p.Holds ls) ∨
      ∃ e, Unloadable text e ∧ Program.parse text = .error e := by
  rcases ReadAs.or_refused (lines text.toList) with
    ⟨ls, hreads, hd⟩ | ⟨before, raw, after, ls, e, hsplit, hreads, hd, hr⟩
  · have hlegible : Legible text ls := ⟨hreads, hd⟩
    rcases hlegible.parse with ⟨p, hp, hh⟩ | he
    · exact .inl ⟨p, ls, hp, hlegible, hh⟩
    · exact .inr he
  · refine .inr ⟨e, .refused hsplit hreads hd hr, ?_⟩
    rw [Program.parse, Layout.ofText_refused hsplit hreads hd hr]
    rfl

/-- A reason against loading is the error that loading ends with. -/
theorem Unloadable.parse {text : String} {e : LoadError} (h : Unloadable text e) : Program.parse text = .error e := by
  cases h with
  | refused hsplit hreads hd hr =>
    rw [Program.parse, Layout.ofText_refused hsplit hreads hd hr]
    rfl
  | romOverflow hlegible hover =>
    obtain ⟨l, hl, hh⟩ := hlegible.laidOut
    rw [Program.parse, hl]
    exact Program.ofLayout_romOverflow hh hover
  | @ramOverflow ls name hlegible hroom hover =>
    obtain ⟨l, hl, hh⟩ := hlegible.laidOut
    rw [Program.parse, hl]
    rcases Program.ofLayout_of_size_le hh hroom with ⟨p, -, hp⟩ | ⟨name', hp, hn⟩
    · -- the variables of a program have cells
      have := hp.room
      have := (List.getElem?_eq_some_iff.1 hover).1
      omega
    · rw [hover] at hn
      cases hn
      exact hp

/-- Loading fails for the reasons there are against it, and makes the program that the lines call for. -/
theorem Program.parse_exact (text : String) :
    (∀ e, Program.parse text = .error e ↔ Unloadable text e) ∧
      ∀ p, Program.parse text = .ok p → ∃ ls, Legible text ls ∧ Lines.size ls ≤ romSize ∧
        (Lines.variables ls).length ≤ variableRoom ∧ p.Reflects ls := by
  rcases Program.parse_or text with ⟨p, ls, hp, hlegible, hh⟩ | ⟨e, he, hp⟩
  · refine ⟨fun e => ⟨fun h => ?_, Unloadable.parse⟩, fun q hq => ?_⟩
    · rw [hp] at h
      cases h
    · rw [hp] at hq
      cases hq
      exact ⟨ls, hlegible, hh.size_le, hh.room, hh.reflects⟩
  · refine ⟨fun e' => ⟨fun h => ?_, Unloadable.parse⟩, fun q hq => ?_⟩
    · rw [hp] at h
      cases h
      exact he
    · rw [hp] at hq
      cases hq

/-- Of two faults the first counts, here the label on line 4. -/
example : Unloadable "@1 // one\n\n(A)\n(A)\nnothing\n" (.redefinedLabel "A") := by
  refine @Unloadable.refused _ ["@1 // one".toList, [], "(A)".toList] "(A)".toList ["nothing".toList]
    [.instr (.load (.number 1)), .label "A"] _ (by decide) ?_ (by decide) (.label (by decide) (by decide) (by decide))
  exact .code (by decide) (by decide) (.blank rfl (.code (by decide) (by decide) .nil))

end Hack
