/-
What the spans of a unit and its listing say. Every source line has one span, the spans follow each other
from the first output line to the last, and none is empty. The listing has a row for every span and every
output line; the address on a row of code is the number of such rows above it, which is the place that the
instruction has in the program once the text is loaded, and a label stands for that number too. Without their
escape sequences, the rows of a listing and of a diagnosis show plain text.
-/
import Hack.Codegen.Listing
import Hack.Proofs.Codegen.Accepts
import Hack.Proofs.Codegen.Assembly

namespace Hack

open Text

namespace Text

/-! ## Hexadecimal numbers -/

/-- The value of a hexadecimal digit in upper case. -/
def hexDigit (c : Char) : Nat := if c.isDigit then c.toNat - '0'.toNat else c.toNat - 'A'.toNat + 10

/-- The value of a run of hexadecimal digits. -/
def hexValue (s : List Char) : Nat := s.foldl (fun n c => 16 * n + hexDigit c) 0

theorem hexValue_concat (s : List Char) (c : Char) : hexValue (s ++ [c]) = 16 * hexValue s + hexDigit c :=
  List.foldl_append

theorem hexValue_zeros (n : Nat) (s : List Char) : hexValue (List.replicate n '0' ++ s) = hexValue s := by
  induction n with
  | zero => rfl
  | succ n ih =>
    rw [List.replicate_succ, List.cons_append]
    exact ih

theorem hexValue_toDigits (n : Nat) : hexValue ((Nat.toDigits 16 n).map Char.toUpper) = n := by
  have digit : ∀ d < 16, hexDigit (Nat.digitChar d).toUpper = d := by decide
  induction n using Nat.strongRecOn with
  | ind n ih =>
    rcases Nat.lt_or_ge n 16 with hlt | hge
    · rw [Nat.toDigits_of_lt_base hlt]
      show 16 * 0 + hexDigit n.digitChar.toUpper = n
      rw [digit n hlt, Nat.mul_zero, Nat.zero_add]
    · rw [Nat.toDigits_of_base_le (by decide) hge, List.map_append, List.map_singleton, hexValue_concat,
        ih (n / 16) (by omega), digit _ (Nat.mod_lt _ (by decide))]
      omega

/-- The address on a row reads back. -/
theorem hexValue_hex4 (n : Nat) : hexValue (hex4 n).toList = n := by
  rw [hex4, String.toList_ofList, List.leftpad, hexValue_zeros, hexValue_toDigits]

/-! ## Escape sequences -/

/-- `Styled s t`: `s` is the text `t` with escape sequences put in anywhere. -/
inductive Styled : String → String → Prop
  | nil : Styled "" ""
  | text (u : String) {s t : String} (h : Styled s t) : Styled (u ++ s) (u ++ t)
  | escape (code : Nat) {s t : String} (h : Styled s t) : Styled (Text.escape code ++ s) t

namespace Styled

variable {s s' t t' : String}

theorem append (h : Styled s t) (h' : Styled s' t') : Styled (s ++ s') (t ++ t') := by
  induction h with
  | nil => simpa using h'
  | text u _ ih =>
    rw [String.append_assoc, String.append_assoc]
    exact ih.text u
  | escape code _ ih =>
    rw [String.append_assoc]
    exact ih.escape code

theorem refl (s : String) : Styled s s := by
  simpa using nil.text s

theorem between (before after : Nat) (h : Styled s t) :
    Styled (Text.escape before ++ s ++ Text.escape after) t := by
  have hafter : Styled (Text.escape after) "" := by simpa using nil.escape after
  simpa using (h.escape before).append hafter

theorem paint (c : Colour) (h : Styled s t) : Styled (c.paint s) t :=
  h.between c.code 39

theorem underlined (h : Styled s t) : Styled (underlined s) t :=
  h.between 4 24

theorem errorTag : Styled errorTag "error" := by
  simpa [Text.errorTag, String.append_assoc] using ((refl "error").between 1 39).between 31 22

end Styled

end Text

theorem Operand.styled_painted (v : Operand) : Styled v.painted v.text := by
  cases v with
  | number n => exact (Styled.refl _).paint _
  | symbol name => exact (Styled.refl _).paint _

theorem Instr.styled_painted (i : Instr) : Styled i.painted i.text := by
  cases i with
  | load v => exact ((Styled.refl "@").escape _).append v.styled_painted
  | compute dest comp jump =>
    refine .append (.append ?_ (.refl comp.text)) ?_
    · split
      · exact .nil
      · exact ((Styled.refl _).paint _).append (.refl "=")
    · split
      · exact .nil
      · exact (Styled.refl ";").append ((Styled.refl _).paint _)

/-- A line in colours is the line as it is written to a file. -/
theorem Line.styled_painted (l : Line) : Styled l.painted l.text := by
  cases l with
  | instr i => exact i.styled_painted
  | label name => exact (Styled.refl _).paint _

namespace Codegen

open Vm

/-! ## Rows -/

/-- A row between the two rules. -/
inductive Row
  | source (number : Nat) (raw : String)
  | code (address : Nat) (i : Instr)
  | label (name : String)

namespace Row

def text : Row → String
  | .source number raw =>
    margin ++ "| " ++ padLeft 4 (toString number) ++ ": " ++ Colour.magenta.paint (String.ofList (trim raw.toList))
  | .code address i => "[" ++ hex4 address ++ "]  |       " ++ i.painted
  | .label name => margin ++ "|     " ++ (Line.label name).painted

/-- The text of a row without colours. -/
def shown : Row → String
  | .source number raw =>
    margin ++ "| " ++ padLeft 4 (toString number) ++ ": " ++ String.ofList (trim raw.toList)
  | .code address i => "[" ++ hex4 address ++ "]  |       " ++ i.text
  | .label name => margin ++ "|     " ++ (Line.label name).text

theorem styled_text (r : Row) : Styled r.text r.shown := by
  cases r with
  | source number raw => exact (Styled.refl _).append ((Styled.refl _).paint _)
  | code address i => exact (Styled.refl _).append i.styled_painted
  | label name => exact (Styled.refl _).append (Line.label name).styled_painted

/-- The output line that a row shows, if it shows one. -/
def line? : Row → Option Line
  | .source _ _ => none
  | .code _ i => some (.instr i)
  | .label name => some (.label name)

def isCode : Row → Bool
  | .code _ _ => true
  | _ => false

/-- The row of an output line behind `pc` instructions. -/
def ofLine (pc : Nat) : Line → Row
  | .instr i => .code pc i
  | .label name => .label name

theorem text_ofLine (pc : Nat) (l : Line) : (ofLine pc l).text = codeRow pc l := by
  cases l <;> rfl

theorem line?_ofLine (pc : Nat) (l : Line) : (ofLine pc l).line? = some l := by
  cases l <;> rfl

end Row

/-- The rows of output lines behind `pc` instructions. -/
def rowsFrom (pc : Nat) : List Line → List Row
  | [] => []
  | l :: ls => .ofLine pc l :: rowsFrom (pc + Lines.size [l]) ls

theorem codeRows_eq (pc : Nat) (ls : List Line) :
    codeRows pc ls = ((rowsFrom pc ls).map Row.text, pc + Lines.size ls) := by
  induction ls generalizing pc with
  | nil => rfl
  | cons l ls ih =>
    have hnext : (if l.isCode then pc + 1 else pc) = pc + Lines.size [l] := by cases l <;> rfl
    have hsize : Lines.size (l :: ls) = Lines.size [l] + Lines.size ls := Lines.size_append [l] ls
    rw [codeRows, hnext, ih, rowsFrom, List.map_cons, Row.text_ofLine, hsize, Nat.add_assoc]

theorem line?_rowsFrom (pc : Nat) (ls : List Line) : (rowsFrom pc ls).map Row.line? = ls.map some := by
  induction ls generalizing pc with
  | nil => rfl
  | cons l ls ih => rw [rowsFrom, List.map_cons, List.map_cons, Row.line?_ofLine, ih]

/-- The rows of code have the addresses from `pc` on. -/
inductive Counted : Nat → List Row → Nat → Prop
  | nil (pc) : Counted pc [] pc
  | source {pc number raw rows stop} (h : Counted pc rows stop) : Counted pc (.source number raw :: rows) stop
  | code {pc i rows stop} (h : Counted (pc + 1) rows stop) : Counted pc (.code pc i :: rows) stop
  | label {pc name rows stop} (h : Counted pc rows stop) : Counted pc (.label name :: rows) stop

namespace Counted

variable {pc mid stop : Nat} {rows more : List Row}

theorem append (h : Counted pc rows mid) (h' : Counted mid more stop) : Counted pc (rows ++ more) stop := by
  induction h with
  | nil => exact h'
  | source _ ih => exact .source (ih h')
  | code _ ih => exact .code (ih h')
  | label _ ih => exact .label (ih h')

theorem rowsFrom (pc : Nat) (ls : List Line) : Counted pc (rowsFrom pc ls) (pc + Lines.size ls) := by
  induction ls generalizing pc with
  | nil => exact .nil pc
  | cons l ls ih =>
    cases l with
    | instr i =>
      rw [Lines.size_instr, Nat.add_comm (Lines.size ls), ← Nat.add_assoc]
      exact .code (ih (pc + 1))
    | label name => exact .label (ih pc)

/-- An address counts the rows of code above. -/
theorem address {before after : List Row} {a : Nat} {i : Instr} (h : Counted pc rows stop)
    (hrows : rows = before ++ .code a i :: after) : a = pc + before.countP Row.isCode := by
  induction h generalizing before with
  | nil => simp at hrows
  | code _ ih =>
    cases before with
    | nil => cases hrows; rfl
    | cons row before =>
      cases hrows
      rw [ih rfl, List.countP_cons_of_pos rfl]
      omega
  | source _ ih | label _ ih =>
    cases before with
    | nil => cases hrows
    | cons row before =>
      cases hrows
      rw [ih rfl, List.countP_cons_of_neg (by simp [Row.isCode])]

end Counted

/-- As many words as rows of code. -/
theorem size_filterMap_line? (rows : List Row) :
    Lines.size (rows.filterMap Row.line?) = rows.countP Row.isCode := by
  induction rows with
  | nil => rfl
  | cons row rows ih =>
    cases row with
    | source number raw =>
      rw [List.filterMap_cons_none rfl, ih, List.countP_cons_of_neg (by simp [Row.isCode])]
    | code a i =>
      have hline : Row.line? (.code a i) = some (.instr i) := rfl
      rw [List.filterMap_cons_some hline, Lines.size_instr, ih, List.countP_cons_of_pos rfl]
    | label name =>
      have hline : Row.line? (.label name) = some (.label name) := rfl
      rw [List.filterMap_cons_some hline, Lines.size_label, ih, List.countP_cons_of_neg (by simp [Row.isCode])]

/-! ## Spans -/

/-- Spans follow each other without gaps, and none is empty. -/
inductive Tiles : Nat → List Span → Nat → Prop
  | nil (start) : Tiles start [] start
  | cons {span spans stop} (h : span.start < span.stop) (rest : Tiles span.stop spans stop) :
      Tiles span.start (span :: spans) stop

/-- The rows of a span: one for its source line, and one for each of its output lines. -/
def blockRows (output : List Line) (span : Span) : List Row :=
  .source (span.line.index + 1) span.line.raw ::
    rowsFrom (Lines.size (output.take span.start)) (output.extract span.start span.stop)

theorem take_append_extract {α : Type} (xs : List α) {start stop : Nat} (h : start ≤ stop) :
    xs.take start ++ xs.extract start stop = xs.take stop := by
  rw [List.extract_eq_take_drop, ← List.take_add, Nat.add_sub_cancel' h]

namespace Tiles

variable {start stop : Nat} {spans : List Span}

/-- The output lines of spans in a row are those between the first one and the last. -/
theorem flatMap_extract (h : Tiles start spans stop) {α : Type} (xs : List α) :
    xs.take start ++ spans.flatMap (fun span => xs.extract span.start span.stop) = xs.take stop := by
  induction h with
  | nil => exact List.append_nil _
  | cons h _ ih => rw [List.flatMap_cons, ← List.append_assoc, take_append_extract xs (Nat.le_of_lt h), ih]

theorem size_extract {span : Span} (h : span.start ≤ span.stop) (output : List Line) :
    Lines.size (output.take span.start) + Lines.size (output.extract span.start span.stop) =
      Lines.size (output.take span.stop) := by
  rw [← Lines.size_append, take_append_extract output h]

/-- What the loop over spans appends to the rows before them. -/
theorem spanRows_eq (h : Tiles start spans stop) (output : Array Line) (rows : Array String) :
    (spanRows output rows (Lines.size (output.toList.take start)) spans).toList =
      rows.toList ++ (spans.flatMap (blockRows output.toList)).map Row.text := by
  induction h generalizing rows with
  | nil => exact (List.append_nil _).symm
  | @cons span spans stop h _ ih =>
    rw [spanRows, codeRows_eq]
    dsimp only
    rw [Array.toList_extract, size_extract (Nat.le_of_lt h), ih, Array.appendList_eq_append, Array.toList_appendList,
      Array.toList_push, List.flatMap_cons, List.map_append, blockRows, List.map_cons]
    simp only [List.append_assoc, List.cons_append]
    rfl

theorem counted (h : Tiles start spans stop) (output : List Line) :
    Counted (Lines.size (output.take start)) (spans.flatMap (blockRows output))
      (Lines.size (output.take stop)) := by
  induction h with
  | nil => exact .nil _
  | @cons span spans stop h _ ih =>
    refine Counted.append (.source ?_) ih
    rw [← size_extract (Nat.le_of_lt h) output]
    exact .rowsFrom _ _

end Tiles

theorem filterMap_line? {rows : List Row} {ls : List Line} (h : rows.map Row.line? = ls.map some) :
    rows.filterMap Row.line? = ls := by
  have hid : (rows.map Row.line?).filterMap id = (ls.map some).filterMap id := by rw [h]
  rwa [List.filterMap_map, List.filterMap_map, Function.id_comp, Function.id_comp, List.filterMap_some] at hid

/-- The rows of a span show its source line and its output lines. -/
structure Shows (output : List Line) (span : Span) (rows : List Row) : Prop where
  source : rows.head? = some (.source (span.line.index + 1) span.line.raw)
  lines : rows.tail.map Row.line? = (output.extract span.start span.stop).map some

theorem shows_blockRows (output : List Line) (span : Span) : Shows output span (blockRows output span) :=
  ⟨rfl, line?_rowsFrom _ _⟩

theorem line?_blockRows (output : List Line) (span : Span) :
    (blockRows output span).filterMap Row.line? = output.extract span.start span.stop := by
  rw [blockRows, List.filterMap_cons_none rfl, filterMap_line? (line?_rowsFrom _ _)]

/-- The rows of all spans show the output, line by line. -/
theorem Tiles.line?_rows {output : List Line} {spans : List Span} (h : Tiles 0 spans output.length) :
    (spans.flatMap (blockRows output)).filterMap Row.line? = output := by
  have hall := h.flatMap_extract output
  rw [List.take_zero, List.nil_append, List.take_length] at hall
  rw [List.filterMap_flatMap]
  simp only [line?_blockRows, hall]

/-- One row for every span and one for every output line. -/
theorem length_blockRows (output : List Line) (spans : List Span) :
    (spans.flatMap (blockRows output)).length =
      spans.length + ((spans.flatMap (blockRows output)).filterMap Row.line?).length := by
  induction spans with
  | nil => rfl
  | cons span spans ih =>
    have hrows : ∀ pc ls, (rowsFrom pc ls).length = ls.length := fun pc ls => by
      have := congrArg List.length (line?_rowsFrom pc ls)
      rwa [List.length_map, List.length_map] at this
    rw [List.flatMap_cons, List.filterMap_append, List.length_append, List.length_append, ih, line?_blockRows,
      blockRows, List.length_cons, List.length_cons, hrows]
    omega

/-! ## Spans of a unit -/

theorem linesFrom_ne_nil {cursor : Option Target} {steps : List Emission} {l : Line} (h : .line l ∈ steps) :
    linesFrom cursor steps ≠ [] := by
  obtain ⟨before, after, rfl⟩ := List.append_of_mem h
  rw [linesFrom_append, linesFrom_cons]
  simp [Emission.appends]

theorem exists_line_withAddress {address : Except CommandError (List Emission)}
    {rest : List Emission → List Emission} {l : Line} (h : (withAddress address rest).error = none)
    (hl : ∀ steps, .line l ∈ rest steps) : .line l ∈ (withAddress address rest).steps := by
  cases address with
  | error e => cases h
  | ok steps => exact hl steps

/-- A command that compiles stores something in memory. -/
theorem exists_line_lower {unit : String} {n : Nat} {cmd : Command} (h : (lower unit n cmd).error = none) :
    .line (.assign .toM .d) ∈ (lower unit n cmd).steps := by
  have hpush : Emission.line (.assign .toM .d) ∈ pushD := by decide
  have staged : Emission.line (.assign .toM .d) ∈ [pointDeref scratch, assign .toM .d] := by decide
  have unstaged : Emission.line (.assign .toM .d) ∈ [assign .toM .d] := by decide
  cases cmd with
  | arith op => exact List.mem_append_right _ hpush
  | push seg m =>
    cases seg with
    | stack => exact List.mem_append_right _ hpush
    | _ => exact exists_line_withAddress h fun steps => List.mem_append_right _ hpush
  | pop seg m =>
    cases seg with
    | constant => cases h
    | stack => exact List.mem_append_right _ hpush
    | temp | static =>
      refine List.mem_append_right _ (exists_line_withAddress h fun steps => List.mem_append_right _ unstaged)
    | _ => exact exists_line_withAddress h fun steps => List.mem_append_right _ staged

/-- A command that compiles adds to the output. -/
theorem Context.size_lt_compile {c : Context} {cmd : Command} (h : (c.compile cmd).2 = none) :
    c.size < (c.compile cmd).1.size := by
  have hout := (c.emitter.emitAll_eq (lower c.unit c.comparisons cmd).steps).1
  have hlen := congrArg List.length hout
  rw [List.length_append, Array.length_toList, Array.length_toList] at hlen
  have hne : linesFrom c.emitter.cursor (lower c.unit c.comparisons cmd).steps ≠ [] :=
    linesFrom_ne_nil (exists_line_lower h)
  have hpos := List.length_pos_iff.2 hne
  show c.emitter.output.size < (c.emitter.emitAll (lower c.unit c.comparisons cmd).steps).output.size
  omega

/-- Spans go on where the output has come to. -/
theorem compileFrom_spans {file : String} {c : Context} {spans : List Span} {lines : List SourceLine} {code : Code}
    (h : compileFrom file c spans lines = .ok code) :
    ∃ more, code.spans = spans.reverse ++ more ∧ more.map Span.line = lines ∧
      Tiles c.size more code.output.size := by
  induction lines generalizing c spans with
  | nil =>
    cases h
    exact ⟨[], (List.append_nil _).symm, rfl, .nil _⟩
  | cons line lines ih =>
    obtain ⟨cmd, -, he, h⟩ := compileFrom_cons_ok h
    obtain ⟨more, hspans, hlines, htiles⟩ := ih h
    refine ⟨⟨line, c.size, (c.compile cmd).1.size⟩ :: more, ?_, ?_, ?_⟩
    · rw [hspans, List.reverse_cons, List.append_assoc, List.singleton_append]
    · rw [List.map_cons, hlines]
    · exact @Tiles.cons ⟨line, c.size, (c.compile cmd).1.size⟩ more _ (Context.size_lt_compile he) htiles

theorem compile_spans {unit : Source} {code : Code} (h : compile unit = .ok code) :
    code.spans.map Span.line = unit.lines ∧ Tiles 0 code.spans code.output.size := by
  obtain ⟨more, hspans, hlines, htiles⟩ := compileFrom_spans h
  rw [List.reverse_nil, List.nil_append] at hspans
  rw [hspans]
  exact ⟨hlines, htiles⟩

/-! ## Source lines -/

theorem lines_ofFile (path name : String) (text : List Char) :
    (Source.ofFile path name text).lines = sourceLines 0 (Text.lines text) := rfl

theorem mem_sourceLines {raws : List (List Char)} {line : SourceLine} :
    line ∈ sourceLines 0 raws ↔ ∃ index raw, raws[index]? = some raw ∧ trim (beforeComment raw) ≠ [] ∧
      line = ⟨index, String.ofList raw, commandText raw⟩ := by
  rw [sourceLines, List.mem_filterMap]
  constructor
  · rintro ⟨⟨raw, index⟩, hmem, hline⟩
    dsimp only at hline
    by_cases hne : trim (beforeComment raw) = []
    · rw [normalize?_of_eq_nil hne] at hline
      cases hline
    · rw [normalize?_of_ne_nil hne] at hline
      cases hline
      exact ⟨index, raw, List.mem_zipIdx_iff_getElem?.1 hmem, hne, rfl⟩
  · rintro ⟨index, raw, hraw, hne, rfl⟩
    refine ⟨(raw, index), List.mem_zipIdx_iff_getElem?.2 hraw, ?_⟩
    dsimp only
    rw [normalize?_of_ne_nil hne]
    rfl

theorem le_of_mem_sourceLines {raws : List (List Char)} {k : Nat} {line : SourceLine}
    (h : line ∈ sourceLines k raws) : k ≤ line.index := by
  rw [sourceLines, List.mem_filterMap] at h
  obtain ⟨⟨raw, index⟩, hmem, hline⟩ := h
  obtain ⟨code, -, rfl⟩ := Option.map_eq_some_iff.1 hline
  exact List.le_snd_of_mem_zipIdx hmem

theorem ascending_sourceLines (k : Nat) (raws : List (List Char)) :
    (sourceLines k raws).Pairwise (·.index < ·.index) := by
  induction raws generalizing k with
  | nil => exact .nil
  | cons raw raws ih =>
    by_cases hne : trim (beforeComment raw) = []
    · rw [sourceLines_of_eq_nil hne]
      exact ih (k + 1)
    · rw [sourceLines_of_ne_nil hne]
      exact .cons (fun line hline => le_of_mem_sourceLines hline) (ih (k + 1))

/-- A source line is found by its place. -/
theorem find?_of_ascending {lines : List SourceLine} (h : lines.Pairwise (·.index < ·.index)) {line : SourceLine}
    (hl : line ∈ lines) : lines.find? (fun l => decide (l.index = line.index)) = some line := by
  obtain ⟨before, after, rfl⟩ := List.append_of_mem hl
  refine List.find?_eq_some_iff_append.2 ⟨decide_eq_true rfl, before, after, rfl, ?_⟩
  intro l hbefore
  have hlt := (List.pairwise_append.1 h).2.2 l hbefore line List.mem_cons_self
  rw [Bool.not_eq_true', decide_eq_false_iff_not]
  omega

/-! ## Listings -/

/-- The spans of a text's code are those of its lines with a command, in order. -/
structure Covers (text : List Char) (unit : Source) (code : Code) : Prop where
  lines : code.spans.map Span.line = unit.lines
  ascending : code.spans.Pairwise (·.line.index < ·.line.index)
  /-- They are the lines that hold more than blanks and comment. -/
  line : ∀ index raw, (∃ span ∈ code.spans, span.line.index = index ∧ span.line.raw = String.ofList raw) ↔
    (Text.lines text)[index]? = some raw ∧ trim (beforeComment raw) ≠ []
  find : ∀ span ∈ code.spans, unit.lines.find? (fun line => decide (line.index = span.line.index)) = some span.line
  tiles : Tiles 0 code.spans code.output.size

/-- Rows show where the instructions and labels of a program are. -/
structure Located (p : Program) (rows : List Row) : Prop where
  size : p.code.size = rows.countP Row.isCode
  code : ∀ before address i after, rows = before ++ .code address i :: after →
    hexValue (hex4 address).toList = before.countP Row.isCode ∧ p.code[before.countP Row.isCode]? = some i
  label : ∀ before name after, rows = before ++ .label name :: after →
    ∃ a, p.labels[name]? = some a ∧ a.toNat = before.countP Row.isCode

theorem covers_of_compile {path name : String} {text : List Char} {code : Code}
    (h : compile (Source.ofFile path name text) = .ok code) : Covers text (Source.ofFile path name text) code := by
  obtain ⟨hlines, htiles⟩ := compile_spans h
  have hasc := ascending_sourceLines 0 (Text.lines text)
  rw [← lines_ofFile path name, ← hlines] at hasc
  have hmem {line : SourceLine} :
      (∃ span ∈ code.spans, span.line = line) ↔ line ∈ sourceLines 0 (Text.lines text) := by
    rw [← lines_ofFile path name, ← hlines, List.mem_map]
  refine ⟨hlines, (List.pairwise_map (f := Span.line)).1 hasc, fun index raw => ?_, fun span hspan => ?_, htiles⟩
  · constructor
    · rintro ⟨span, hspan, hindex, hraw⟩
      obtain ⟨index', raw', hget, hne, hline⟩ := mem_sourceLines.1 (hmem.1 ⟨span, hspan, rfl⟩)
      rw [hline] at hindex hraw
      obtain rfl : index' = index := hindex
      obtain rfl : raw' = raw := String.ofList_injective hraw
      exact ⟨hget, hne⟩
    · rintro ⟨hget, hne⟩
      obtain ⟨span, hspan, hline⟩ := hmem.2 (mem_sourceLines.2 ⟨index, raw, hget, hne, rfl⟩)
      exact ⟨span, hspan, by rw [hline], by rw [hline]⟩
  · rw [← hlines]
    exact find?_of_ascending hasc (List.mem_map_of_mem hspan)

theorem located_of_assembled {unit : String} {p : Program} {output : List Line} {rows : List Row} {stop : Nat}
    (h : Assembled unit output p) (hlines : rows.filterMap Row.line? = output) (hcount : Counted 0 rows stop) :
    Located p rows := by
  refine ⟨?_, fun before address i after hrows => ?_, fun before name after hrows => ?_⟩
  · rw [← Array.length_toList, h.code, ← hlines, ← size_filterMap_line?]
    rfl
  · have hsplit : output = before.filterMap Row.line? ++ .instr i :: after.filterMap Row.line? := by
      rw [← hlines, hrows, List.filterMap_append]
      rfl
    have haddress := hcount.address hrows
    rw [Nat.zero_add] at haddress
    refine ⟨by rw [hexValue_hex4, haddress], ?_⟩
    rw [← Array.getElem?_toList, h.code, hsplit, Lines.code_append, Lines.code_instr, ← size_filterMap_line?,
      Lines.size, List.getElem?_append_right (Nat.le_refl _), Nat.sub_self, List.getElem?_cons_zero]
  · have hsplit : output = before.filterMap Row.line? ++ .label name :: after.filterMap Row.line? := by
      rw [← hlines, hrows, List.filterMap_append]
      rfl
    obtain ⟨a, ha, hsize⟩ := h.label _ _ _ hsplit
    exact ⟨a, ha, by rw [hsize, size_filterMap_line?]⟩

/-- The spans of a unit that compiles cover its output, and its listing shows every span and every output line
once, with addresses and labels as they are in the program once the text is loaded. -/
theorem listing_exact {path name : String} {text : List Char} (hu : Symbol.isSymbol name.toList = true)
    {code : Code} (hc : compile (Source.ofFile path name text) = .ok code) :
    Covers text (Source.ofFile path name text) code ∧
    (listing (Source.ofFile path name text) code).length = 2 + code.spans.length + code.output.size ∧
    ∃ blocks : List (List Row), List.Forall₂ (Shows code.output.toList) code.spans blocks ∧
      listing (Source.ofFile path name text) code = header path :: blocks.flatten.map Row.text ++ [footer] ∧
      ∀ p, Program.parse code.text = .ok p → Located p blocks.flatten := by
  have hcovers := covers_of_compile hc
  obtain ⟨cmds, -, -, hout⟩ := compile_ok hc
  change code.output.toList = linesFrom none (lowerAll name 0 cmds) at hout
  have htiles : Tiles 0 code.spans code.output.toList.length := by
    rw [Array.length_toList]
    exact hcovers.tiles
  have hlines := htiles.line?_rows
  have hlisting : listing (Source.ofFile path name text) code =
      header path :: (code.spans.flatMap (blockRows code.output.toList)).map Row.text ++ [footer] := by
    have hrows := htiles.spanRows_eq code.output #[header path]
    rw [listing, Array.toList_push]
    exact congrArg (· ++ [footer]) hrows
  refine ⟨hcovers, ?_, code.spans.map (blockRows code.output.toList), ?_, ?_, fun p hp => ?_⟩
  · rw [hlisting, List.length_append, List.length_cons, List.length_map, length_blockRows, hlines,
      List.length_singleton, Array.length_toList]
    omega
  · exact List.forall₂_map_right_iff.2 (List.forall₂_same.2 fun span _ => shows_blockRows _ span)
  · rw [← List.flatMap_def]
    exact hlisting
  · have hholds : p.Holds (linesFrom none (lowerAll name 0 cmds)) := by
      refine holds_of_parse_linesFrom hu ?_
      rw [← hout]
      exact hp
    have hcount := htiles.counted code.output.toList
    rw [List.take_zero] at hcount
    rw [← List.flatMap_def]
    exact located_of_assembled (hout ▸ assembled_of_holds hholds) hlines hcount

/-- A comment, an empty line and a comparison. -/
theorem listing_exact_comparison : ∃ code p,
    compile (.ofFile "Main.vm" "Main" "// less\n\nPush constant 1 // one\n  lt\n".toList) = .ok code ∧
    Program.parse code.text = .ok p ∧ code.spans.map (·.line.index) = [2, 3] ∧
    ∃ blocks : List (List Row), List.Forall₂ (Shows code.output.toList) code.spans blocks ∧
      Located p blocks.flatten := by
  have hu : Symbol.isSymbol "Main".toList = true := by decide
  obtain ⟨code, hc⟩ : ∃ code, compile (.ofFile "Main.vm" "Main"
    "// less\n\nPush constant 1 // one\n  lt\n".toList) = .ok code := ⟨_, rfl⟩
  have hcmds : commands (.ofFile "Main.vm" "Main" "// less\n\nPush constant 1 // one\n  lt\n".toList) =
    .ok [.push .constant 1, .arith .lt] := rfl
  obtain ⟨cmds, h, -, hout⟩ := compile_ok hc
  cases hcmds.symm.trans h
  obtain ⟨p, hp⟩ : ∃ p, Program.parse (Lines.text code.output.toList) = .ok p := by
    rw [hout]
    exact exists_parse_linesFrom hu (by decide)
  obtain ⟨hcovers, -, blocks, hblocks, -, hlocated⟩ := listing_exact hu hc
  refine ⟨code, p, hc, hp, ?_, blocks, hblocks, hlocated p hp⟩
  have hindex := congrArg (List.map SourceLine.index) hcovers.lines
  rw [List.map_map] at hindex
  exact hindex

/-! ## Diagnoses -/

/-- The rows of a diagnosis show the message, the place as path and number, and the line as it stands in the
file, with a bar above and below it. -/
theorem Diagnosis.styled_rows (d : Diagnosis) : List.Forall₂ Styled d.rows
    ["error: " ++ d.cause.message,
      "     --> " ++ d.file ++ ":" ++ toString (d.index + 1),
      "      |",
      " " ++ padLeft 4 (toString (d.index + 1)) ++ " | " ++ d.raw,
      "      |"] := by
  let number := toString (d.index + 1)
  have bar : Styled ("      " ++ Colour.blue.paint "|") "      |" :=
    (Styled.refl "      ").append ((Styled.refl "|").paint .blue)
  have message : Styled (errorTag ++ ": " ++ d.cause.message) ("error: " ++ d.cause.message) :=
    (Styled.errorTag.append (.refl ": ")).append (.refl d.cause.message)
  have place : Styled ("     " ++ Colour.blue.paint "-->" ++ " " ++ underlined (d.file ++ ":" ++ number))
      ("     --> " ++ d.file ++ ":" ++ number) := by
    have arrow := (Styled.refl "     ").append ((Styled.refl "-->").paint .blue)
    have path := (Styled.refl (d.file ++ ":" ++ number)).underlined
    simpa [String.append_assoc] using (arrow.append (.refl " ")).append path
  have source : Styled (" " ++ Colour.blue.paint (padLeft 4 number ++ " |") ++ " " ++ d.raw)
      (" " ++ padLeft 4 number ++ " | " ++ d.raw) := by
    have margin := (Styled.refl " ").append ((Styled.refl (padLeft 4 number ++ " |")).paint .blue)
    simpa [String.append_assoc] using (margin.append (.refl " ")).append (.refl d.raw)
  exact .cons message (.cons place (.cons bar (.cons source (.cons bar .nil))))

end Codegen

end Hack
