/-
The first pass of loading. The text of legal lines reads back as these lines, so the pass over the
text is a pass over the lines; if no label comes twice, it succeeds, keeps the instructions in order
and gives every label the number of instructions before it. A label that comes again ends the pass.
-/
import Hack.Machine.Program
import Hack.Proofs.Asm.Print
import Mathlib.Data.List.Induction
import Mathlib.Data.List.Nodup

namespace Hack

open Text

/-! ## Lines -/

/-- The instruction of a line, if it is one. -/
def Line.instr? : Line → Option Instr
  | .instr i => some i
  | .label _ => none

/-- The name that a line defines, if it is a label. -/
def Line.label? : Line → Option String
  | .instr _ => none
  | .label name => some name

namespace Lines

/-- The instructions among lines. -/
def code (ls : List Line) : List Instr := ls.filterMap Line.instr?

/-- The labels among lines. -/
def labels (ls : List Line) : List String := ls.filterMap Line.label?

/-- How many words lines become. -/
def size (ls : List Line) : Nat := (code ls).length

/-- Lines with a line feed behind each. -/
def text (ls : List Line) : String := String.ofList (ls.flatMap fun l => l.text.toList ++ ['\n'])

@[simp] theorem code_nil : code [] = [] := rfl

@[simp] theorem code_instr (i : Instr) (ls : List Line) : code (.instr i :: ls) = i :: code ls := rfl

@[simp] theorem code_label (name : String) (ls : List Line) : code (.label name :: ls) = code ls := rfl

@[simp] theorem code_append (ls ms : List Line) : code (ls ++ ms) = code ls ++ code ms :=
  List.filterMap_append ..

@[simp] theorem labels_nil : labels [] = [] := rfl

@[simp] theorem labels_instr (i : Instr) (ls : List Line) : labels (.instr i :: ls) = labels ls := rfl

@[simp] theorem labels_label (name : String) (ls : List Line) :
    labels (.label name :: ls) = name :: labels ls := rfl

@[simp] theorem labels_append (ls ms : List Line) : labels (ls ++ ms) = labels ls ++ labels ms :=
  List.filterMap_append ..

@[simp] theorem size_nil : size [] = 0 := rfl

@[simp] theorem size_instr (i : Instr) (ls : List Line) : size (.instr i :: ls) = size ls + 1 := rfl

@[simp] theorem size_label (name : String) (ls : List Line) : size (.label name :: ls) = size ls := rfl

@[simp] theorem size_append (ls ms : List Line) : size (ls ++ ms) = size ls + size ms := by
  simp [size]

theorem mem_labels {ls : List Line} {name : String} : name ∈ labels ls ↔ .label name ∈ ls := by
  unfold labels
  rw [List.mem_filterMap]
  constructor
  · rintro ⟨l, hl, h⟩
    cases l with
    | instr i => cases h
    | label n => cases h; exact hl
  · exact fun h => ⟨_, h, rfl⟩

theorem mem_code {ls : List Line} {i : Instr} : i ∈ code ls ↔ .instr i ∈ ls := by
  unfold code
  rw [List.mem_filterMap]
  constructor
  · rintro ⟨l, hl, h⟩
    cases l with
    | instr j => cases h; exact hl
    | label n => cases h
  · exact fun h => ⟨_, h, rfl⟩

/-- A line among lines with one more behind them is that one, or it is among the others. -/
theorem snoc_eq_split {ls before after : List Line} {last l : Line}
    (h : ls ++ [last] = before ++ l :: after) :
    (last = l ∧ ls = before) ∨ ∃ after', ls = before ++ l :: after' := by
  rcases List.eq_nil_or_concat after with rfl | ⟨after, x, rfl⟩
  · have hl := List.append_inj_right' h rfl
    exact .inl ⟨(List.cons.inj hl).1, List.append_inj_left' h rfl⟩
  · rw [List.concat_eq_append, ← List.cons_append, ← List.append_assoc] at h
    exact .inr ⟨after, List.append_inj_left' h rfl⟩

end Lines

/-! ## Text -/

/-- A plain line that is not empty is its own code. -/
theorem codeOfLine_plain {s : List Char} (h : ∀ c ∈ s, isPlain c = true) (hne : s ≠ []) (number : Nat) :
    (if (trim (beforeComment s)).isEmpty then none else some (number, trim (beforeComment s))) =
      some (number, s) := by
  rw [beforeComment_of_plain h, trim_of_plain h, if_neg (by simpa using hne)]

/-- The pass over the text of legal lines is the pass over the lines. -/
theorem Layout.ofText_text {ls : List Line} (h : ∀ l ∈ ls, l.Legal) :
    Layout.ofText (Lines.text ls).toList = ls.foldlM Layout.add {} := by
  have hplain : ∀ s ∈ ls.map fun l => l.text.toList, ∀ c ∈ s, isPlain c = true := by
    simpa using fun l hl c hc => Line.plain_text (h l hl) c hc
  have hlines : lines (Lines.text ls).toList = ls.map fun l => l.text.toList := by
    rw [Lines.text, String.toList_ofList, ← lines_flatMap_newline hplain, List.flatMap_map]
  unfold Layout.ofText codeLines
  rw [hlines]
  -- by induction on the lines, under any layout so far and any line number
  generalize ({} : Layout) = start
  generalize 1 = number
  clear hlines hplain
  induction ls generalizing start number with
  | nil => rfl
  | cons l ls ih =>
    have hl := h l (by simp)
    simp only [List.map_cons, List.zipIdx_cons, List.filterMap_cons,
      codeOfLine_plain (Line.plain_text hl) (Line.spelled_text hl).ne_nil, List.foldlM_cons, Layout.addSource,
      String.ofList_toList, Line.parse_text hl]
    exact bind_congr fun start' => ih (fun l' hl' => h l' (by simp [hl'])) start' (number + 1)

/-! ## Labels and instructions -/

/-- What a layout has noted is what lines hold. -/
structure Layout.Holds (l : Layout) (ls : List Line) : Prop where
  code : l.code.toList = Lines.code ls
  label : ∀ name a, l.labels[name]? = some a ↔
    ∃ before after, ls = before ++ .label name :: after ∧ a = UInt16.ofNat (Lines.size before)

namespace Layout.Holds

theorem empty : Layout.Holds {} [] :=
  ⟨rfl, by simp⟩

variable {l : Layout} {ls : List Line}

theorem mem_labels (h : l.Holds ls) {name : String} : name ∈ l.labels ↔ name ∈ Lines.labels ls := by
  rw [Lines.mem_labels]
  constructor
  · intro hm
    obtain ⟨before, after, rfl, -⟩ := (h.label name _).1 (Std.HashMap.getElem?_eq_some_getElem hm)
    simp
  · intro hm
    obtain ⟨before, after, rfl⟩ := List.append_of_mem hm
    exact Std.HashMap.mem_iff_isSome_getElem?.2 (by rw [(h.label name _).2 ⟨before, after, rfl, rfl⟩]; rfl)

theorem size (h : l.Holds ls) : l.code.size = Lines.size ls := by
  rw [Lines.size, ← h.code, Array.length_toList]

theorem add_instr (h : l.Holds ls) (i : Instr) :
    ∃ l', l.add (.instr i) = .ok l' ∧ l'.Holds (ls ++ [.instr i]) := by
  refine ⟨_, rfl, by simp [h.code], fun name a => ?_⟩
  simp only [h.label]
  constructor
  · rintro ⟨before, after, rfl, rfl⟩
    exact ⟨before, after ++ [.instr i], by simp, rfl⟩
  · rintro ⟨before, after, hls, rfl⟩
    rcases Lines.snoc_eq_split hls with ⟨he, -⟩ | ⟨after', rfl⟩
    · cases he
    · exact ⟨before, after', rfl, rfl⟩

theorem add_label (h : l.Holds ls) {name : String} (hn : name ∉ Lines.labels ls) :
    ∃ l', l.add (.label name) = .ok l' ∧ l'.Holds (ls ++ [.label name]) := by
  refine ⟨_, by rw [Layout.add, if_neg (mt h.mem_labels.1 hn)], by simp [h.code], fun other a => ?_⟩
  rw [Std.HashMap.getElem?_insert]
  split
  · rename_i he
    obtain rfl : name = other := by simpa using he
    rw [h.size, Option.some_inj]
    constructor
    · rintro rfl
      exact ⟨ls, [], rfl, rfl⟩
    · rintro ⟨before, after, hls, rfl⟩
      rcases Lines.snoc_eq_split hls with ⟨-, rfl⟩ | ⟨after', rfl⟩
      · rfl
      · simp at hn
  · rename_i he
    rw [h.label]
    constructor
    · rintro ⟨before, after, rfl, rfl⟩
      exact ⟨before, after ++ [.label name], by simp, rfl⟩
    · rintro ⟨before, after, hls, rfl⟩
      rcases Lines.snoc_eq_split hls with ⟨hl, -⟩ | ⟨after', rfl⟩
      · cases hl; simp at he
      · exact ⟨before, after', rfl, rfl⟩

/-- A label that comes again ends the pass. -/
theorem add_label_again (h : l.Holds ls) {name : String} (hn : name ∈ Lines.labels ls) :
    l.add (.label name) = .error (.redefinedLabel name) := by
  rw [Layout.add, if_pos (h.mem_labels.2 hn)]

end Layout.Holds

/-- Lines without a repeated label are laid out. -/
theorem Layout.holds_of_nodup {ls : List Line} (hd : (Lines.labels ls).Nodup) :
    ∃ l, ls.foldlM Layout.add {} = .ok l ∧ l.Holds ls := by
  induction ls using List.reverseRecOn with
  | nil => exact ⟨{}, rfl, .empty⟩
  | append_singleton ls line ih =>
    rw [Lines.labels_append] at hd
    obtain ⟨l, hl, h⟩ := ih (List.nodup_append.1 hd).1
    rw [List.foldlM_append, hl]
    obtain ⟨l', hl', h'⟩ : ∃ l', l.add line = .ok l' ∧ l'.Holds (ls ++ [line]) := by
      cases line with
      | instr i => exact h.add_instr i
      | label name => exact h.add_label fun hm => (List.nodup_append.1 hd).2.2 name hm name (by simp) rfl
    refine ⟨l', ?_, h'⟩
    change List.foldlM Layout.add l [line] = _
    rw [List.foldlM_cons, hl']
    rfl

end Hack
