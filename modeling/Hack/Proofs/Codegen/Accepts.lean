/-
Which texts compile. Whether a line has code is decided by its words alone, whatever came before it, so a
text compiles exactly if each of its lines is empty or a command; otherwise the error is that of the first
line which is neither, and tells its place among all lines of the text.
-/
import Hack.Proofs.Codegen.Assembly
import Hack.Proofs.Vm.Grammar

namespace Hack.Codegen

open Text Vm

/-! ## Lowering -/

theorem literal_of_le {n : UInt16} (h : n.toNat ≤ 0x7FFF) : literal n = .ok (.point (.direct (.number n))) :=
  if_pos (UInt16.le_iff_toNat_le.2 h)

theorem literal_of_lt {n : UInt16} (h : 0x7FFF < n.toNat) : literal n = .error (.literalTooLarge n) := by
  refine if_neg fun hle => ?_
  have hmax : n.toNat ≤ 0x7FFF := UInt16.le_iff_toNat_le.1 hle
  omega

/-- An operand within the limit of its segment has an address. -/
theorem resolve_of_le (unit : String) {seg : Segment} {n : UInt16} (h : n.toNat ≤ seg.limit) :
    ∃ steps, resolve unit seg n = .ok steps := by
  cases seg with
  | constant | locals | argument | this | that =>
    simp only [resolve, Segment.policy, literal_of_le h]
    exact ⟨_, rfl⟩
  | temp =>
    have hlt : n < 8 := UInt16.lt_iff_toNat_lt.2 (Nat.lt_succ_of_le h)
    simp only [resolve, Segment.policy, if_pos hlt]
    exact ⟨_, rfl⟩
  | pointer =>
    have hsome : [Symbol.this, Symbol.that][n.toNat]? = some _ := List.getElem?_eq_getElem (Nat.lt_succ_of_le h)
    simp only [resolve, Segment.policy, hsome]
    exact ⟨_, rfl⟩
  | static | stack => exact ⟨_, rfl⟩

/-- An operand above the limit has none. -/
theorem resolve_of_lt (unit : String) {seg : Segment} {n : UInt16} (h : seg.limit < n.toNat) :
    resolve unit seg n = .error (seg.outOfRange n) := by
  cases seg with
  | constant | locals | argument | this | that =>
    simp only [resolve, Segment.policy, literal_of_lt h]
    rfl
  | temp =>
    have hge : ¬ n < 8 := fun hlt => Nat.not_le_of_lt (UInt16.lt_iff_toNat_lt.1 hlt) h
    simp only [resolve, Segment.policy, if_neg hge]
    rfl
  | pointer =>
    have hnone : [Symbol.this, Symbol.that][n.toNat]? = none := List.getElem?_eq_none h
    simp only [resolve, Segment.policy, hnone]
    rfl
  | static | stack =>
    have hlt := n.toNat_lt
    change 0xFFFF < n.toNat at h
    omega

/-- Looking for an address fails exactly if the operand is above the limit of its segment. -/
theorem error_withAddress (unit : String) (seg : Segment) (n : UInt16) (rest : List Emission → List Emission) :
    (withAddress (resolve unit seg n) rest).error = if n.toNat ≤ seg.limit then none else some (seg.outOfRange n) := by
  rcases Nat.lt_or_ge seg.limit n.toNat with h | h
  · rw [if_neg (Nat.not_le_of_lt h), resolve_of_lt unit h]
    rfl
  · obtain ⟨steps, hsteps⟩ := resolve_of_le unit h
    rw [if_pos h, hsteps]
    rfl

/-- Nothing else can make a push fail. -/
theorem error_lowerPush (unit : String) {seg : Segment} (hs : seg ≠ .stack) (n : UInt16) :
    (lowerPush unit seg n).error = if n.toNat ≤ seg.limit then none else some (seg.outOfRange n) := by
  cases seg with
  | stack => exact absurd rfl hs
  | _ => exact error_withAddress unit _ n _

theorem error_lowerPop (unit : String) {seg : Segment} (hs : seg ≠ .stack) (hc : seg ≠ .constant) (n : UInt16) :
    (lowerPop unit seg n).error = if n.toNat ≤ seg.limit then none else some (seg.outOfRange n) := by
  cases seg with
  | stack => exact absurd rfl hs
  | constant => exact absurd rfl hc
  | temp | static => exact error_withAddress unit _ n fun address => address ++ [assign .toM .d]
  | _ => exact error_withAddress unit _ n _

/-! ## Lines -/

/-- Why a line has no code in a unit, if it has none. -/
def lineError? (unit line : String) : Option CommandError :=
  match Command.parse line with
  | .ok cmd => (lower unit 0 cmd).error
  | .error e => some e

section

variable {line : String} (unit : String)

theorem lineError?_of_parse_ok {cmd : Command} (h : Command.parse line = .ok cmd) :
    lineError? unit line = (lower unit 0 cmd).error := by
  rw [lineError?, h]

theorem lineError?_of_parse_error {e : CommandError} (h : Command.parse line = .error e) :
    lineError? unit line = some e := by
  rw [lineError?, h]

/-- A transfer with a segment and an operand fails exactly if the operand is above the limit. -/
theorem lineError?_transfer {word operand : String} {seg : Segment} {n : Nat}
    (hw : lineWords line = [word, seg.text, operand]) (ht : IsTransfer word) (hs : seg ∈ Segment.named)
    (hc : word = "POP" → seg ≠ .constant) (hd : Numeral operand.toList n) (hn : n ≤ 0xFFFF) :
    lineError? unit line = if n ≤ seg.limit then none else some (seg.outOfRange (.ofNat n)) := by
  have hstack : seg ≠ .stack := Segment.ne_stack_of_parse? (Segment.parse?_text hs)
  have hofNat : (UInt16.ofNat n).toNat = n := UInt16.toNat_ofNat_of_lt' (Nat.lt_succ_of_le hn)
  rcases ht with rfl | rfl
  · have hp : Command.parse line = .ok (.push seg (.ofNat n)) :=
      (Command.parse_transfer rfl hw).trans (Command.parseTransfer_ok hs hd hn)
    have he := error_lowerPush unit hstack (.ofNat n)
    rw [hofNat] at he
    exact (lineError?_of_parse_ok unit hp).trans he
  · have hp : Command.parse line = .ok (.pop seg (.ofNat n)) :=
      (Command.parse_transfer rfl hw).trans (Command.parseTransfer_ok hs hd hn)
    have he := error_lowerPop unit hstack (hc rfl) (.ofNat n)
    rw [hofNat] at he
    exact (lineError?_of_parse_ok unit hp).trans he

/-- Every command has code. -/
theorem lineError?_of_isCommand (h : IsCommand (lineWords line)) : lineError? unit line = none := by
  generalize hw : lineWords line = ws at h
  cases h with
  | operation op => exact lineError?_of_parse_ok unit (Command.parse_operation hw)
  | @push seg _ n hs hd hn =>
    have hle : n ≤ 0xFFFF := Nat.le_trans hn seg.limit_le
    have hc : "PUSH" = "POP" → seg ≠ .constant := fun he => absurd he (by decide)
    rw [lineError?_transfer unit hw (.inl rfl) hs hc hd hle, if_pos hn]
  | @pop seg _ n hs hc hd hn =>
    have hle : n ≤ 0xFFFF := Nat.le_trans hn seg.limit_le
    rw [lineError?_transfer unit hw (.inr rfl) hs (fun _ => hc) hd hle, if_pos hn]

/-- No other line has, and the error is the fault of its words. -/
theorem lineError?_of_rejected {e : CommandError} (h : Rejected line (lineWords line) e) :
    lineError? unit line = some e := by
  generalize hw : lineWords line = ws at h
  cases h with
  | count hone hthree =>
    rw [← hw] at hone hthree
    exact lineError?_of_parse_error unit (Command.parse_other hone hthree)
  | bare ht => exact lineError?_of_parse_error unit (Command.parse_bare hw ht)
  | operands op second third => exact lineError?_of_parse_error unit (Command.parse_operands hw)
  | operation hlen ht ho => exact lineError?_of_parse_error unit (Command.parse_unknown hw hlen ht ho)
  | segment ht hs =>
    obtain ⟨make, hmake⟩ := Option.isSome_iff_exists.1 (lookup_of_isTransfer ht)
    have hp := (Command.parse_transfer hmake hw).trans (Command.parseTransfer_unknownSegment hs)
    exact lineError?_of_parse_error unit hp
  | operand ht hs hd =>
    obtain ⟨make, hmake⟩ := Option.isSome_iff_exists.1 (lookup_of_isTransfer ht)
    have hp := (Command.parse_transfer hmake hw).trans (Command.parseTransfer_invalidOperand hs hd)
    exact lineError?_of_parse_error unit hp
  | @notWritable _ n hd hn =>
    have hp : Command.parse line = .ok (.pop .constant (.ofNat n)) :=
      (Command.parse_transfer rfl hw).trans (Command.parseTransfer_ok (by decide) hd hn)
    exact lineError?_of_parse_ok unit hp
  | range ht hs hc hd hn hlim =>
    rw [lineError?_transfer unit hw ht hs hc hd hn, if_neg (Nat.not_le_of_lt hlim)]

theorem lineError?_eq_none_iff : lineError? unit line = none ↔ IsCommand (lineWords line) := by
  constructor
  · intro h
    rcases isCommand_or_rejected line (lineWords line) with hc | ⟨e, he⟩
    · exact hc
    · rw [lineError?_of_rejected unit he] at h
      cases h
  · exact lineError?_of_isCommand unit

end

/-! ## Texts -/

/-- A line without its comment and the blanks around it, in upper case. -/
def commandText (raw : List Char) : String :=
  String.ofList (upper (trim (beforeComment raw)))

/-- Whether a line of a text is empty or a command. -/
def IsLine (raw : List Char) : Prop :=
  trim (beforeComment raw) ≠ [] → IsCommand (lineWords (commandText raw))

/-- Why a line of a text is neither. -/
def LineFault (raw : List Char) (e : CommandError) : Prop :=
  trim (beforeComment raw) ≠ [] ∧ Rejected (commandText raw) (lineWords (commandText raw)) e

theorem normalize?_of_eq_nil {raw : List Char} (h : trim (beforeComment raw) = []) : normalize? raw = none := by
  unfold normalize?
  rw [h]
  rfl

theorem normalize?_of_ne_nil {raw : List Char} (h : trim (beforeComment raw) ≠ []) :
    normalize? raw = some (upper (trim (beforeComment raw))) := by
  unfold normalize?
  exact if_neg fun he => h (List.isEmpty_iff.1 he)

/-- A line is as it should be or it has a fault. -/
theorem isLine_or_fault (raw : List Char) : IsLine raw ∨ ∃ e, LineFault raw e := by
  by_cases hne : trim (beforeComment raw) = []
  · exact .inl fun h => absurd hne h
  · rcases isCommand_or_rejected (commandText raw) (lineWords (commandText raw)) with h | ⟨e, h⟩
    · exact .inl fun _ => h
    · exact .inr ⟨e, hne, h⟩

theorem LineFault.not_isLine {raw : List Char} {e : CommandError} (h : LineFault raw e) : ¬ IsLine raw := by
  intro hl
  have hnone := (lineError?_eq_none_iff "").2 (hl h.1)
  rw [lineError?_of_rejected "" h.2] at hnone
  cases hnone

/-- The first line of a text that has a fault, with its place and its fault. -/
inductive FirstFault : List (List Char) → Nat → List Char → CommandError → Prop
  | here {raw : List Char} {rest : List (List Char)} {e : CommandError} (h : LineFault raw e) :
      FirstFault (raw :: rest) 0 raw e
  | later {first raw : List Char} {rest : List (List Char)} {i : Nat} {e : CommandError} (hl : IsLine first)
      (h : FirstFault rest i raw e) : FirstFault (first :: rest) (i + 1) raw e

theorem firstFault_iff {raws : List (List Char)} {i : Nat} {raw : List Char} {e : CommandError} :
    FirstFault raws i raw e ↔
      raws[i]? = some raw ∧ (∀ j < i, ∀ r, raws[j]? = some r → IsLine r) ∧ LineFault raw e := by
  constructor
  · intro h
    induction h with
    | here h => exact ⟨rfl, fun j hj => absurd hj (Nat.not_lt_zero j), h⟩
    | later hl h ih =>
      obtain ⟨hi, hbefore, hf⟩ := ih
      refine ⟨hi, ?_, hf⟩
      intro j hj r hr
      cases j with
      | zero =>
        cases hr
        exact hl
      | succ j => exact hbefore j (Nat.lt_of_succ_lt_succ hj) r hr
  · rintro ⟨hi, hbefore, hf⟩
    induction raws generalizing i with
    | nil => cases hi
    | cons first rest ih =>
      cases i with
      | zero =>
        cases hi
        exact .here hf
      | succ i =>
        refine .later (hbefore 0 (Nat.succ_pos i) first rfl) (ih hi ?_)
        intro j hj r hr
        exact hbefore (j + 1) (Nat.succ_lt_succ hj) r hr

/-- The lines of a text that hold code, counted from `k`. -/
def sourceLines (k : Nat) (raws : List (List Char)) : List SourceLine :=
  (raws.zipIdx k).filterMap fun (raw, index) =>
    (normalize? raw).map fun code => ⟨index, String.ofList raw, String.ofList code⟩

theorem sourceLines_of_eq_nil {raw : List Char} (h : trim (beforeComment raw) = []) (k : Nat)
    (raws : List (List Char)) : sourceLines k (raw :: raws) = sourceLines (k + 1) raws := by
  refine List.filterMap_cons_none ?_
  show (normalize? raw).map _ = none
  rw [normalize?_of_eq_nil h, Option.map_none]

theorem sourceLines_of_ne_nil {raw : List Char} (h : trim (beforeComment raw) ≠ []) (k : Nat)
    (raws : List (List Char)) :
    sourceLines k (raw :: raws) = ⟨k, String.ofList raw, commandText raw⟩ :: sourceLines (k + 1) raws := by
  refine List.filterMap_cons_some ?_
  show (normalize? raw).map _ = some _
  rw [normalize?_of_ne_nil h, Option.map_some]
  rfl

theorem compileLine_eq (c : Context) (line : SourceLine) :
    ∃ c' : Context, c'.unit = c.unit ∧ c.compileLine line = (c', lineError? c.unit line.code) := by
  unfold Context.compileLine lineError?
  cases Command.parse line.code with
  | error e => exact ⟨c, rfl, rfl⟩
  | ok cmd =>
    refine ⟨(c.compile cmd).1, rfl, ?_⟩
    show ((c.compile cmd).1, (lower c.unit c.comparisons cmd).error) = _
    rw [error_lower c.unit c.comparisons 0]

/-- Compiling goes on behind a command. -/
theorem compileFrom_of_isCommand {c : Context} {line : SourceLine} (h : IsCommand (lineWords line.code))
    (file : String) (spans : List Span) (rest : List SourceLine) :
    ∃ (c' : Context) (spans' : List Span), c'.unit = c.unit ∧
      compileFrom file c spans (line :: rest) = compileFrom file c' spans' rest := by
  obtain ⟨c', hunit, hc⟩ := compileLine_eq c line
  rw [lineError?_of_isCommand c.unit h] at hc
  exact ⟨c', ⟨line, c.size, c'.size⟩ :: spans, hunit, by rw [compileFrom, hc]⟩

theorem compileFrom_of_rejected {c : Context} {line : SourceLine} {e : CommandError}
    (h : Rejected line.code (lineWords line.code) e) (file : String) (spans : List Span) (rest : List SourceLine) :
    compileFrom file c spans (line :: rest) = .error ⟨file, line.index, line.raw, e⟩ := by
  obtain ⟨c', hunit, hc⟩ := compileLine_eq c line
  rw [lineError?_of_rejected c.unit h] at hc
  rw [compileFrom, hc]

section

variable {file : String} {k : Nat} {c : Context} {spans : List Span} {raws : List (List Char)}

/-- Lines compile if none has a fault. -/
theorem compileFrom_of_forall (h : ∀ raw ∈ raws, IsLine raw) :
    ∃ code, compileFrom file c spans (sourceLines k raws) = .ok code := by
  induction raws generalizing k c spans with
  | nil => exact ⟨_, rfl⟩
  | cons raw raws ih =>
    rw [List.forall_mem_cons] at h
    by_cases hne : trim (beforeComment raw) = []
    · rw [sourceLines_of_eq_nil hne]
      exact ih h.2
    · rw [sourceLines_of_ne_nil hne]
      have hcode : IsCommand (lineWords (SourceLine.mk k (String.ofList raw) (commandText raw)).code) := h.1 hne
      obtain ⟨c', spans', -, heq⟩ := compileFrom_of_isCommand hcode file spans _
      rw [heq]
      exact ih h.2

/-- Compiling stops at the first line that has one. -/
theorem compileFrom_of_firstFault {i : Nat} {raw : List Char} {e : CommandError} (h : FirstFault raws i raw e) :
    compileFrom file c spans (sourceLines k raws) = .error ⟨file, k + i, String.ofList raw, e⟩ := by
  -- the lines before the fault change the context, which the error does not show
  induction h generalizing k c spans with
  | @here raw _ _ h =>
    rw [sourceLines_of_ne_nil h.1]
    have hcode : Rejected _ (lineWords (SourceLine.mk k (String.ofList raw) (commandText raw)).code) _ := h.2
    exact compileFrom_of_rejected hcode file spans _
  | @later first raw rest i e hl h ih =>
    have hindex : k + (i + 1) = k + 1 + i := by omega
    rw [hindex]
    by_cases hne : trim (beforeComment first) = []
    · rw [sourceLines_of_eq_nil hne]
      exact ih
    · rw [sourceLines_of_ne_nil hne]
      have hcode : IsCommand (lineWords (SourceLine.mk k (String.ofList first) (commandText first)).code) := hl hne
      obtain ⟨c', spans', -, heq⟩ := compileFrom_of_isCommand hcode file spans _
      rw [heq]
      exact ih

end

/-- Some line is the first that has a fault, unless none has. -/
theorem forall_or_firstFault (raws : List (List Char)) :
    (∀ raw ∈ raws, IsLine raw) ∨ ∃ i raw e, FirstFault raws i raw e := by
  induction raws with
  | nil => exact .inl (by simp)
  | cons raw raws ih =>
    rcases isLine_or_fault raw with hl | ⟨e, he⟩
    · rcases ih with hall | ⟨i, raw', e, h⟩
      · exact .inl (List.forall_mem_cons.2 ⟨hl, hall⟩)
      · exact .inr ⟨i + 1, raw', e, .later hl h⟩
    · exact .inr ⟨0, raw, e, .here he⟩

theorem compileText_of_forall (name : String) {text : String} (h : ∀ raw ∈ lines text.toList, IsLine raw) :
    ∃ code, compileText name text = .ok code :=
  compileFrom_of_forall h

theorem compileText_of_firstFault (name : String) {text : String} {i : Nat} {raw : List Char} {e : CommandError}
    (h : FirstFault (lines text.toList) i raw e) :
    compileText name text = .error ⟨name ++ ".vm", i, String.ofList raw, e⟩ := by
  have herror : compileText name text = .error ⟨name ++ ".vm", 0 + i, String.ofList raw, e⟩ :=
    compileFrom_of_firstFault h
  rw [Nat.zero_add] at herror
  exact herror

/-- A text compiles exactly if each of its lines is empty or a command, and otherwise it is the first other line
that is told with its place and its fault. -/
theorem compileText_exact (name text : String) :
    ((∃ code, compileText name text = .ok code) ↔ ∀ raw ∈ lines text.toList, IsLine raw) ∧
    ∀ d, compileText name text = .error d ↔
      ∃ raw, (lines text.toList)[d.index]? = some raw ∧ ¬ IsLine raw ∧
        (∀ i < d.index, ∀ r, (lines text.toList)[i]? = some r → IsLine r) ∧
        LineFault raw d.cause ∧ d.raw = String.ofList raw ∧ d.file = name ++ ".vm" := by
  refine ⟨⟨?_, compileText_of_forall name⟩, ?_⟩
  · rintro ⟨code, hcode⟩
    rcases forall_or_firstFault (lines text.toList) with hall | ⟨i, raw, e, h⟩
    · exact hall
    · rw [compileText_of_firstFault name h] at hcode
      cases hcode
  · intro d
    constructor
    · intro hd
      rcases forall_or_firstFault (lines text.toList) with hall | ⟨i, raw, e, h⟩
      · obtain ⟨code, hcode⟩ := compileText_of_forall name hall
        rw [hcode] at hd
        cases hd
      · rw [compileText_of_firstFault name h] at hd
        cases hd
        obtain ⟨hi, hbefore, hf⟩ := firstFault_iff.1 h
        exact ⟨raw, hi, hf.not_isLine, hbefore, hf, rfl, rfl⟩
    · rintro ⟨raw, hi, -, hbefore, hf, hraw, hfile⟩
      have h := compileText_of_firstFault name (firstFault_iff.2 ⟨hi, hbefore, hf⟩)
      rw [h, ← hraw, ← hfile]

/-- Of two faults the first counts, here the pop on line 4. -/
example : compileText "Main" "// one\n\nPush constant 1 // push\npop constant 0\nfoo\n" =
    .error ⟨"Main.vm", 3, "pop constant 0", .notWritable .constant⟩ := by
  have blank : IsLine "// one".toList ∧ IsLine [] := ⟨fun h => absurd rfl h, fun h => absurd rfl h⟩
  have push : IsLine "Push constant 1 // push".toList := fun _ =>
    @IsCommand.push .constant "1" 1 (by decide) (.digit rfl) (by decide)
  have pop : LineFault "pop constant 0".toList (.notWritable .constant) :=
    ⟨by decide, @Rejected.notWritable _ "0" 0 (.digit rfl) (by decide)⟩
  exact compileText_of_firstFault "Main" (.later blank.1 (.later blank.2 (.later push (.here pop))))

end Hack.Codegen
