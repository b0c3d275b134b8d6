/-
The language of stack commands as a grammar, and what is wrong with the lines that are not in it. The
words of a line are a command or they have a fault, and reading the line and lowering it finds that out:
the faults are given in the order in which they count, each one for the words that have none before it.
No command that is read has the segment of the cell on top of the stack, which source text cannot name.
-/
import Hack.Vm.Command
import Hack.Vm.Source
import Mathlib.Data.List.Induction

namespace Hack.Vm

open Text

/-! ## Segments -/

theorem mem_of_lookup {β : Type} {l : List (String × β)} {key : String} {b : β} (h : l.lookup key = some b) :
    (key, b) ∈ l := by
  obtain ⟨before, after, rfl, -⟩ := List.lookup_eq_some_iff.1 h
  exact List.mem_append_right _ List.mem_cons_self

/-- The segment that a command names. -/
def Command.segment? : Command → Option Segment
  | .push seg _ | .pop seg _ => some seg
  | .arith _ => none

theorem Segment.ne_stack_of_parse? {s : String} {seg : Segment} (h : Segment.parse? s = some seg) :
    seg ≠ .stack := by
  obtain ⟨seg', hnamed, he⟩ := List.mem_map.1 (mem_of_lookup h)
  cases he
  rintro rfl
  exact absurd hnamed (by decide)

theorem push_or_pop_of_lookup {word : String} {make : Segment → UInt16 → Command}
    (h : transfers.lookup word = some make) : make = .push ∨ make = .pop := by
  have hmem := mem_of_lookup h
  simp only [transfers, List.mem_cons, Prod.mk.injEq, List.not_mem_nil, or_false] at hmem
  exact hmem.imp And.right And.right

theorem Command.segment?_of_parseTransfer {line : String} {make : Segment → UInt16 → Command}
    {seg operand : List Char} {cmd : Command} (hm : make = .push ∨ make = .pop)
    (h : Command.parseTransfer line make seg operand = .ok cmd) : cmd.segment? ≠ some .stack := by
  unfold Command.parseTransfer at h
  split at h
  · cases h
  · rename_i seg hseg
    have hne : some seg ≠ some .stack := fun he => Segment.ne_stack_of_parse? hseg (Option.some.inj he)
    split at h
    · cases h
    · cases h
      rcases hm with rfl | rfl <;> exact hne

/-- Source text cannot name the cell on top of the stack. -/
theorem Command.segment?_of_parse {line : String} {cmd : Command} (h : Command.parse line = .ok cmd) :
    cmd.segment? ≠ some .stack := by
  unfold Command.parse at h
  split at h
  · dsimp only at h
    split at h
    · cases h
      exact nofun
    · split at h <;> cases h
  · dsimp only at h
    split at h
    · rename_i hmake
      exact Command.segment?_of_parseTransfer (push_or_pop_of_lookup hmake) h
    · split at h <;> cases h
  · cases h

theorem Command.segment?_of_mapM_parse {lines : List SourceLine} {cmds : List Command}
    (h : lines.mapM (fun line => Command.parse line.code) = .ok cmds) :
    ∀ cmd ∈ cmds, cmd.segment? ≠ some .stack := by
  induction lines generalizing cmds with
  | nil => cases h; simp
  | cons line lines ih =>
    rw [List.mapM_cons] at h
    cases hp : Command.parse line.code with
    | error e => rw [hp] at h; cases h
    | ok cmd =>
      cases hrest : lines.mapM (fun line => Command.parse line.code) with
      | error e => rw [hp, hrest] at h; cases h
      | ok rest =>
        rw [hp, hrest] at h
        cases h
        rw [List.forall_mem_cons]
        exact ⟨Command.segment?_of_parse hp, ih hrest⟩

/-! ## Numerals -/

def digitValue (c : Char) : Nat :=
  c.toNat - '0'.toNat

/-- Decimal notation: one digit or more, and the value. Leading zeros do not count. -/
inductive Numeral : List Char → Nat → Prop
  | digit {c : Char} (hc : c.isDigit = true) : Numeral [c] (digitValue c)
  | snoc {s : List Char} {n : Nat} {c : Char} (hs : Numeral s n) (hc : c.isDigit = true) :
      Numeral (s ++ [c]) (10 * n + digitValue c)

namespace Numeral

variable {s : List Char} {n : Nat}

theorem ne_nil (h : Numeral s n) : s ≠ [] := by
  cases h with
  | digit hc => exact List.cons_ne_nil _ _
  | snoc hs hc => exact List.append_ne_nil_of_right_ne_nil _ (List.cons_ne_nil _ _)

theorem all_isDigit (h : Numeral s n) : ∀ c ∈ s, c.isDigit = true := by
  induction h with
  | digit hc =>
    intro c h
    rw [List.mem_singleton.1 h]
    exact hc
  | snoc hs hc ih =>
    intro c h
    rcases List.mem_append.1 h with h | h
    · exact ih c h
    · rw [List.mem_singleton.1 h]
      exact hc

theorem foldl_eq (h : Numeral s n) : s.foldl (fun n c => 10 * n + digitValue c) 0 = n := by
  induction h with
  | digit hc => exact Nat.zero_add _
  | snoc hs hc ih => rw [List.foldl_append, ih, List.foldl_cons, List.foldl_nil]

/-- Every run of digits has a value. -/
theorem of_all_isDigit (hne : s ≠ []) (hd : ∀ c ∈ s, c.isDigit = true) :
    Numeral s (s.foldl (fun n c => 10 * n + digitValue c) 0) := by
  induction s using List.reverseRecOn with
  | nil => exact absurd rfl hne
  | append_singleton s c ih =>
    have hc : c.isDigit = true := hd c (List.mem_append_right _ (List.mem_singleton_self c))
    rw [List.foldl_append, List.foldl_cons, List.foldl_nil]
    rcases s with _ | ⟨d, s⟩
    · rw [List.foldl_nil, List.nil_append, Nat.mul_zero, Nat.zero_add]
      exact .digit hc
    · exact .snoc (ih (List.cons_ne_nil _ _) fun c h => hd c (List.mem_append_left _ h)) hc

end Numeral

theorem decimal?_eq_some_iff {s : List Char} {n : Nat} : decimal? s = some n ↔ Numeral s n := by
  unfold decimal?
  constructor
  · intro h
    split at h
    · rename_i hs
      cases h
      exact .of_all_isDigit hs.1 (List.all_eq_true.1 hs.2)
    · cases h
  · intro h
    rw [if_pos ⟨h.ne_nil, List.all_eq_true.2 h.all_isDigit⟩]
    exact congrArg some h.foldl_eq

theorem operand?_of_numeral {s : List Char} {n : Nat} (h : Numeral s n) (hn : n ≤ 0xFFFF) :
    operand? s = some (.ofNat n) := by
  have hlt : n < 0x10000 := Nat.lt_succ_of_le hn
  rw [operand?, decimal?_eq_some_iff.2 h, Option.filter_some, if_pos (decide_eq_true hlt), Option.map_some]

theorem operand?_eq_none {s : List Char} (h : ∀ n, Numeral s n → 0xFFFF < n) : operand? s = none := by
  unfold operand?
  cases hd : decimal? s with
  | none => rfl
  | some n =>
    have hlt := h n (decimal?_eq_some_iff.1 hd)
    have hge : ¬ n < 0x10000 := Nat.not_lt_of_le hlt
    rw [Option.filter_some, if_neg (by rw [decide_eq_true_eq]; exact hge), Option.map_none]

/-! ## Commands -/

/-- The greatest operand of a segment. -/
def Segment.limit : Segment → Nat
  | .constant | .locals | .argument | .this | .that => 0x7FFF
  | .temp => 7
  | .pointer => 1
  | .static | .stack => 0xFFFF

theorem Segment.limit_le (seg : Segment) : seg.limit ≤ 0xFFFF := by
  cases seg <;> decide

/-- Whether words are a command. -/
inductive IsCommand : List String → Prop
  | operation (op : Op) : IsCommand [op.text]
  | push {seg : Segment} {operand : String} {n : Nat} (hs : seg ∈ Segment.named)
      (hd : Numeral operand.toList n) (hn : n ≤ seg.limit) : IsCommand ["PUSH", seg.text, operand]
  | pop {seg : Segment} {operand : String} {n : Nat} (hs : seg ∈ Segment.named) (hc : seg ≠ .constant)
      (hd : Numeral operand.toList n) (hn : n ≤ seg.limit) : IsCommand ["POP", seg.text, operand]

/-- Whether a word takes a segment and an operand. -/
def IsTransfer (word : String) : Prop :=
  word = "PUSH" ∨ word = "POP"

instance (word : String) : Decidable (IsTransfer word) :=
  inferInstanceAs (Decidable (_ ∨ _))

/-- What is said of an operand above the limit of its segment. -/
def Segment.outOfRange (seg : Segment) (n : UInt16) : CommandError :=
  match seg with
  | .temp | .pointer => .operandOutOfRange seg n (.ofNat seg.limit)
  | _ => .literalTooLarge n

/-- Why the words of a line are no command. -/
inductive Rejected (line : String) : List String → CommandError → Prop
  | count {ws : List String} (hone : ws.length ≠ 1) (hthree : ws.length ≠ 3) : Rejected line ws (.malformed line)
  | bare {word : String} (ht : IsTransfer word) : Rejected line [word] (.malformed line)
  | operands (op : Op) (second third : String) : Rejected line [op.text, second, third] (.malformed line)
  | operation {word : String} {rest : List String} (hlen : rest.length = 0 ∨ rest.length = 2)
      (ht : ¬ IsTransfer word) (ho : ∀ op : Op, word ≠ op.text) : Rejected line (word :: rest) (.unknownOperation word)
  | segment {word seg operand : String} (ht : IsTransfer word) (hs : ∀ s ∈ Segment.named, seg ≠ s.text) :
      Rejected line [word, seg, operand] (.unknownSegment seg)
  /-- No digits, or a value that no word holds. -/
  | operand {word operand : String} {seg : Segment} (ht : IsTransfer word) (hs : seg ∈ Segment.named)
      (hd : ∀ n, Numeral operand.toList n → 0xFFFF < n) : Rejected line [word, seg.text, operand] (.invalidOperand line)
  /-- Whatever the operand, if it is one. -/
  | notWritable {operand : String} {n : Nat} (hd : Numeral operand.toList n) (hn : n ≤ 0xFFFF) :
      Rejected line ["POP", Segment.constant.text, operand] (.notWritable .constant)
  | range {word operand : String} {seg : Segment} {n : Nat} (ht : IsTransfer word) (hs : seg ∈ Segment.named)
      (hc : word = "POP" → seg ≠ .constant) (hd : Numeral operand.toList n) (hn : n ≤ 0xFFFF) (hlim : seg.limit < n) :
      Rejected line [word, seg.text, operand] (seg.outOfRange (.ofNat n))

theorem isCommand_of_isTransfer {word operand : String} {seg : Segment} {n : Nat} (ht : IsTransfer word)
    (hs : seg ∈ Segment.named) (hc : word = "POP" → seg ≠ .constant) (hd : Numeral operand.toList n)
    (hn : n ≤ seg.limit) : IsCommand [word, seg.text, operand] := by
  rcases ht with rfl | rfl
  · exact .push hs hd hn
  · exact .pop hs (hc rfl) hd hn

/-- A transfer with a segment and an operand. -/
theorem isCommand_or_rejected_transfer (line : String) {word : String} {seg : Segment} (operand : String)
    (ht : IsTransfer word) (hs : seg ∈ Segment.named) :
    IsCommand [word, seg.text, operand] ∨ ∃ e, Rejected line [word, seg.text, operand] e := by
  by_cases hd : ∃ n, Numeral operand.toList n ∧ n ≤ 0xFFFF
  · obtain ⟨n, hd, hn⟩ := hd
    by_cases hc : word = "POP" ∧ seg = .constant
    · obtain ⟨rfl, rfl⟩ := hc
      exact .inr ⟨_, .notWritable hd hn⟩
    · have hc' : word = "POP" → seg ≠ .constant := fun hw hs => hc ⟨hw, hs⟩
      rcases Nat.lt_or_ge seg.limit n with hlim | hlim
      · exact .inr ⟨_, .range ht hs hc' hd hn hlim⟩
      · exact .inl (isCommand_of_isTransfer ht hs hc' hd hlim)
  · refine .inr ⟨_, .operand ht hs ?_⟩
    intro n hn
    exact Nat.lt_of_not_le fun hle => hd ⟨n, hn, hle⟩

/-- Nothing is left undecided. -/
theorem isCommand_or_rejected (line : String) (ws : List String) : IsCommand ws ∨ ∃ e, Rejected line ws e := by
  match ws with
  | [] => exact .inr ⟨_, .count (by decide) (by decide)⟩
  | [word] =>
    by_cases ht : IsTransfer word
    · exact .inr ⟨_, .bare ht⟩
    by_cases ho : ∃ op : Op, word = op.text
    · obtain ⟨op, rfl⟩ := ho
      exact .inl (.operation op)
    · exact .inr ⟨_, .operation (.inl rfl) ht fun op he => ho ⟨op, he⟩⟩
  | [word, second] =>
    have hlen : [word, second].length = 2 := rfl
    exact .inr ⟨_, .count (by omega) (by omega)⟩
  | [word, seg, operand] =>
    by_cases ht : IsTransfer word
    · by_cases hs : ∃ s ∈ Segment.named, seg = s.text
      · obtain ⟨s, hs, rfl⟩ := hs
        exact isCommand_or_rejected_transfer line operand ht hs
      · exact .inr ⟨_, .segment ht fun s hmem he => hs ⟨s, hmem, he⟩⟩
    by_cases ho : ∃ op : Op, word = op.text
    · obtain ⟨op, rfl⟩ := ho
      exact .inr ⟨_, .operands op seg operand⟩
    · exact .inr ⟨_, .operation (.inr rfl) ht fun op he => ho ⟨op, he⟩⟩
  | first :: second :: third :: fourth :: rest =>
    have hlen : (first :: second :: third :: fourth :: rest).length = rest.length + 4 := rfl
    exact .inr ⟨_, .count (by omega) (by omega)⟩

/-! ## Reading -/

/-- The words of a line. -/
def lineWords (line : String) : List String :=
  (words line.toList).map String.ofList

section

variable {line word : String}

theorem Op.parse?_text (op : Op) : Op.parse? op.text = some op := by
  cases op <;> decide

theorem Op.parse?_eq_none (h : ∀ op : Op, word ≠ op.text) : Op.parse? word = none := by
  cases hp : Op.parse? word with
  | none => rfl
  | some op =>
    obtain ⟨op', -, he⟩ := List.mem_map.1 (mem_of_lookup hp)
    cases he
    exact absurd rfl (h op)

theorem Segment.parse?_text {seg : Segment} (h : seg ∈ Segment.named) : Segment.parse? seg.text = some seg := by
  have table : ∀ seg ∈ Segment.named, Segment.parse? seg.text = some seg := by decide
  exact table seg h

theorem Segment.parse?_eq_none {s : String} (h : ∀ seg ∈ Segment.named, s ≠ seg.text) : Segment.parse? s = none := by
  cases hp : Segment.parse? s with
  | none => rfl
  | some seg =>
    obtain ⟨seg', hs, he⟩ := List.mem_map.1 (mem_of_lookup hp)
    cases he
    exact absurd rfl (h seg hs)

theorem lookup_of_isTransfer (h : IsTransfer word) : (transfers.lookup word).isSome = true := by
  rcases h with rfl | rfl <;> rfl

theorem lookup_of_not_isTransfer (h : ¬ IsTransfer word) : transfers.lookup word = none := by
  cases hl : transfers.lookup word with
  | none => rfl
  | some make =>
    have hmem := mem_of_lookup hl
    simp only [transfers, List.mem_cons, Prod.mk.injEq, List.not_mem_nil, or_false] at hmem
    exact absurd (hmem.imp And.left And.left) h

/-- No operation takes a segment. -/
theorem Op.not_isTransfer_text (op : Op) : ¬ IsTransfer op.text := by
  cases op <;> decide

theorem words_of_lineWords_three {second third : String} (h : lineWords line = [word, second, third]) :
    words line.toList = [word.toList, second.toList, third.toList] := by
  obtain ⟨w, _, hw, rfl, htail⟩ := List.map_eq_cons_iff.1 h
  obtain ⟨v, _, rfl, rfl, hlast⟩ := List.map_eq_cons_iff.1 htail
  obtain ⟨u, rfl, rfl⟩ := List.map_eq_singleton_iff.1 hlast
  rw [hw, String.toList_ofList, String.toList_ofList, String.toList_ofList]

theorem words_of_lineWords_one (h : lineWords line = [word]) : words line.toList = [word.toList] := by
  obtain ⟨w, hw, rfl⟩ := List.map_eq_singleton_iff.1 h
  rw [hw, String.toList_ofList]

namespace Command

theorem parse_operation {op : Op} (h : lineWords line = [op.text]) : parse line = .ok (.arith op) := by
  simp only [parse, words_of_lineWords_one h, String.ofList_toList, Op.parse?_text]

theorem parse_bare (h : lineWords line = [word]) (ht : IsTransfer word) : parse line = .error (.malformed line) := by
  have hop : Op.parse? word = none := Op.parse?_eq_none fun op he => op.not_isTransfer_text (he ▸ ht)
  simp only [parse, words_of_lineWords_one h, String.ofList_toList, hop, lookup_of_isTransfer ht, if_true]

theorem parse_operands {op : Op} {second third : String} (h : lineWords line = [op.text, second, third]) :
    parse line = .error (.malformed line) := by
  simp only [parse, words_of_lineWords_three h, String.ofList_toList, lookup_of_not_isTransfer op.not_isTransfer_text,
    Op.parse?_text, Option.isSome_some, if_true]

theorem parse_unknown {rest : List String} (h : lineWords line = word :: rest) (hlen : rest.length = 0 ∨ rest.length = 2)
    (ht : ¬ IsTransfer word) (ho : ∀ op : Op, word ≠ op.text) : parse line = .error (.unknownOperation word) := by
  have hlookup := lookup_of_not_isTransfer ht
  have hop := Op.parse?_eq_none ho
  match rest, hlen, h with
  | [], _, h =>
    simp only [parse, words_of_lineWords_one h, String.ofList_toList, hop, hlookup, Option.isSome_none,
      Bool.false_eq_true, if_false]
  | [second, third], _, h =>
    simp only [parse, words_of_lineWords_three h, String.ofList_toList, hop, hlookup, Option.isSome_none,
      Bool.false_eq_true, if_false]

theorem parse_other (hone : (lineWords line).length ≠ 1) (hthree : (lineWords line).length ≠ 3) :
    parse line = .error (.malformed line) := by
  rw [lineWords, List.length_map] at hone hthree
  unfold parse
  split
  · rename_i hw
    rw [hw] at hone
    exact absurd rfl hone
  · rename_i hw
    rw [hw] at hthree
    exact absurd rfl hthree
  · rfl

/-- A transfer is read from its segment and its operand. -/
theorem parse_transfer {second third : String} {make : Segment → UInt16 → Command}
    (hm : transfers.lookup word = some make) (h : lineWords line = [word, second, third]) :
    parse line = parseTransfer line make second.toList third.toList := by
  simp only [parse, words_of_lineWords_three h, String.ofList_toList, hm]

section

variable {make : Segment → UInt16 → Command} {operand : String}

theorem parseTransfer_unknownSegment {seg : String} (hs : ∀ s ∈ Segment.named, seg ≠ s.text) :
    parseTransfer line make seg.toList operand.toList = .error (.unknownSegment seg) := by
  simp only [parseTransfer, String.ofList_toList, Segment.parse?_eq_none hs]

theorem parseTransfer_invalidOperand {seg : Segment} (hs : seg ∈ Segment.named)
    (hd : ∀ n, Numeral operand.toList n → 0xFFFF < n) :
    parseTransfer line make seg.text.toList operand.toList = .error (.invalidOperand line) := by
  simp only [parseTransfer, String.ofList_toList, Segment.parse?_text hs, operand?_eq_none hd]

theorem parseTransfer_ok {seg : Segment} {n : Nat} (hs : seg ∈ Segment.named) (hd : Numeral operand.toList n)
    (hn : n ≤ 0xFFFF) : parseTransfer line make seg.text.toList operand.toList = .ok (make seg (.ofNat n)) := by
  simp only [parseTransfer, String.ofList_toList, Segment.parse?_text hs, operand?_of_numeral hd hn]

end

end Command

end

end Hack.Vm
