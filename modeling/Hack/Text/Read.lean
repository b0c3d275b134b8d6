/-
Reading text. Blanks are characters with the Unicode property White_Space: trimming removes them at both ends and
nothing else, and between them stand words. A line feed ends a line, and one carriage return before it belongs to
the end; text after the last line feed is a line of its own unless it is empty, and keeps a final carriage return.
A comment runs from the first `//` to the end of its line. A cut is at the first or at the last occurrence of a
character, and the two parts with the character between them are the text again. A decimal number is read whatever
its leading zeros.
-/
namespace Hack.Text

/-! ## Blanks -/

/-- White_Space, as closed ranges of code points in ascending order. -/
def blankRanges : List (Nat × Nat) :=
  [(0x9, 0xD), (0x20, 0x20), (0x85, 0x85), (0xA0, 0xA0), (0x1680, 0x1680), (0x2000, 0x200A),
    (0x2028, 0x2029), (0x202F, 0x202F), (0x205F, 0x205F), (0x3000, 0x3000)]

def isBlank (c : Char) : Bool :=
  blankRanges.any fun r => r.1 ≤ c.toNat && c.toNat ≤ r.2

/-! ## Trimming -/

def trimEnd (s : List Char) : List Char :=
  (s.reverse.dropWhile isBlank).reverse

def trim (s : List Char) : List Char :=
  trimEnd (s.dropWhile isBlank)

/-! ## Words -/

/-- Collects words, `word` being the one under way with its last character first. -/
def wordsFrom (word : List Char) : List Char → List (List Char)
  | [] => if word.isEmpty then [] else [word.reverse]
  | c :: rest =>
    if isBlank c then
      if word.isEmpty then wordsFrom [] rest else word.reverse :: wordsFrom [] rest
    else wordsFrom (c :: word) rest

/-- The longest runs of non-blank characters, from left to right. -/
def words (s : List Char) : List (List Char) :=
  wordsFrom [] s

/-! ## Lines -/

/-- Drops one carriage return at the end. -/
def dropReturn (line : List Char) : List Char :=
  if line.getLast? = some '\r' then line.dropLast else line

/-- Collects lines, `line` being the one under way with its last character first. -/
def linesFrom (line : List Char) : List Char → List (List Char)
  | [] => if line.isEmpty then [] else [line.reverse]
  | c :: rest =>
    if c = '\n' then dropReturn line.reverse :: linesFrom [] rest else linesFrom (c :: line) rest

def lines (s : List Char) : List (List Char) :=
  linesFrom [] s

/-- Every line written with a line feed behind it reads back, provided it holds none itself and
does not end in a carriage return. -/
theorem linesFrom_append_newline {line s rest : List Char} (h : '\n' ∉ s) :
    linesFrom line (s ++ '\n' :: rest) = dropReturn (line.reverse ++ s) :: linesFrom [] rest := by
  induction s generalizing line with
  | nil => simp [linesFrom]
  | cons c s ih =>
    have hc : c ≠ '\n' := fun e => h (by simp [e])
    have hs : '\n' ∉ s := fun e => h (by simp [e])
    simp [linesFrom, hc, ih hs]

/-! ## Comments -/

/-- The part of a line before its first `//`. -/
def beforeComment : List Char → List Char
  | '/' :: '/' :: _ => []
  | c :: rest => c :: beforeComment rest
  | [] => []

theorem slashes_infix_cons {c : Char} {s : List Char} :
    ['/', '/'] <:+: c :: s ↔ (c = '/' ∧ s.head? = some '/') ∨ ['/', '/'] <:+: s := by
  rw [List.infix_cons_iff, List.cons_prefix_cons, eq_comm]
  cases s with
  | nil => simp
  | cons d s => simp [List.cons_prefix_cons, eq_comm]

theorem beforeComment_cons {c : Char} {s : List Char} (h : ¬ (c = '/' ∧ s.head? = some '/')) :
    beforeComment (c :: s) = c :: beforeComment s := by
  rw [beforeComment]
  rintro rest rfl rfl
  exact h ⟨rfl, rfl⟩

theorem beforeComment_eq_self {s : List Char} (h : ¬ ['/', '/'] <:+: s) :
    beforeComment s = s := by
  induction s with
  | nil => rfl
  | cons c s ih =>
    obtain ⟨hc, hs⟩ := not_or.1 fun hor => h (slashes_infix_cons.2 hor)
    rw [beforeComment_cons hc, ih hs]

theorem head?_append_slash (t rest : List Char) :
    (t ++ '/' :: rest).head? = (t ++ ['/']).head? := by
  cases t <;> rfl

theorem beforeComment_append {t : List Char} (rest : List Char) (h : ¬ ['/', '/'] <:+: t ++ ['/']) :
    beforeComment (t ++ '/' :: '/' :: rest) = t := by
  induction t with
  | nil => rfl
  | cons c t ih =>
    obtain ⟨hc, ht⟩ := not_or.1 fun hor => h (slashes_infix_cons.2 hor)
    rw [List.cons_append, beforeComment_cons (head?_append_slash t _ ▸ hc), ih ht]

/-- A text that holds `//` has a first one: no `//` begins before it. -/
theorem exists_first_slashes {s : List Char} (h : ['/', '/'] <:+: s) :
    ∃ t rest, s = t ++ '/' :: '/' :: rest ∧ ¬ ['/', '/'] <:+: t ++ ['/'] := by
  induction s with
  | nil => simp at h
  | cons c s ih =>
    by_cases hc : c = '/' ∧ s.head? = some '/'
    · obtain ⟨rest, hs⟩ := List.head?_eq_some_iff.1 hc.2
      exact ⟨[], rest, by rw [hc.1, hs]; rfl, by decide⟩
    · obtain ⟨t, rest, rfl, ht⟩ := ih ((slashes_infix_cons.1 h).resolve_left hc)
      rw [head?_append_slash] at hc
      exact ⟨c :: t, rest, rfl, fun hin => (slashes_infix_cons.1 hin).elim hc ht⟩

/-- What stays of a line: all of it if it holds no `//`, else the part before the first one, to
which the slash that follows adds no `//`. -/
theorem beforeComment_eq_iff {s t : List Char} :
    beforeComment s = t ↔ (s = t ∧ ¬ ['/', '/'] <:+: s) ∨
      ∃ rest, s = t ++ '/' :: '/' :: rest ∧ ¬ ['/', '/'] <:+: t ++ ['/'] := by
  constructor
  · rintro rfl
    by_cases h : ['/', '/'] <:+: s
    · obtain ⟨t, rest, rfl, ht⟩ := exists_first_slashes h
      rw [beforeComment_append rest ht]
      exact .inr ⟨rest, rfl, ht⟩
    · exact .inl ⟨(beforeComment_eq_self h).symm, h⟩
  · rintro (⟨rfl, h⟩ | ⟨rest, rfl, h⟩)
    · exact beforeComment_eq_self h
    · exact beforeComment_append rest h

/-! ## Cutting -/

/-- The parts before and after the first `c`. -/
def cutFirst (c : Char) : List Char → Option (List Char × List Char)
  | [] => none
  | d :: rest =>
    if d = c then some ([], rest) else (cutFirst c rest).map fun p => (d :: p.1, p.2)

/-- The parts before and after the last `c`. -/
def cutLast (c : Char) (s : List Char) : Option (List Char × List Char) :=
  (cutFirst c s.reverse).map fun p => (p.2.reverse, p.1.reverse)

theorem eq_of_cutFirst {c : Char} {s before after : List Char}
    (h : cutFirst c s = some (before, after)) : s = before ++ c :: after ∧ c ∉ before := by
  induction s generalizing before with
  | nil => simp [cutFirst] at h
  | cons d s ih =>
    simp only [cutFirst] at h
    split at h
    · simp_all
    · rename_i hd
      obtain ⟨⟨b, a⟩, hp, he⟩ := Option.map_eq_some_iff.1 h
      cases he
      obtain ⟨rfl, hb⟩ := ih hp
      exact ⟨by simp, by simp [hb, Ne.symm hd]⟩

theorem cutFirst_append {c : Char} {before : List Char} (after : List Char) (h : c ∉ before) :
    cutFirst c (before ++ c :: after) = some (before, after) := by
  induction before with
  | nil => simp [cutFirst]
  | cons d before ih =>
    have hd : d ≠ c := fun e => h (by simp [e])
    simp [cutFirst, hd, ih fun e => h (by simp [e])]

theorem cutFirst_eq_none_iff {c : Char} {s : List Char} : cutFirst c s = none ↔ c ∉ s := by
  induction s with
  | nil => simp [cutFirst]
  | cons d s ih =>
    by_cases hd : d = c
    · simp [cutFirst, hd]
    · simp [cutFirst, hd, ih, Ne.symm hd]

/-- The parts of a text between occurrences of `c`, never none. -/
def splitAt (c : Char) (s : List Char) : List (List Char) :=
  s.foldr
    (fun d parts =>
      if d = c then [] :: parts
      else match parts with
        | [] => [[d]]
        | part :: parts => (d :: part) :: parts)
    [[]]

/-! ## Numbers -/

/-- The value of a non-empty run of ASCII digits, leading zeros allowed. -/
def decimal? (s : List Char) : Option Nat :=
  if s ≠ [] ∧ s.all Char.isDigit then
    some (s.foldl (fun n c => 10 * n + (c.toNat - '0'.toNat)) 0)
  else none

/-- The value of a decimal number with an optional plus sign, if it is below `bound`. -/
def unsigned? (bound : Nat) (s : List Char) : Option Nat :=
  (decimal? (match s with | '+' :: digits => digits | _ => s)).filter (· < bound)

end Hack.Text
