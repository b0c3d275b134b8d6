/-
What reading finds in a text. Lines without blanks and slashes are plain: trimming and cutting off a comment leave a
plain line as it is, and plain lines written with a line feed behind each read back as the same lines. Decimal digits
are plain and read back as the number they were written for. Between its separators a text has parts without them, at
least one, and the last part can be replaced by another text without separators while the parts before it stay.
-/
import Hack.Text.Read

namespace Hack.Text

/-! ## Plain characters -/

/-- Neither a blank nor the character that starts a comment. -/
def isPlain (c : Char) : Bool := !isBlank c && c != '/'

/-- The visible characters of ASCII but the slash are plain. -/
theorem isPlain_of_ascii {c : Char} (lo : 0x21 ≤ c.toNat) (hi : c.toNat ≤ 0x7E) (h : c ≠ '/') :
    isPlain c = true := by
  have hb : isBlank c = false := by
    simp only [isBlank, blankRanges, List.any_cons, List.any_nil, Bool.or_false, Bool.or_eq_false_iff,
      Bool.and_eq_false_iff, decide_eq_false_iff_not]
    omega
  simp [isPlain, hb, h]

theorem not_isBlank_of_isPlain {c : Char} (h : isPlain c = true) : isBlank c = false := by
  simp only [isPlain, Bool.and_eq_true, Bool.not_eq_true'] at h
  exact h.1

theorem isPlain_of_isDigit {c : Char} (h : c.isDigit = true) : isPlain c = true := by
  simp only [Char.isDigit, Bool.and_eq_true, decide_eq_true_eq, UInt32.le_iff_toNat_le] at h
  have lo : 48 ≤ c.toNat := h.1
  have hi : c.toNat ≤ 57 := h.2
  exact isPlain_of_ascii (by omega) (by omega) (by rintro rfl; simp at lo)

/-! ## Plain lines -/

theorem dropWhile_isBlank {s : List Char} (h : ∀ c ∈ s, isPlain c = true) :
    s.dropWhile isBlank = s := by
  cases s with
  | nil => rfl
  | cons c s => rw [List.dropWhile_cons, not_isBlank_of_isPlain (h c (by simp))]; rfl

theorem trim_of_plain {s : List Char} (h : ∀ c ∈ s, isPlain c = true) : trim s = s := by
  unfold trim trimEnd
  rw [dropWhile_isBlank h, dropWhile_isBlank (by simpa using h), List.reverse_reverse]

theorem beforeComment_of_plain {s : List Char} (h : ∀ c ∈ s, isPlain c = true) :
    beforeComment s = s := by
  have hno : ¬ ['/', '/'] <:+: s := fun hin => absurd (h '/' (hin.subset (by simp))) (by decide)
  exact beforeComment_eq_iff.2 (.inl ⟨rfl, hno⟩)

theorem newline_notMem_of_plain {s : List Char} (h : ∀ c ∈ s, isPlain c = true) : '\n' ∉ s :=
  fun hm => absurd (h _ hm) (by decide)

theorem dropReturn_of_plain {s : List Char} (h : ∀ c ∈ s, isPlain c = true) : dropReturn s = s := by
  unfold dropReturn
  split
  · rename_i hr
    exact absurd (h _ (List.mem_of_getLast? hr)) (by decide)
  · rfl

/-- Plain lines with a line feed behind each are read back line by line. -/
theorem lines_flatMap_newline {ls : List (List Char)} (h : ∀ l ∈ ls, ∀ c ∈ l, isPlain c = true) :
    lines (ls.flatMap fun l => l ++ ['\n']) = ls := by
  unfold lines
  induction ls with
  | nil => rfl
  | cons l ls ih =>
    have hl := h l (by simp)
    rw [List.flatMap_cons, List.append_assoc, List.singleton_append,
      linesFrom_append_newline (newline_notMem_of_plain hl), ih fun l' hl' => h l' (by simp [hl'])]
    rw [List.reverse_nil, List.nil_append, dropReturn_of_plain hl]

/-! ## Decimal digits -/

theorem isDigit_of_mem_repr {n : Nat} {c : Char} (h : c ∈ n.repr.toList) : c.isDigit = true := by
  rw [Nat.toList_repr] at h
  exact Nat.isDigit_of_mem_toDigits (by decide) (by decide) h

theorem repr_toList_ne_nil (n : Nat) : n.repr.toList ≠ [] := by
  rw [Nat.toList_repr]; exact Nat.toDigits_ne_nil

/-- What is read as a number is one digit or more. -/
theorem decimal?_iff {s : List Char} {n : Nat} : decimal? s = some n ↔
    s ≠ [] ∧ (∀ c ∈ s, c.isDigit = true) ∧ Nat.ofDigitChars 10 s 0 = n := by
  unfold decimal?
  rw [Nat.ofDigitChars_eq_foldl, ← List.all_eq_true, ← and_assoc]
  split
  · rename_i h
    rw [Option.some_inj]
    exact (and_iff_right h).symm
  · rename_i h
    exact iff_of_false nofun fun hs => h hs.1

/-- A number reads back from its digits. -/
theorem decimal?_repr (n : Nat) : decimal? n.repr.toList = some n := by
  refine decimal?_iff.2 ⟨repr_toList_ne_nil n, fun c => isDigit_of_mem_repr, ?_⟩
  rw [Nat.toList_repr, Nat.ofDigitChars_ten_toDigits]

theorem repr_inj {m n : Nat} (h : m.repr = n.repr) : m = n := by
  have := decimal?_repr m
  rw [h, decimal?_repr] at this
  exact (Option.some.inj this).symm

/-! ## Parts -/

variable {c : Char}

theorem splitAt_eq_splitOn (s : List Char) : splitAt c s = s.splitOn c := by
  induction s with
  | nil => rfl
  | cons d s ih =>
    have hne : s.splitOn c ≠ [] := List.splitOn_ne_nil c s
    obtain ⟨part, parts, hs⟩ := List.exists_cons_of_ne_nil hne
    rw [List.splitOn_cons_eq_if_modifyHead, hs, List.modifyHead_cons]
    rw [hs] at ih
    unfold splitAt at ih ⊢
    rw [List.foldr_cons, ih]
    simp only [beq_iff_eq]

theorem not_mem_of_mem_splitAt {s part : List Char} (h : part ∈ splitAt c s) : c ∉ part := by
  rw [splitAt_eq_splitOn] at h
  induction s generalizing part with
  | nil =>
    rw [List.mem_singleton.1 h]
    exact List.not_mem_nil
  | cons d s ih =>
    obtain ⟨first, rest, hs⟩ := List.exists_cons_of_ne_nil (List.splitOn_ne_nil c s)
    rw [List.splitOn_cons_eq_if_modifyHead, hs] at h
    rw [hs] at ih
    by_cases hd : d = c
    · rw [if_pos (beq_iff_eq.2 hd)] at h
      rcases List.mem_cons.1 h with rfl | h
      · exact List.not_mem_nil
      · exact ih h
    · rw [if_neg (fun he => hd (beq_iff_eq.1 he)), List.modifyHead_cons] at h
      rcases List.mem_cons.1 h with rfl | h
      · rw [List.mem_cons, not_or]
        exact ⟨Ne.symm hd, ih List.mem_cons_self⟩
      · exact ih (List.mem_cons_of_mem _ h)

/-- There is a last part. -/
theorem exists_splitAt (c : Char) (s : List Char) : ∃ init last, splitAt c s = init ++ [last] := by
  have hne : splitAt c s ≠ [] := by
    rw [splitAt_eq_splitOn]
    exact List.splitOn_ne_nil c s
  exact ⟨_, _, (List.dropLast_concat_getLast hne).symm⟩

/-- Parts joined: each but the last has `c` behind it. -/
theorem intercalate_concat (init : List (List Char)) (last : List Char) :
    List.intercalate [c] (init ++ [last]) = init.flatMap (· ++ [c]) ++ last := by
  induction init with
  | nil => exact List.intercalate_singleton
  | cons part init ih =>
    have hne : init ++ [last] ≠ [] := List.append_ne_nil_of_right_ne_nil _ (List.cons_ne_nil _ _)
    rw [List.cons_append, List.intercalate_cons_of_ne_nil hne, ih, List.flatMap_cons]
    simp only [List.append_assoc]

section

variable {s last : List Char} {init : List (List Char)}

theorem eq_of_splitAt (h : splitAt c s = init ++ [last]) : s = init.flatMap (· ++ [c]) ++ last := by
  rw [← intercalate_concat, ← h, splitAt_eq_splitOn, List.intercalate_splitOn]

/-- With another last part that has no `c`, the parts before it are the same. -/
theorem splitAt_replace (h : splitAt c s = init ++ [last]) {new : List Char} (hn : c ∉ new) :
    splitAt c (init.flatMap (· ++ [c]) ++ new) = init ++ [new] := by
  rw [← intercalate_concat, splitAt_eq_splitOn]
  refine List.splitOn_intercalate c ?_ (List.append_ne_nil_of_right_ne_nil _ (List.cons_ne_nil _ _))
  intro part hpart
  rcases List.mem_append.1 hpart with hinit | hlast
  · exact not_mem_of_mem_splitAt (h ▸ List.mem_append_left _ hinit)
  · rw [List.mem_singleton.1 hlast]
    exact hn

end

theorem cutLast_append {stem after : List Char} (h : c ∉ after) : cutLast c (stem ++ c :: after) = some (stem, after) := by
  have hrev : (stem ++ c :: after).reverse = after.reverse ++ c :: stem.reverse := by
    rw [List.reverse_append, List.reverse_cons, List.append_assoc]
    rfl
  rw [cutLast, hrev, cutFirst_append _ (fun hm => h (List.mem_reverse.1 hm)), Option.map_some, List.reverse_reverse,
    List.reverse_reverse]

theorem eq_of_cutLast {s stem after : List Char} (h : cutLast c s = some (stem, after)) :
    s = stem ++ c :: after ∧ c ∉ after := by
  obtain ⟨⟨a, b⟩, hcut, he⟩ := Option.map_eq_some_iff.1 h
  cases he
  obtain ⟨hs, hmem⟩ := eq_of_cutFirst hcut
  refine ⟨?_, fun hm => hmem (List.mem_reverse.1 hm)⟩
  rw [← List.reverse_reverse s, hs, List.reverse_append, List.reverse_cons, List.append_assoc]
  rfl

end Hack.Text
