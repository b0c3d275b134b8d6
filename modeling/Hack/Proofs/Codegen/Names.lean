/-
The names that generated code makes up: static cells and labels. All of them are symbols if the unit's
name is one. None is a fixed name, as no fixed name has a dot or a dollar sign in it. A static cell is
never a label, as the unit's name is followed by a dot in the one and by a dollar sign in the other;
and the name of a cell gives its number back, that of a label the comparison's number and the tag. So
the labels of comparisons in a row are all different.
-/
import Hack.Codegen.Lowering
import Hack.Proofs.Asm.Print
import Hack.Proofs.Vm.Grammar
import Mathlib.Data.List.Nodup

namespace Hack.Codegen

open Text

/-! ## Fixed names -/

/-- No fixed name has a dot or a dollar sign in it. -/
theorem predefined?_eq_none {name : String} (h : '.' ∈ name.toList ∨ '$' ∈ name.toList) :
    Symbol.predefined? name = none := by
  have table : ∀ entry ∈ Symbol.predefinedTable, '.' ∉ entry.1.toList ∧ '$' ∉ entry.1.toList := by decide
  cases hp : Symbol.predefined? name with
  | none => rfl
  | some a =>
    have := table (name, a) (Vm.mem_of_lookup hp)
    rcases h with h | h
    · exact absurd h this.1
    · exact absurd h this.2

theorem isSymbolChar_of_isDigit {c : Char} (h : c.isDigit = true) : Symbol.isSymbolChar c = true := by
  simp [Symbol.isSymbolChar, Char.isAlphanum, h]

/-! ## Static cells -/

theorem toList_staticName (unit : String) (n : UInt16) :
    (staticName unit n).toList = unit.toList ++ '.' :: n.toNat.repr.toList := by
  simp [staticName]

theorem isSymbol_staticName {unit : String} (h : Symbol.isSymbol unit.toList = true) (n : UInt16) :
    Symbol.isSymbol (staticName unit n).toList = true := by
  rw [toList_staticName]
  refine Symbol.isSymbol_append h fun c hc => ?_
  rcases List.mem_cons.1 hc with rfl | hc
  · decide
  · exact isSymbolChar_of_isDigit (isDigit_of_mem_repr hc)

theorem predefined?_staticName (unit : String) (n : UInt16) : Symbol.predefined? (staticName unit n) = none :=
  predefined?_eq_none (.inl (by simp [toList_staticName]))

/-- Whether a name is that of a static cell of a unit. -/
def IsStatic (unit name : String) : Prop := ∃ n : UInt16, name = staticName unit n

/-- The number that a name ends with behind the unit's name and a dot, or 0. -/
def staticNumber (unit name : String) : UInt16 :=
  UInt16.ofNat ((decimal? (name.toList.drop (unit.toList.length + 1))).getD 0)

theorem staticNumber_staticName (unit : String) (n : UInt16) : staticNumber unit (staticName unit n) = n := by
  rw [staticNumber, toList_staticName, List.drop_append, List.drop_of_length_le (by omega), List.nil_append,
    Nat.add_sub_cancel_left, List.drop_succ_cons, List.drop_zero, decimal?_repr, Option.getD_some,
    UInt16.ofNat_toNat]

instance (unit name : String) : Decidable (IsStatic unit name) :=
  decidable_of_iff (name = staticName unit (staticNumber unit name))
    ⟨fun h => ⟨_, h⟩, by rintro ⟨n, rfl⟩; rw [staticNumber_staticName]⟩

/-! ## Labels -/

namespace CompareLabels

/-- What the labels of a comparison end with. -/
def tags : List String := ["XNEG", "SAME", "READY", "TRUE", "END"]

theorem toList_make (unit : String) (n : Nat) : (make unit n).toList = tags.map (stem unit n ++ ·) := rfl

theorem toList_stem (unit : String) (n : Nat) :
    (stem unit n).toList = unit.toList ++ '$' :: "CMP_".toList ++ n.repr.toList ++ ['_'] := by
  simp [stem]

/-- Digits up to an underscore tell the number and what comes behind. -/
theorem repr_underscore_inj {m n : Nat} {s t : List Char}
    (h : m.repr.toList ++ '_' :: s = n.repr.toList ++ '_' :: t) : m = n ∧ s = t := by
  have digits (k : Nat) (u : List Char) : (k.repr.toList ++ '_' :: u).takeWhile Char.isDigit = k.repr.toList := by
    rw [List.takeWhile_append_of_pos fun c hc => isDigit_of_mem_repr hc,
      List.takeWhile_cons_of_neg (by decide), List.append_nil]
  have hmn : m.repr.toList = n.repr.toList := by rw [← digits m s, h, digits n t]
  -- with the digits gone, the rest is the same
  rw [hmn] at h
  exact ⟨repr_inj (String.toList_inj.1 hmn), (List.cons.inj (List.append_cancel_left h)).2⟩

/-- A label tells the number of its comparison and its tag. -/
theorem stem_append_inj {unit : String} {m n : Nat} {s t : String} (h : stem unit m ++ s = stem unit n ++ t) :
    m = n ∧ s = t := by
  have h := congrArg String.toList h
  simp only [String.toList_append, toList_stem, List.append_assoc, List.singleton_append] at h
  have h := List.append_cancel_left (List.cons.inj (List.append_cancel_left h)).2
  obtain ⟨hmn, hst⟩ := repr_underscore_inj h
  exact ⟨hmn, String.toList_inj.1 hst⟩

theorem mem_make {unit : String} {n : Nat} {name : String} (h : name ∈ (make unit n).toList) :
    ∃ tag ∈ tags, name = stem unit n ++ tag := by
  rw [toList_make] at h
  obtain ⟨tag, ht, rfl⟩ := List.mem_map.1 h
  exact ⟨tag, ht, rfl⟩

theorem nodup_make (unit : String) (n : Nat) : (make unit n).toList.Nodup := by
  rw [toList_make]
  exact List.Nodup.map (fun s t h => (stem_append_inj h).2) (by decide)

/-- Two comparisons have no label in common. -/
theorem make_disjoint {unit : String} {m n : Nat} {name : String} (hm : name ∈ (make unit m).toList)
    (hn : name ∈ (make unit n).toList) : m = n := by
  obtain ⟨s, -, rfl⟩ := mem_make hm
  obtain ⟨t, -, h⟩ := mem_make hn
  exact (stem_append_inj h).1

/-- Behind the unit's name a label goes on with a dollar sign and has only symbol characters. -/
theorem exists_tail {unit : String} {n : Nat} {name : String} (h : name ∈ (make unit n).toList) :
    ∃ t, name.toList = unit.toList ++ '$' :: t ∧ ∀ c ∈ '$' :: t, Symbol.isSymbolChar c = true := by
  obtain ⟨tag, ht, rfl⟩ := mem_make h
  have table : ∀ tag ∈ tags, tag.toList.all Symbol.isSymbolChar = true := by decide
  have cmp : "CMP_".toList.all Symbol.isSymbolChar = true := by decide
  refine ⟨"CMP_".toList ++ n.repr.toList ++ '_' :: tag.toList, by simp [toList_stem], fun c hc => ?_⟩
  simp only [List.mem_append, List.mem_cons] at hc
  rcases hc with rfl | (hc | hc) | rfl | hc
  · decide
  · exact List.all_eq_true.1 cmp c hc
  · exact isSymbolChar_of_isDigit (isDigit_of_mem_repr hc)
  · decide
  · exact List.all_eq_true.1 (table tag ht) c hc

/-- A label is a symbol exactly if the unit's name is one or is empty. -/
theorem isSymbol_iff_of_mem {unit : String} {n : Nat} {name : String} (h : name ∈ (make unit n).toList) :
    Symbol.isSymbol name.toList = true ↔ unit = "" ∨ Symbol.isSymbol unit.toList = true := by
  obtain ⟨t, hname, ht⟩ := exists_tail h
  rw [hname]
  constructor
  · intro hs
    cases hu : unit.toList with
    | nil => exact .inl (String.toList_eq_nil_iff.1 hu)
    | cons c s =>
      rw [hu] at hs
      simp only [List.cons_append, Symbol.isSymbol, Bool.and_eq_true, List.all_append] at hs ⊢
      exact .inr ⟨hs.1, hs.2.1⟩
  · rintro (rfl | hs)
    · have htail : ∀ c ∈ t, Symbol.isSymbolChar c = true := fun c hc => ht c (List.mem_cons_of_mem _ hc)
      simpa [Symbol.isSymbol] using ⟨by decide, htail⟩
    · exact Symbol.isSymbol_append hs ht

theorem isSymbol_of_mem {unit : String} (h : Symbol.isSymbol unit.toList = true) {n : Nat} {name : String}
    (hn : name ∈ (make unit n).toList) : Symbol.isSymbol name.toList = true :=
  (isSymbol_iff_of_mem hn).2 (.inr h)

theorem predefined?_of_mem {unit : String} {n : Nat} {name : String} (h : name ∈ (make unit n).toList) :
    Symbol.predefined? name = none := by
  obtain ⟨t, hname, -⟩ := exists_tail h
  exact predefined?_eq_none (.inr (by simp [hname]))

theorem scratch_notMem_make (unit : String) (n : Nat) : scratch ∉ (make unit n).toList := fun h => by
  have hnone := predefined?_of_mem h
  have hsome : Symbol.predefined? scratch = some 13 := rfl
  rw [hsome] at hnone
  cases hnone

/-- A label is no static cell. -/
theorem ne_staticName {unit : String} {n : Nat} {name : String} (h : name ∈ (make unit n).toList)
    (m : UInt16) : name ≠ staticName unit m := by
  obtain ⟨t, hname, -⟩ := exists_tail h
  rintro rfl
  rw [toList_staticName] at hname
  exact absurd (List.cons.inj (List.append_cancel_left hname)).1 (by decide)

/-! ## Labels of comparisons in a row -/

/-- The labels of comparisons in a row, `n` being the number of the first one. -/
def series (unit : String) (n count : Nat) : List String :=
  (List.range' n count).flatMap fun k => (make unit k).toList

theorem series_succ (unit : String) (n count : Nat) :
    series unit n (count + 1) = (make unit n).toList ++ series unit (n + 1) count := rfl

theorem length_series (unit : String) (n count : Nat) : (series unit n count).length = 5 * count := by
  induction count generalizing n with
  | zero => rfl
  | succ count ih =>
    have hfive : (make unit n).toList.length = 5 := rfl
    rw [series_succ, List.length_append, ih, hfive]
    omega

theorem mem_series {unit : String} {n count : Nat} {name : String} (h : name ∈ series unit n count) :
    ∃ k, n ≤ k ∧ name ∈ (make unit k).toList := by
  obtain ⟨k, hk, hname⟩ := List.mem_flatMap.1 h
  exact ⟨k, (List.mem_range'_1.1 hk).1, hname⟩

/-- No label comes twice. -/
theorem nodup_series (unit : String) (n count : Nat) : (series unit n count).Nodup := by
  induction count generalizing n with
  | zero => exact List.nodup_nil
  | succ count ih =>
    -- what comes later has greater numbers
    rw [series_succ]
    refine List.nodup_append.2 ⟨nodup_make unit n, ih (n + 1), ?_⟩
    rintro name h _ h' rfl
    obtain ⟨k, hk, h'⟩ := mem_series h'
    exact absurd (make_disjoint h h') (Nat.ne_of_lt hk)

end CompareLabels

end Hack.Codegen
