/-
Cells and their names. Fixed names and variables are kept in tables that are read both ways, in which a new pair
takes the place of those that share its name or its address; so the pointers take the place of the first five
registers, whose names are read by a rule of their own. Names and addresses undo each other in every program, but
that a cell with a pointer's name is never named after its register.
-/
import Mathlib.Data.List.Pairwise
import Hack.Proofs.Machine.Label

namespace Hack

open Text

/-! ## Tables that are read both ways -/

/-- Whether two pairs of a name and an address share neither. -/
def Apart (x y : String × UInt16) : Prop :=
  x.1 ≠ y.1 ∧ x.2 ≠ y.2

instance : Std.Symm Apart := ⟨fun _ _ h => ⟨h.1.symm, h.2.symm⟩⟩

instance (x y : String × UInt16) : Decidable (Apart x y) := inferInstanceAs (Decidable (_ ∧ _))

/-- Pairs in no order. -/
structure TwoWay where
  pairs : List (String × UInt16)
  apart : pairs.Pairwise Apart

namespace TwoWay

def empty : TwoWay := ⟨[], .nil⟩

/-- A new pair takes the place of those that share its name or its address. -/
def insert (t : TwoWay) (x : String × UInt16) : TwoWay where
  pairs := x :: t.pairs.filter (Apart x)
  apart := .cons (fun y hy => by simpa using (List.mem_filter.1 hy).2) (t.apart.filter _)

/-- The table of pairs that come one after the other. -/
def ofList (l : List (String × UInt16)) : TwoWay :=
  l.foldl insert empty

def address? (t : TwoWay) (name : String) : Option UInt16 :=
  (t.pairs.find? fun x => x.1 = name).map (·.2)

def name? (t : TwoWay) (addr : UInt16) : Option String :=
  (t.pairs.find? fun x => x.2 = addr).map (·.1)

variable {t : TwoWay} {name : String} {addr : UInt16}

theorem eq_of_shared {x y : String × UInt16} (hx : x ∈ t.pairs) (hy : y ∈ t.pairs) (h : x.1 = y.1 ∨ x.2 = y.2) :
    x = y := by
  by_contra hne
  have hapart := t.apart.forall hx hy hne
  exact h.elim hapart.1 hapart.2

/-- A pair is found by its name, and by its address, as no other pair has either. -/
theorem find?_iff {α : Type} [DecidableEq α] {f : String × UInt16 → α}
    (hf : ∀ {x y}, f x = f y → x.1 = y.1 ∨ x.2 = y.2) {key : α} {x : String × UInt16} :
    (t.pairs.find? fun y => f y = key) = some x ↔ x ∈ t.pairs ∧ f x = key := by
  constructor
  · intro h
    exact ⟨List.mem_of_find?_eq_some h, by simpa using List.find?_some h⟩
  · rintro ⟨hx, rfl⟩
    obtain ⟨y, hy⟩ : ∃ y, (t.pairs.find? fun y => f y = f x) = some y :=
      Option.isSome_iff_exists.1 (List.find?_isSome.2 ⟨x, hx, decide_eq_true rfl⟩)
    have hkey : f y = f x := by simpa using List.find?_some hy
    rw [hy, eq_of_shared (List.mem_of_find?_eq_some hy) hx (hf hkey)]

theorem address?_iff : t.address? name = some addr ↔ (name, addr) ∈ t.pairs := by
  simp [address?, find?_iff .inl]

theorem name?_iff : t.name? addr = some name ↔ (name, addr) ∈ t.pairs := by
  simp [name?, find?_iff .inr]

theorem mem_insert {x y : String × UInt16} :
    y ∈ (t.insert x).pairs ↔ y = x ∨ y ∈ t.pairs ∧ Apart x y := by
  simp [insert]

/-- Pairs that share nothing all stay. -/
theorem mem_ofList {l : List (String × UInt16)} (h : l.Pairwise Apart) {x : String × UInt16} :
    x ∈ (ofList l).pairs ↔ x ∈ l := by
  induction l using List.reverseRecOn generalizing x with
  | nil => simp [ofList, empty]
  | append_singleton l last ih =>
    obtain ⟨hl, -, hlast⟩ := List.pairwise_append.1 h
    rw [ofList, List.foldl_append]
    change x ∈ ((ofList l).insert last).pairs ↔ _
    rw [mem_insert, ih hl, List.mem_append, List.mem_singleton, or_comm]
    exact or_congr_left (and_iff_left_of_imp fun hx => Std.Symm.symm _ _ (hlast x hx last (by simp)))

end TwoWay

/-! ## Fixed names -/

namespace Symbol

def pointers : List (String × UInt16) :=
  [(sp, 0), (lcl, 1), (arg, 2), (this, 3), (that, 4)]

/-- The pointers come behind the registers and take the place of the first five. -/
def fixed : TwoWay :=
  .ofList (registers ++ pointers ++ [("SCREEN", screenBase), ("KBD", keyboard)])

/-- The address of a register, read off its name; the number has no sign and no needless zeros. -/
def register? (name : String) : Option UInt16 :=
  match name.toList with
  | 'R' :: digits =>
    match unsigned? 0x10000 digits with
    | some i => if i < 16 ∧ digits = i.repr.toList then some (UInt16.ofNat i) else none
    | none => none
  | _ => none

/-- The registers whose cells are named after pointers. -/
def aliases : List (String × String) :=
  [("R0", sp), ("R1", lcl), ("R2", arg), ("R3", this), ("R4", that)]

theorem mem_registers_iff {name : String} {addr : UInt16} :
    (name, addr) ∈ registers ↔ register? name = some addr := by
  constructor
  · have table : ∀ x ∈ registers, register? x.1 = some x.2 := by decide
    exact table (name, addr)
  · intro h
    have table : ∀ i < 16, (String.ofList ('R' :: i.repr.toList), UInt16.ofNat i) ∈ registers := by decide
    unfold register? at h
    split at h
    · rename_i digits hname
      split at h
      · rename_i i _
        split at h
        · rename_i hi
          cases h
          have := table i hi.1
          rwa [← hi.2, ← hname, String.ofList_toList] at this
        · cases h
      · cases h
    · cases h

theorem predefined?_iff {name : String} {addr : UInt16} :
    predefined? name = some addr ↔ (name, addr) ∈ predefinedTable :=
  lookup_eq_some_iff (by decide)

/-- A name with a fixed address is in the table or a register. -/
theorem predefined?_iff_fixed {name : String} {addr : UInt16} :
    predefined? name = some addr ↔ (name, addr) ∈ fixed.pairs ∨ (name, addr) ∈ registers := by
  rw [predefined?_iff]
  constructor
  · have table : ∀ x ∈ predefinedTable, x ∈ fixed.pairs ∨ x ∈ registers := by decide
    exact table (name, addr)
  · rintro (h | h)
    · have table : ∀ x ∈ fixed.pairs, x ∈ predefinedTable := by decide
      exact table _ h
    · have table : ∀ x ∈ registers, x ∈ predefinedTable := by decide
      exact table _ h

/-- A fixed address is looked up in the table, and read off the name of a register that is not there. -/
theorem predefined?_eq (name : String) : predefined? name = (fixed.address? name <|> register? name) := by
  cases hfixed : fixed.address? name with
  | some addr => exact predefined?_iff_fixed.2 (.inl (TwoWay.address?_iff.1 hfixed))
  | none =>
    have hnot (addr : UInt16) : (name, addr) ∉ fixed.pairs := fun h => by
      rw [TwoWay.address?_iff.2 h] at hfixed
      cases hfixed
    refine Option.ext fun addr => ?_
    rw [predefined?_iff_fixed, or_iff_right (hnot addr)]
    exact mem_registers_iff

/-- Registers have one spelling each. -/
example : fixed.address? "R3" = none ∧ register? "R3" = some 3 ∧ register? "R03" = none ∧ register? "R+3" = none := by
  decide

/-- The table has the names of the fixed addresses. -/
theorem predefinedName?_eq (addr : UInt16) : predefinedName? addr = fixed.name? addr := by
  refine Option.ext fun name => ?_
  rw [TwoWay.name?_iff]
  constructor
  · intro h
    have table : ∀ x ∈ predefinedTable, predefinedName? x.2 = some x.1 → x ∈ fixed.pairs := by decide
    exact table (name, addr) (predefined?_iff.1 (predefined?_of_predefinedName? h)) h
  · have table : ∀ x ∈ fixed.pairs, predefinedName? x.2 = some x.1 := by decide
    exact table (name, addr)

/-- The address of a name has that name, or it is a pointer's and the name its register's. -/
theorem predefinedName?_of_predefined? {name : String} {addr : UInt16} (h : predefined? name = some addr) :
    predefinedName? addr = some name ∨
      ∃ pointer, (name, pointer) ∈ aliases ∧ predefinedName? addr = some pointer := by
  have table : ∀ x ∈ predefinedTable, predefinedName? x.2 = some x.1 ∨
      ∃ y ∈ aliases, y.1 = x.1 ∧ predefinedName? x.2 = some y.2 := by decide
  refine (table (name, addr) (predefined?_iff.1 h)).imp_right ?_
  rintro ⟨⟨other, pointer⟩, hmem, rfl, hname⟩
  exact ⟨pointer, hmem, hname⟩

theorem predefined?_of_mem_aliases {name pointer : String} (h : (name, pointer) ∈ aliases) :
    predefined? pointer ≠ none := by
  have table : ∀ y ∈ aliases, predefined? y.2 ≠ none := by decide
  exact table (name, pointer) h

/-- No fixed name has an address at which variables are put. -/
theorem predefinedName?_variable {addr : UInt16} (hlo : variableBase ≤ addr.toNat) (hhi : addr.toNat < variableEnd) :
    predefinedName? addr = none := by
  have table : ∀ x ∈ predefinedTable, x.2.toNat < variableBase ∨ variableEnd ≤ x.2.toNat := by decide
  rw [Option.eq_none_iff_forall_ne_some]
  intro name h
  have : addr.toNat < variableBase ∨ variableEnd ≤ addr.toNat :=
    table (name, addr) (predefined?_iff.1 (predefined?_of_predefinedName? h))
  omega

end Symbol

/-! ## Variables -/

/-- The variables in the order of their cells, as a table. -/
def Variables.table (vars : Variables) : TwoWay :=
  .ofList <| (vars.names.toList.zipIdx variableBase).map fun (name, i) => (name, UInt16.ofNat i)

theorem apart_cells {names : List String} (hd : names.Nodup) (hroom : names.length ≤ variableRoom) :
    ((names.zipIdx variableBase).map fun (name, i) => (name, UInt16.ofNat i)).Pairwise Apart := by
  rw [List.pairwise_iff_getElem]
  intro i j hi hj hij
  simp only [List.length_map, List.length_zipIdx] at hi hj
  simp only [variableRoom, variableEnd, variableBase] at hroom
  simp only [List.getElem_map, List.getElem_zipIdx, variableBase]
  refine ⟨fun he => ?_, fun he => ?_⟩
  · exact Nat.ne_of_lt hij (hd.getElem_inj_iff.1 he)
  · rw [eq_ofNat_iff (by omega), UInt16.toNat_ofNat_of_lt' (by simp [UInt16.size]; omega)] at he
    omega

/-- The table has the variables with their addresses. -/
theorem Variables.Holds.mem_table {vars : Variables} {names : List String} (h : vars.Holds names) (hd : names.Nodup)
    (hroom : names.length ≤ variableRoom) {name : String} {addr : UInt16} :
    (name, addr) ∈ vars.table.pairs ↔ vars.addresses[name]? = some addr := by
  rw [Variables.table, h.order, TwoWay.mem_ofList (apart_cells hd hroom), h.address]
  simp only [List.mem_map, Prod.exists, Prod.mk.injEq, List.mk_mem_zipIdx_iff_le_and_getElem?_sub]
  constructor
  · rintro ⟨other, i, ⟨hle, hi⟩, rfl, rfl⟩
    exact ⟨_, hi, by rw [Nat.add_sub_cancel' hle]⟩
  · rintro ⟨i, hi, rfl⟩
    exact ⟨name, variableBase + i, ⟨by omega, by rwa [Nat.add_sub_cancel_left]⟩, rfl, rfl⟩

namespace Program.Holds

variable {p : Program} {ls : List Line} {name : String} {addr : UInt16}

/-- The cells of variables lie behind the registers and in front of the screen. -/
theorem cell_bounds (h : p.Holds ls) (ha : p.vars.addresses[name]? = some addr) :
    variableBase ≤ addr.toNat ∧ addr.toNat < variableEnd := by
  obtain ⟨i, hi, haddr⟩ := (h.cell_iff name addr).1 ha
  have hlt := (List.getElem?_eq_some_iff.1 hi).1
  have hroom := h.room
  simp only [variableRoom] at hroom
  omega

/-- The name at an address is that of the variable that has it. -/
theorem name?_iff (h : p.Holds ls) : p.vars.name? addr = some name ↔ p.vars.addresses[name]? = some addr := by
  rw [Variables.name?, ← Array.getElem?_toList, h.vars.order, h.cell_iff]
  constructor
  · intro hn
    split at hn
    · exact ⟨_, hn, by omega⟩
    · cases hn
  · rintro ⟨i, hi, haddr⟩
    rw [if_pos (by omega), show addr.toNat - variableBase = i by omega, hi]

theorem mem_table (h : p.Holds ls) :
    (name, addr) ∈ p.vars.table.pairs ↔ p.vars.addresses[name]? = some addr :=
  h.vars.mem_table (nodup_eraseDups _) h.room

/-- A variable is neither a fixed name nor a label. -/
theorem variable_free (h : p.Holds ls) (ha : p.vars.addresses[name]? = some addr) :
    Symbol.predefined? name = none ∧ name ∉ p.labels := by
  obtain ⟨i, hi, -⟩ := (h.cell_iff name addr).1 ha
  have hfree := (mem_freeSymbols.1 (List.mem_of_getElem? hi)).1
  rw [h.mem_labels]
  simpa [isFree] using hfree

/-- A program looks a name up in the table of fixed names, among the registers and in the table of variables. -/
theorem cell?_eq (h : p.Holds ls) (name : String) : p.cell? name =
    (Symbol.fixed.address? name <|> Symbol.register? name <|> p.vars.table.address? name) := by
  have hvars : p.vars.addresses[name]? = p.vars.table.address? name :=
    Option.ext fun addr => by rw [TwoWay.address?_iff, h.mem_table]
  rw [cell?, Symbol.predefined?_eq, hvars]
  cases Symbol.fixed.address? name <;> rfl

theorem cellName?_eq (h : p.Holds ls) (addr : UInt16) : p.cellName? addr =
    (Symbol.fixed.name? addr <|> p.vars.table.name? addr) := by
  have hvars : p.vars.name? addr = p.vars.table.name? addr :=
    Option.ext fun name => by rw [TwoWay.name?_iff, h.mem_table, h.name?_iff]
  rw [cellName?, Symbol.predefinedName?_eq, hvars]

/-- A variable's cell has its name, and no other name has that cell. -/
theorem cell_variable (h : p.Holds ls) (ha : p.vars.addresses[name]? = some addr) :
    p.cell? name = some addr ∧ p.cellName? addr = some name := by
  obtain ⟨hlo, hhi⟩ := h.cell_bounds ha
  rw [cell?, cellName?, (h.variable_free ha).1, Symbol.predefinedName?_variable hlo hhi]
  exact ⟨ha, h.name?_iff.2 ha⟩

theorem cell_of_cellName (h : p.Holds ls) (hn : p.cellName? addr = some name) : p.cell? name = some addr := by
  rw [cellName?] at hn
  cases hfixed : Symbol.predefinedName? addr with
  | some other =>
    rw [hfixed] at hn
    cases hn
    rw [cell?, Symbol.predefined?_of_predefinedName? hfixed]
    rfl
  | none =>
    rw [hfixed] at hn
    exact (h.cell_variable (h.name?_iff.1 hn)).1

theorem cellName_of_cell (h : p.Holds ls) (ha : p.cell? name = some addr) : p.cellName? addr = some name ∨
    ∃ pointer, (name, pointer) ∈ Symbol.aliases ∧ p.cellName? addr = some pointer := by
  rw [cell?] at ha
  cases hfixed : Symbol.predefined? name with
  | some a =>
    rw [hfixed] at ha
    cases ha
    have fixed {other : String} (ho : Symbol.predefinedName? addr = some other) : p.cellName? addr = some other := by
      rw [cellName?, ho]
      rfl
    exact (Symbol.predefinedName?_of_predefined? hfixed).imp fixed fun ⟨pointer, hmem, ho⟩ =>
      ⟨pointer, hmem, fixed ho⟩
  | none =>
    rw [hfixed] at ha
    exact .inl (h.cell_variable ha).2

end Program.Holds

/-! ## Cells -/

/-- Names and addresses undo each other. A program looks both up in the same tables, but for the names of registers.
An address with a name is the address of that name; a name with an address is its name, or one of the registers
whose cells are named after pointers. A variable is neither a fixed name nor a label, and no other name has its
cell. -/
theorem Program.cell_inverse {text : String} {p : Program} (hp : Program.parse text = .ok p) :
    (∀ name, p.cell? name =
      (Symbol.fixed.address? name <|> Symbol.register? name <|> p.vars.table.address? name)) ∧
    (∀ addr, p.cellName? addr = (Symbol.fixed.name? addr <|> p.vars.table.name? addr)) ∧
    (∀ addr name, p.cellName? addr = some name → p.cell? name = some addr) ∧
    (∀ name addr, p.cell? name = some addr → p.cellName? addr = some name ∨
      ∃ pointer, (name, pointer) ∈ Symbol.aliases ∧ p.cellName? addr = some pointer) ∧
    ∀ name addr, p.vars.addresses[name]? = some addr → Symbol.predefined? name = none ∧ name ∉ p.labels ∧
      ∀ other, p.cell? other = some addr → other = name := by
  obtain ⟨ls, hlegible, -⟩ := (Program.parse_exact text).2 p hp
  have h := hlegible.holds hp
  refine ⟨h.cell?_eq, h.cellName?_eq, fun _ _ => h.cell_of_cellName, fun _ _ => h.cellName_of_cell,
    fun name addr ha => ?_⟩
  obtain ⟨hfixed, hlabel⟩ := h.variable_free ha
  refine ⟨hfixed, hlabel, fun other ho => ?_⟩
  have hname := (h.cell_variable ha).2
  rcases h.cellName_of_cell ho with hother | ⟨pointer, hmem, hpointer⟩
  · rw [hname] at hother
    exact (Option.some.inj hother).symm
  · rw [hname] at hpointer
    cases hpointer
    exact absurd hfixed (Symbol.predefined?_of_mem_aliases hmem)

/-- A program with a variable, a label and a register that has a pointer's cell. -/
theorem cell_inverse_small : ∃ p, Program.parse "@i\n@R3\n(L)\n@L\n0;JMP\n" = .ok p ∧
    p.cell? "i" = some 16 ∧ p.cellName? 16 = some "i" ∧ p.cell? "R3" = some 3 ∧ p.cellName? 3 = some "THIS" ∧
    p.cell? "THIS" = some 3 := by
  have hlegible : Legible "@i\n@R3\n(L)\n@L\n0;JMP\n"
      [.load (.symbol "i"), .load (.symbol "R3"), .label "L", .load (.symbol "L"), .branch .zero .jmp] := by
    refine ⟨?_, by decide⟩
    exact .code (by decide) (by decide) (.code (by decide) (by decide) (.code (by decide) (by decide)
      (.code (by decide) (by decide) (.code (by decide) (by decide) .nil))))
  obtain ⟨p, hp, hh⟩ := hlegible.exists_parse (by decide)
  obtain ⟨-, -, hcell, hname, -⟩ := Program.cell_inverse hp
  have hi : p.cell? "i" = some 16 := (hh.vars.address "i" 16).2 ⟨0, by decide, rfl⟩
  have hthis : p.cellName? 3 = some "THIS" := rfl
  refine ⟨p, hp, hi, (hname "i" 16 hi).resolve_right ?_, rfl, hthis, hcell 3 "THIS" hthis⟩
  rintro ⟨pointer, hmem, -⟩
  exact absurd hmem (by simp [Symbol.aliases])

end Hack
