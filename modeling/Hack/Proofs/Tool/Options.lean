/-
What reading a command line does to the operands: switches leave them alone, so whatever holds of no operands and
is kept by each one that is added holds of all in the end. A tool with a single operand gets exactly one.
-/
import Hack.Tool.Options

namespace Hack.Tool

open Text

/-! ## Results -/

theorem bind_ok {α β : Type} {x : Except Stop α} {f : α → Except Stop β} {b : β} (h : x.bind f = .ok b) :
    ∃ a, x = .ok a ∧ f a = .ok b := by
  cases x with
  | error stop => cases h
  | ok a => exact ⟨a, rfl, h⟩

theorem map_ok {α β : Type} {x : Except Stop α} {f : α → β} {b : β} (h : x.map f = .ok b) :
    ∃ a, x = .ok a ∧ f a = b := by
  cases x with
  | error stop => cases h
  | ok a => exact ⟨a, rfl, Except.ok.inj h⟩

section

variable {g : Grammar} {a b : Arguments}

/-! ## Switches -/

theorem operands_addSwitch {s : Switch} {value : Option String} (h : a.addSwitch s value = .ok b) :
    b.operands = a.operands := by
  unfold Arguments.addSwitch at h
  split at h
  · cases h
  · cases h
    rfl

theorem operands_addValue {s : Switch} {value : String} (h : a.addValue s value = .ok b) :
    b.operands = a.operands := by
  unfold Arguments.addValue at h
  split at h
  · split at h
    · exact operands_addSwitch h
    · cases h
  · cases h

theorem operands_readLong {s : List Char} {p : Progress} (h : readLong g a s = .ok p) :
    p.1.operands = a.operands := by
  unfold readLong at h
  split at h
  split at h
  · cases h
  · split at h
    · cases h
    · obtain ⟨b, hb, rfl⟩ := map_ok h
      exact operands_addSwitch hb
    · cases h
      rfl
    · obtain ⟨b, hb, rfl⟩ := map_ok h
      exact operands_addValue hb
    · cases h

theorem operands_readShort {s : List Char} {p : Progress} (h : readShort g a s = .ok p) :
    p.1.operands = a.operands := by
  induction s generalizing a with
  | nil =>
    cases h
    rfl
  | cons c rest ih =>
    unfold readShort at h
    split at h
    · cases h
    · split at h
      · cases h
      · obtain ⟨b, hb, hrest⟩ := bind_ok h
        rw [ih hrest, operands_addSwitch hb]
      · split at h
        · cases h
          rfl
        · obtain ⟨b, hb, rfl⟩ := map_ok h
          exact operands_addValue hb
        · obtain ⟨b, hb, rfl⟩ := map_ok h
          exact operands_addValue hb

/-! ## Operands -/

/-- Whether a property of the operands is kept by each one that is added. -/
def Kept (g : Grammar) (P : List String → Prop) : Prop :=
  ∀ (a b : Arguments) (operand : String), P a.operands → a.addOperand g operand = .ok b → P b.operands

variable {P : List String → Prop}

theorem Kept.foldlM (h : Kept g P) {args : List String} (ha : P a.operands)
    (hb : args.foldlM (Arguments.addOperand g) a = .ok b) : P b.operands := by
  induction args generalizing a with
  | nil =>
    cases hb
    exact ha
  | cons arg args ih =>
    obtain ⟨a', ha', hrest⟩ := bind_ok hb
    exact ih (h a a' arg ha ha') hrest

/-- What holds of no operands and is kept holds of those of a command line, and there are some. -/
theorem Kept.readFrom (h : Kept g P) {args : List String} {pending : Option Switch} (ha : P a.operands)
    (hb : readFrom g a pending args = .ok b) : P b.operands ∧ b.operands ≠ [] := by
  induction args generalizing a pending with
  | nil =>
    unfold Tool.readFrom at hb
    split at hb
    · cases hb
    · rename_i hend
      cases hb
      rw [Bool.or_eq_true, not_or, List.isEmpty_iff] at hend
      exact ⟨ha, hend.2⟩
  | cons arg rest ih =>
    unfold Tool.readFrom at hb
    cases pending with
    | some switch =>
      dsimp only at hb
      split at hb
      · cases hb
      · obtain ⟨a', ha', hrest⟩ := bind_ok hb
        exact ih (by rw [operands_addValue ha']; exact ha) hrest
    | none =>
      dsimp only at hb
      split at hb
      · obtain ⟨a', ha', hrest⟩ := bind_ok hb
        split at hrest
        · cases hrest
        · rename_i hend
          cases hrest
          rw [List.isEmpty_iff] at hend
          exact ⟨h.foldlM ha ha', hend⟩
      · obtain ⟨p, hp, hrest⟩ := bind_ok hb
        exact ih (by rw [operands_readLong hp]; exact ha) hrest
      · obtain ⟨p, hp, hrest⟩ := bind_ok hb
        exact ih (by rw [operands_readShort hp]; exact ha) hrest
      · obtain ⟨a', ha', hrest⟩ := bind_ok hb
        exact ih (h a a' arg ha ha') hrest

theorem kept_single (hg : g.manyOperands = false) : Kept g (·.length ≤ 1) := by
  intro a b operand ha hb
  unfold Arguments.addOperand at hb
  rw [hg, Bool.false_or] at hb
  split at hb
  · rename_i hempty
    cases hb
    rw [List.isEmpty_iff.1 hempty]
    exact Nat.le_refl 1
  · cases hb

/-- A tool that takes a single operand gets exactly one. -/
theorem operands_of_read (hg : g.manyOperands = false) {args : List String} (h : g.read args = .ok a) :
    ∃ operand, a.operands = [operand] := by
  obtain ⟨hlen, hne⟩ := (kept_single hg).readFrom (a := {}) (Nat.zero_le 1) h
  have hpos := List.length_pos_iff.2 hne
  exact List.length_eq_one_iff.1 (by omega)

end

end Hack.Tool
