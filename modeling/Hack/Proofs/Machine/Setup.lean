/-
Setups whose entries are written in different orders. A cell has several spellings, its address and its
names, and each of them may have an entry. Whether all cells are found does not depend on the order; what
memory holds in the end does not depend on it exactly if entries for the same cell have the same value.
-/
import Hack.Machine.Setup
import Mathlib.Data.List.Perm.Basic

namespace Hack

/-! ## Memory -/

theorem Ram.write_comm (r : Ram) {addr other : UInt16} (h : addr ≠ other) (v w : UInt16) :
    (r.write addr v).write other w = (r.write other w).write addr v := by
  have hne : addr.toNat ≠ other.toNat := fun he => h (UInt16.toNat_inj.1 he)
  unfold Ram.write
  rw [Ram.mk.injEq]
  apply Vector.ext
  intro i hi
  rw [Vector.getElem_setIfInBounds, Vector.getElem_setIfInBounds, Vector.getElem_setIfInBounds,
    Vector.getElem_setIfInBounds]
  -- a cell is at one of the two places at most
  by_cases ha : addr.toNat = i
  · rw [if_neg (by omega), if_pos ha, if_pos ha]
  · rw [if_neg ha, if_neg ha]

/-- What is found is a cell of memory. -/
theorem Program.address_lt {p : Program} {c : Cell} {a : UInt16} (h : p.address c = .ok a) : a.toNat < ramSize := by
  have hram {n : UInt16} (h : Program.inRam n = .ok a) : a.toNat < ramSize := by
    unfold Program.inRam at h
    split at h
    · cases h; assumption
    · cases h
  cases c with
  | addr n => exact hram h
  | name s =>
    unfold Program.address at h
    dsimp only at h
    split at h
    · exact hram h
    · cases h

theorem toUInt16_inj {v w : Int16} (h : v.toUInt16 = w.toUInt16) : v = w := by
  rw [← Int16.toInt16_toUInt16 v, h, Int16.toInt16_toUInt16]

namespace Setup

variable {p : Program} {m : Machine} {entries l : List (Cell × Int16)}

/-! ## One order -/

/-- Whether the cells of all entries are found. -/
def AllFound (p : Program) (entries : List (Cell × Int16)) : Prop :=
  ∀ e ∈ entries, ∃ a, p.address e.1 = .ok a

/-- Writes one entry if its cell is found. -/
def put (p : Program) (m : Machine) (e : Cell × Int16) : Machine :=
  match p.address e.1 with
  | .ok a => { m with ram := m.ram.write a e.2.toUInt16 }
  | .error _ => m

theorem put_of_address {e : Cell × Int16} {a : UInt16} (h : p.address e.1 = .ok a) :
    put p m e = { m with ram := m.ram.write a e.2.toUInt16 } := by
  rw [put, h]

theorem write_cons {e : Cell × Int16} {a : UInt16} (h : p.address e.1 = .ok a) :
    write p m (e :: entries) = write p (put p m e) entries := by
  rw [write, Program.set, put_of_address h, h]
  rfl

/-- Writing comes to the end exactly if all cells are found. -/
theorem write_eq_none_iff : (write p m entries).2 = none ↔ AllFound p entries := by
  induction entries generalizing m with
  | nil => simp [write, AllFound]
  | cons e entries ih =>
    unfold AllFound
    rw [List.forall_mem_cons]
    cases he : p.address e.1 with
    | error unknown =>
      rw [write, Program.set, he]
      constructor
      · intro h
        cases h
      · rintro ⟨⟨a, ha⟩, -⟩
        cases ha
    | ok a =>
      rw [write_cons he, ih]
      exact (and_iff_right ⟨a, rfl⟩).symm

theorem write_of_allFound (h : AllFound p entries) : (write p m entries).1 = entries.foldl (put p) m := by
  induction entries generalizing m with
  | nil => rfl
  | cons e entries ih =>
    obtain ⟨a, ha⟩ := h e List.mem_cons_self
    rw [write_cons ha, ih fun e' he' => h e' (List.mem_cons_of_mem _ he')]
    rfl

/-! ## Two orders -/

theorem AllFound.perm (h : AllFound p entries) (hl : l.Perm entries) : AllFound p l :=
  fun e he => h e (hl.mem_iff.1 he)

/-- Whether entries for the same cell have the same value. -/
def Agree (p : Program) (entries : List (Cell × Int16)) : Prop :=
  ∀ e ∈ entries, ∀ e' ∈ entries, ∀ a, p.address e.1 = .ok a → p.address e'.1 = .ok a → e.2 = e'.2

/-- Two entries may be exchanged unless they give one cell two values. -/
theorem put_comm {e e' : Cell × Int16}
    (h : ∀ a, p.address e.1 = .ok a → p.address e'.1 = .ok a → e.2 = e'.2) (m : Machine) :
    put p (put p m e) e' = put p (put p m e') e := by
  unfold put
  cases he : p.address e.1 with
  | error unknown => rfl
  | ok a =>
    cases he' : p.address e'.1 with
    | error unknown => rfl
    | ok a' =>
      dsimp only
      by_cases ha : a = a'
      · subst ha
        rw [h a he he']
      · rw [Ram.write_comm _ ha]

theorem foldl_put_perm (h : Agree p entries) (hl : l.Perm entries) (m : Machine) :
    l.foldl (put p) m = entries.foldl (put p) m := by
  refine hl.foldl_eq' ?_ m
  intro e he e' he' m
  exact put_comm (h e (hl.mem_iff.1 he) e' (hl.mem_iff.1 he')) m

/-- The last entry decides what its cell holds. -/
theorem read_foldl_put_concat {e : Cell × Int16} {a : UInt16} (h : p.address e.1 = .ok a) (m : Machine) :
    ((entries ++ [e]).foldl (put p) m).ram.read a = e.2.toUInt16 := by
  rw [List.foldl_append, List.foldl_cons, List.foldl_nil, put_of_address h]
  exact Ram.read_write_self (Program.address_lt h) _

/-- Entries that give one cell two values can be written so that either value stays. -/
theorem agree_of_foldl_put
    (h : ∀ l : List (Cell × Int16), l.Perm entries → l.foldl (put p) m = entries.foldl (put p) m) :
    Agree p entries := by
  intro e he e' he' a ha ha'
  by_contra hne
  have hmem : e' ∈ entries.erase e := by
    refine (List.mem_erase_of_ne ?_).2 he'
    rintro rfl
    exact hne rfl
  -- the two entries behind the others, in both orders
  have hperm : ((entries.erase e).erase e' ++ [e, e']).Perm entries := by
    apply List.perm_append_comm.trans
    apply ((List.perm_cons_erase hmem).symm.cons e).trans
    exact (List.perm_cons_erase he).symm
  have hperm' : ((entries.erase e).erase e' ++ [e', e]).Perm entries :=
    (List.Perm.append_left _ (List.Perm.swap e e' [])).trans hperm
  have hsame := (h _ hperm).trans (h _ hperm').symm
  have hread := congrArg (fun m : Machine => m.ram.read a) hsame
  rw [List.append_cons _ e [e'], List.append_cons _ e' [e]] at hread
  rw [read_foldl_put_concat ha', read_foldl_put_concat ha] at hread
  exact hne (toUInt16_inj hread).symm

/-- The order of a setup's entries. Either all orders come to the end or none does. If they do, they leave the
same machine behind exactly if entries for the same cell have the same value. -/
theorem apply_perm_iff (s : Setup) (p : Program) (m : Machine) :
    (∀ l l' : List (Cell × Int16), l.Perm s.init → l'.Perm s.init →
      ((write p m l).2 = none ↔ (write p m l').2 = none)) ∧
    ((s.apply p m).2 = none →
      ((∀ l l' : List (Cell × Int16), l.Perm s.init → l'.Perm s.init → (write p m l).1 = (write p m l').1) ↔
        Agree p s.init)) := by
  constructor
  · intro l l' hl hl'
    rw [write_eq_none_iff, write_eq_none_iff]
    exact ⟨fun h => h.perm (hl'.trans hl.symm), fun h => h.perm (hl.trans hl'.symm)⟩
  · intro hnone
    have hfound : AllFound p s.init := write_eq_none_iff.1 hnone
    have hwrite {l : List (Cell × Int16)} (hl : l.Perm s.init) : (write p m l).1 = l.foldl (put p) m :=
      write_of_allFound (hfound.perm hl)
    constructor
    · intro hsame
      apply agree_of_foldl_put (m := m)
      intro l hl
      rw [← hwrite hl, ← hwrite (List.Perm.refl _)]
      exact hsame l s.init hl (List.Perm.refl _)
    · intro hagree l l' hl hl'
      rw [hwrite hl, hwrite hl', foldl_put_perm hagree hl, foldl_put_perm hagree hl']

/-- Three entries for two cells; those for the same cell have the same value. -/
theorem apply_perm_iff_sameValue :
    Agree {} [(.name "SP", 256), (.addr 0, 256), (.name "LCL", 300)] ∧
    ∀ l l' : List (Cell × Int16), l.Perm [(.name "SP", 256), (.addr 0, 256), (.name "LCL", 300)] →
      l'.Perm [(.name "SP", 256), (.addr 0, 256), (.name "LCL", 300)] →
        (write {} .start l).1 = (write {} .start l').1 := by
  have hvalue : ∀ e ∈ [(Cell.name "SP", (256 : Int16)), (.addr 0, 256), (.name "LCL", 300)], ∀ a,
      Program.address {} e.1 = .ok a → e.2 = if a = 0 then 256 else 300 := by
    simp only [List.forall_mem_cons]
    refine ⟨?_, ?_, ?_, nofun⟩ <;> rintro a ⟨⟩ <;> rfl
  have hagree : Agree {} [(.name "SP", 256), (.addr 0, 256), (.name "LCL", 300)] := by
    intro e he e' he' a ha ha'
    rw [hvalue e he a ha, hvalue e' he' a ha']
  have hnone : (write {} .start [(.name "SP", 256), (.addr 0, 256), (.name "LCL", 300)]).2 = none := rfl
  exact ⟨hagree,
    ((apply_perm_iff ⟨[(.name "SP", 256), (.addr 0, 256), (.name "LCL", 300)], []⟩ {} .start).2 hnone).2 hagree⟩

/-- A setup that gives one cell two values under two of its names: memory holds the value that is written last. -/
theorem apply_perm_alias :
    (Setup.parse? "init:\n  SP: 1\n  0: 2\n").map (·.init) = some [(.name "SP", 1), (.addr 0, 2)] ∧
    (write {} .start [(.name "SP", 1), (.addr 0, 2)]).2 = none ∧
    (write {} .start [(.addr 0, 2), (.name "SP", 1)]).2 = none ∧
    (write {} .start [(.name "SP", 1), (.addr 0, 2)]).1.ram ≠ (write {} .start [(.addr 0, 2), (.name "SP", 1)]).1.ram := by
  refine ⟨by decide +kernel, rfl, rfl, ?_⟩
  have hlt : (0 : UInt16).toNat < ramSize := by decide
  have hfirst : (write {} .start [(.name "SP", 1), (.addr 0, 2)]).1.ram.read 0 = 2 := Ram.read_write_self hlt _
  have hsecond : (write {} .start [(.addr 0, 2), (.name "SP", 1)]).1.ram.read 0 = 1 := Ram.read_write_self hlt _
  intro hram
  rw [hram, hsecond] at hfirst
  exact absurd hfirst (by decide)

end Setup

end Hack
