/-
No needless load is left. The emitter's cursor is exactly what the lines before it make evident of the address
register, so that two equal loads always have a line between them that changes the register or that can be
jumped to. This holds of any steps that leave loads, and the dereferencing that follows one, to the emitter,
and generated code consists of such steps, up to the failure of a command and behind it.
-/
import Hack.Proofs.Codegen.Shape

namespace Hack

/-- Whether a line changes the address register, or can be jumped to with anything in it. -/
def Line.setsAddress : Line → Bool
  | .instr (.load _) => true
  | .instr (.compute dest _ _) => dest.a
  | .label _ => true

namespace Codegen

open Vm

/-! ## What lines make evident -/

/-- Lines make it evident that the address register holds a target: the last of them to set the register is its
load, or the last two are the load of its symbol and the dereferencing. -/
def Evident (ls : List Line) : Target → Prop
  | .direct v => ∃ init, ls.filter Line.setsAddress = init ++ [.load v]
  | .deref name => ∃ init, ls.filter Line.setsAddress = init ++ [.load (.symbol name), .assign .toA (.y .m)]

/-- Equal loads have a line between them that sets the address register. -/
def Unrepeated (ls : List Line) : Prop :=
  ∀ before v mid after, ls = before ++ .load v :: mid ++ .load v :: after → ∃ l ∈ mid, l.setsAddress

section

variable {ls : List Line} {l : Line} {t : Target}

theorem filter_setsAddress_append (h : l.setsAddress) :
    (ls ++ [l]).filter Line.setsAddress = ls.filter Line.setsAddress ++ [l] := by
  rw [List.filter_append, List.filter_singleton, h]
  rfl

/-- A line that keeps the register changes nothing of what is evident. -/
theorem evident_append_of_keeps (h : l.setsAddress = false) : Evident (ls ++ [l]) t ↔ Evident ls t := by
  have hfilter : (ls ++ [l]).filter Line.setsAddress = ls.filter Line.setsAddress := by
    rw [List.filter_append, List.filter_singleton, h]
    exact List.append_nil _
  cases t <;> simp only [Evident, hfilter]

/-- A line that sets the register makes evident what it loads, -/
theorem evident_direct_append (h : l.setsAddress) {v : Operand} : Evident (ls ++ [l]) (.direct v) ↔ l = .load v := by
  simp only [Evident, filter_setsAddress_append h]
  constructor
  · rintro ⟨init, hinit⟩
    exact List.singleton_inj.1 (List.append_inj' hinit rfl).2
  · rintro rfl
    exact ⟨_, rfl⟩

/-- or what it dereferences, if the symbol was evident before. -/
theorem evident_deref_append (h : l.setsAddress) {name : String} : Evident (ls ++ [l]) (.deref name) ↔
    l = .assign .toA (.y .m) ∧ Evident ls (.direct (.symbol name)) := by
  simp only [Evident, filter_setsAddress_append h]
  constructor
  · rintro ⟨init, hinit⟩
    rw [List.append_cons init] at hinit
    obtain ⟨hfirst, hlast⟩ := List.append_inj' hinit rfl
    exact ⟨List.singleton_inj.1 hlast, init, hfirst⟩
  · rintro ⟨rfl, init, hinit⟩
    exact ⟨init, by rw [hinit, ← List.append_cons]⟩

/-- A line repeats no load unless it is one that is evidently needless. -/
theorem Unrepeated.append (h : Unrepeated ls) (hl : ∀ v, l = .load v → ¬ Evident ls (.direct v)) :
    Unrepeated (ls ++ [l]) := by
  intro before v mid after he
  -- either the new line is the second of two equal loads, or both were there before
  rcases List.eq_nil_or_concat after with rfl | ⟨after, last, rfl⟩
  · obtain ⟨rfl, hlast⟩ := List.append_inj' he rfl
    by_contra hnone
    have hmid : mid.filter Line.setsAddress = [] := by
      rw [List.filter_eq_nil_iff]
      exact fun l' hl' hs => hnone ⟨l', hl', hs⟩
    refine hl v (List.singleton_inj.1 hlast) ⟨before.filter Line.setsAddress, ?_⟩
    rw [List.filter_append, List.filter_cons_of_pos rfl, hmid]
  · rw [List.concat_eq_append, ← List.cons_append, ← List.append_assoc] at he
    exact h before v mid after (List.append_inj' he rfl).1

end

/-! ## Emitting -/

/-- The cursor is all that the lines make evident, and no load among them is needless. -/
structure Complete (cursor : Option Target) (ls : List Line) : Prop where
  evident : ∀ t, cursor = some t ↔ Evident ls t
  unrepeated : Unrepeated ls

/-- Whether a step leaves loads and their dereferencing to the emitter. -/
def Emission.Routed : Emission → Prop
  | .point _ => True
  | .line l => (∀ v, l ≠ .load v) ∧ l ≠ .assign .toA (.y .m)

namespace Complete

variable {cursor : Option Target} {ls : List Line}

theorem start : Complete none [] where
  evident t := by cases t <;> simp [Evident]
  unrepeated := by simp [Unrepeated]

theorem load (h : Complete cursor ls) {v : Operand} (hv : cursor ≠ some (.direct v)) :
    Complete (some (.direct v)) (ls ++ [.load v]) where
  evident t := by
    cases t with
    | direct w =>
      rw [evident_direct_append rfl]
      simp [Line.load]
    | deref name =>
      rw [evident_deref_append rfl]
      simp [Line.load, Line.assign]
  unrepeated := h.unrepeated.append fun w hw hs => hv <| by
    cases hw
    exact (h.evident _).2 hs

theorem deref {name : String} (h : Complete (some (.direct (.symbol name))) ls) :
    Complete (some (.deref name)) (ls ++ [.assign .toA (.y .m)]) where
  evident t := by
    cases t with
    | direct w =>
      rw [evident_direct_append rfl]
      simp [Line.load, Line.assign]
    | deref other =>
      rw [evident_deref_append rfl, ← h.evident]
      simp
  unrepeated := h.unrepeated.append nofun

theorem line (h : Complete cursor ls) {l : Line} (hl : (Emission.line l).Routed) :
    Complete (Emitter.cursorAfter cursor l) (ls ++ [l]) where
  evident t := by
    cases hs : l.setsAddress with
    | true =>
      have hcursor : Emitter.cursorAfter cursor l = none := by
        match l, hl, hs with
        | .instr (.load v), hl, _ => exact absurd rfl (hl.1 v)
        | .instr (.compute dest _ _), _, hs => exact if_pos hs
        | .label _, _, _ => rfl
      rw [hcursor]
      cases t with
      | direct v => simp [evident_direct_append hs, hl.1]
      | deref name => simp [evident_deref_append hs, hl.2]
    | false =>
      have hcursor : Emitter.cursorAfter cursor l = cursor := by
        match l, hs with
        | .instr (.compute dest _ _), hs => exact if_neg (by rw [show dest.a = false from hs]; decide)
      rw [hcursor, evident_append_of_keeps hs]
      exact h.evident t
  unrepeated := h.unrepeated.append fun v hv => absurd hv (hl.1 v)

/-- Every step keeps the cursor complete. -/
theorem step (h : Complete cursor ls) {s : Emission} (hs : s.Routed) :
    Complete (s.cursorAfter cursor) (ls ++ (s.appends cursor).map (·.2)) := by
  match s with
  | .line l => exact h.line hs
  | .point (.direct v) =>
    by_cases hv : cursor = some (.direct v)
    · simpa [Emission.appends, Emission.cursorAfter, hv] using hv ▸ h
    · simpa [Emission.appends, Emission.cursorAfter, hv] using h.load hv
  | .point (.deref name) =>
    by_cases hd : cursor = some (.deref name)
    · simpa [Emission.appends, Emission.cursorAfter, hd] using hd ▸ h
    · by_cases hv : cursor = some (.direct (.symbol name))
      · simpa [Emission.appends, Emission.cursorAfter, hv] using (hv ▸ h).deref
      · simpa [Emission.appends, Emission.cursorAfter, hd, hv] using (h.load hv).deref

/-- So do any number of steps. -/
theorem steps (h : Complete cursor ls) {steps : List Emission} (hs : ∀ s ∈ steps, s.Routed) :
    Complete (cursorFrom cursor steps) (ls ++ linesFrom cursor steps) := by
  induction steps generalizing cursor ls with
  | nil => simpa using h
  | cons s steps ih =>
    obtain ⟨hfirst, hrest⟩ := List.forall_mem_cons.1 hs
    simpa using ih (h.step hfirst) hrest

end Complete

/-! ## Generated code -/

section

variable {unit : String} (name : String) (dest : Dest) (comp : Comp) (jump : Jump)

@[simp] theorem routed_point (target : Target) : (Emission.point target).Routed := trivial

@[simp] theorem routed_pointSymbol : (pointSymbol name).Routed := trivial

@[simp] theorem routed_pointDeref : (pointDeref name).Routed := trivial

@[simp] theorem routed_label : (Emission.line (.label name)).Routed := ⟨nofun, nofun⟩

@[simp] theorem routed_assign : (assign dest comp).Routed ↔ (dest = .toA → comp ≠ .y .m) := by
  simp [assign, Emission.Routed, Line.assign, Line.load]

@[simp] theorem routed_branch : (Emission.line (.branch comp jump)).Routed := by
  simp [Emission.Routed, Line.branch, Line.assign, Line.load, Dest.null, Dest.toA]

theorem routed_popD : ∀ s ∈ popD, s.Routed := by
  simp [popD, pointTop, dropTop, Dest.toA, Dest.toD, Dest.toM]

theorem routed_pushD : ∀ s ∈ pushD, s.Routed := by
  simp [pushD, Dest.toA, Dest.toM]

theorem routed_operate (labels : CompareLabels) (op : Op) : ∀ s ∈ operate labels op, s.Routed := by
  cases op <;>
    simp [operate, binary, compare, order, truth, jumpTo, pointTop, dropTop, Dest.toA, Dest.toD, Dest.toM]

theorem Resolved.routed {seg : Segment} {n : UInt16} {address : List Emission} (h : Resolved unit seg n address) :
    ∀ s ∈ address, s.Routed := by
  cases h <;> simp [Dest.toA, Dest.toD]

theorem Shape.routed {n : Nat} {compares : Bool} {steps : List Emission} (h : Shape unit n compares steps) :
    ∀ s ∈ steps, s.Routed :=
  h.forall_mem routed_popD routed_pushD (fun op _ => routed_operate _ op) Resolved.routed
    (by simp [Dest.toA, Dest.toD, Dest.toM])

end

/-- The code of commands leaves loads and their dereferencing to the emitter. -/
theorem routed_lowerAll (unit : String) (n : Nat) (cmds : List Command) : ∀ s ∈ lowerAll unit n cmds, s.Routed := by
  induction cmds generalizing n with
  | nil => simp [lowerAll]
  | cons cmd cmds ih =>
    rw [lowerAll, List.forall_mem_append]
    exact ⟨(shape_lower unit n cmd).routed, ih _⟩

/-- Commands in a row, failing ones among them, leave no needless load, and a cursor that can be read off their
output: it is what the output makes evident of the address register, and there is none if that is nothing. -/
theorem Context.complete_compileAll (unit : String) (cmds : List Command) :
    let emitter := (Context.compileAll { unit } cmds).emitter
    let ls := emitter.output.toList
    (∀ before v mid after, ls = before ++ .load v :: mid ++ .load v :: after → ∃ l ∈ mid, l.setsAddress) ∧
      (∀ v, emitter.cursor = some (.direct v) ↔ ∃ init, ls.filter Line.setsAddress = init ++ [.load v]) ∧
      (∀ name, emitter.cursor = some (.deref name) ↔
        ∃ init, ls.filter Line.setsAddress = init ++ [.load (.symbol name), .assign .toA (.y .m)]) ∧
      (emitter.cursor = none ↔ ∀ t, ¬ Evident ls t) := by
  have h := Complete.start.steps (routed_lowerAll unit 0 cmds)
  rw [List.nil_append, ← Context.output_compileAll, ← Context.cursor_compileAll] at h
  refine ⟨h.unrepeated, fun v => h.evident (.direct v), fun name => h.evident (.deref name), ?_⟩
  rw [Option.eq_none_iff_forall_ne_some]
  exact forall_congr' fun t => not_congr (h.evident t)

/-- A pop that fails has read the stack. -/
example : (Context.compileAll { unit := "Main" } [.pop .temp 8]).emitter.cursor = some (.direct (.symbol "SP")) := by
  decide

end Codegen

end Hack
