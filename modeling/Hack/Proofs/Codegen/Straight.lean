/-
What the emitter's cursor is worth to any client. Whatever is pointed at and appended, lines that are executed
one after the other leave the address register with the number or the address that the cursor says, and a load
that is left out, in whole or in part, would have put there what is there. For a dereferencing cursor there is one
way to go wrong: a line that writes through a cell which holds its own address changes the cell and not the
register, and the cursor does not follow.
-/
import Hack.Proofs.Codegen.Cursor

namespace Hack

/-- The word of an instruction whose symbols stand for the addresses given. -/
def Instr.word (address : String → UInt16) : Instr → Word
  | .load (.number n) => .load n
  | .load (.symbol name) => .load (address name)
  | .compute dest comp jump => .compute dest comp jump

namespace Codegen

/-- What a target stands for. -/
def Target.value (address : String → UInt16) (m : Machine) : Target → UInt16
  | .direct (.number n) => n
  | .direct (.symbol name) => address name
  | .deref name => m.ram.read (address name)

/-! ## Lines one after the other -/

/-- One line, if no jump leads away from it; a label does nothing. -/
def execLine (address : String → UInt16) (m : Machine) : Line → Except Fault Machine
  | .label _ => .ok m
  | .instr i =>
    match m.fault? (i.word address) with
    | some f => .error f
    | none => .ok (m.exec (i.word address))

def execLines (address : String → UInt16) (m : Machine) (ls : List Line) : Except Fault Machine :=
  ls.foldlM (execLine address) m

section

variable {address : String → UInt16} {m m' m'' : Machine}

theorem execLine_instr {i : Instr} : execLine address m (.instr i) = .ok m' ↔
    m.fault? (i.word address) = none ∧ m.exec (i.word address) = m' := by
  unfold execLine
  cases h : m.fault? (i.word address) <;> simp [h]

theorem execLine_load (v : Operand) :
    execLine address m (.load v) = .ok { m with a := (Target.direct v).value address m, pc := m.pc + 1 } := by
  cases v <;> rfl

theorem execLines_append {ls ms : List Line} : execLines address m (ls ++ ms) = .ok m'' ↔
    ∃ m', execLines address m ls = .ok m' ∧ execLines address m' ms = .ok m'' := by
  unfold execLines
  rw [List.foldlM_append]
  cases ls.foldlM (execLine address) m with
  | error e => simp [bind, Except.bind]
  | ok m' => simp [bind, Except.bind]

theorem execLines_nil : execLines address m [] = .ok m' ↔ m = m' := by
  simp [execLines, pure, Except.pure]

theorem execLines_singleton {l : Line} : execLines address m [l] = .ok m' ↔ execLine address m l = .ok m' := by
  simp [execLines]

theorem execLines_cons {l : Line} {ls : List Line} : execLines address m (l :: ls) = .ok m'' ↔
    ∃ m', execLine address m l = .ok m' ∧ execLines address m' ls = .ok m'' := by
  rw [← List.singleton_append, execLines_append]
  simp only [execLines_singleton]

/-- A line that keeps the address register changes no other cell than the one under it, and that one only if it
writes to memory. -/
theorem execLine_frame {dest : Dest} (hd : dest.a = false) {comp : Comp} {jump : Jump}
    (h : execLine address m (.instr (.compute dest comp jump)) = .ok m') :
    m'.a = m.a ∧ ∀ addr, (dest.m = true → m.a ≠ addr) → m'.ram.read addr = m.ram.read addr := by
  obtain ⟨-, rfl⟩ := execLine_instr.1 h
  obtain ⟨a, d, pc, ram⟩ := m
  simp only [Instr.word, Machine.exec, hd, Bool.false_eq_true, if_false, true_and]
  intro addr hne
  cases hm : dest.m with
  | true => exact Ram.read_write_of_ne (hne hm) _
  | false => rfl

/-- The address register holds what a target stands for, and nothing but it and the counter has changed. -/
structure Pointed (address : String → UInt16) (t : Target) (m m' : Machine) : Prop where
  a : m'.a = t.value address m
  d : m'.d = m.d
  ram : m'.ram = m.ram

theorem pointed_load {v : Operand} (h : execLine address m (.load v) = .ok m') :
    Pointed address (.direct v) m m' := by
  rw [execLine_load] at h
  cases h
  exact ⟨rfl, rfl, rfl⟩

/-- Behind the load of the symbol, the content of its cell. -/
theorem pointed_deref {name : String} (ha : m.a = address name)
    (h : execLine address m (.assign .toA (.y .m)) = .ok m') : Pointed address (.deref name) m m' := by
  obtain ⟨-, rfl⟩ := execLine_instr.1 h
  exact ⟨congrArg m.ram.read ha, rfl, rfl⟩

/-- A full load of a target. -/
theorem pointed_plain {t : Target} (h : execLines address m (Emission.point t).plain = .ok m') :
    Pointed address t m m' := by
  match t with
  | .direct v => exact pointed_load (execLines_singleton.1 h)
  | .deref name =>
    obtain ⟨m1, h1, h2⟩ := execLines_cons.1 h
    have hload := pointed_load h1
    have hderef := pointed_deref hload.a (execLines_singleton.1 h2)
    refine ⟨?_, hderef.d.trans hload.d, hderef.ram.trans hload.ram⟩
    rw [hderef.a, Target.value, Target.value, hload.ram]

/-! ## What the cursor says -/

/-- The register holds the address of a cell that should have been dereferenced. -/
def Target.Own (address : String → UInt16) (m : Machine) (t : Target) : Prop :=
  ∃ name, t = .deref name ∧ m.a = address name

/-- The cursor is right. -/
def Exact (address : String → UInt16) (cursor : Option Target) (m : Machine) : Prop :=
  ∀ t, cursor = some t → m.a = t.value address m

/-- The cursor is right but for a cell that held its own address. -/
def Accurate (address : String → UInt16) (cursor : Option Target) (m : Machine) : Prop :=
  ∀ t, cursor = some t → m.a = t.value address m ∨ t.Own address m

/-- A line that writes another value to a cell which holds its own address, the cursor dereferencing that cell. -/
def Spoils (address : String → UInt16) (cursor : Option Target) (m m' : Machine) (l : Line) : Prop :=
  ∃ name dest comp jump, cursor = some (.deref name) ∧ l = .instr (.compute dest comp jump) ∧ dest.a = false ∧
    dest.m = true ∧ m.a = address name ∧ m'.ram.read (address name) ≠ address name

variable {cursor : Option Target}

theorem exact_none : Exact address none m := nofun

theorem Exact.accurate (h : Exact address cursor m) : Accurate address cursor m :=
  fun t ht => .inl (h t ht)

theorem exact_load {v : Operand} (h : execLine address m (.load v) = .ok m') :
    Exact address (some (.direct v)) m' := by
  rintro t ⟨⟩
  rw [(pointed_load h).a]
  cases v <;> rfl

/-- What a line that keeps the register does to a target: what it stands for stays, unless the cell is overwritten
through itself. -/
theorem value_of_keeps {t : Target} {dest : Dest} (hd : dest.a = false) {comp : Comp} {jump : Jump}
    (h : execLine address m (.instr (.compute dest comp jump)) = .ok m') :
    t.value address m' = t.value address m ∨ ∃ name, t = .deref name ∧ dest.m = true ∧ m.a = address name := by
  match t with
  | .direct (.number n) => exact .inl rfl
  | .direct (.symbol name) => exact .inl rfl
  | .deref name =>
    by_cases hown : dest.m = true ∧ m.a = address name
    · exact .inr ⟨name, rfl, hown⟩
    · exact .inl ((execLine_frame hd h).2 _ fun hm ha => hown ⟨hm, ha⟩)

/-- Behind a line the cursor is right, or the line has kept both the cursor and the register. -/
theorem exact_or_keeps {l : Line} (hl : execLine address m l = .ok m') :
    Exact address (Emitter.cursorAfter cursor l) m' ∨ ∃ dest comp jump, l = .instr (.compute dest comp jump) ∧
      dest.a = false ∧ Emitter.cursorAfter cursor l = cursor := by
  match l with
  | .label name => exact .inl exact_none
  | .instr (.load v) => exact .inl (exact_load hl)
  | .instr (.compute dest comp jump) =>
    cases hd : dest.a with
    | true =>
      left
      simp only [Emitter.cursorAfter, hd, if_true]
      exact exact_none
    | false => exact .inr ⟨dest, comp, jump, rfl, hd, by simp [Emitter.cursorAfter, hd]⟩

theorem Accurate.line (h : Accurate address cursor m) {l : Line} (hl : execLine address m l = .ok m') :
    Accurate address (Emitter.cursorAfter cursor l) m' := by
  rcases exact_or_keeps hl with hexact | ⟨dest, comp, jump, rfl, hd, hcursor⟩
  · exact hexact.accurate
  · rw [hcursor]
    intro t ht
    have ha := (execLine_frame hd hl).1
    rcases value_of_keeps (t := t) hd hl with hv | ⟨name, rfl, -, hown⟩
    · rcases h t ht with he | ⟨name, rfl, hown⟩
      · exact .inl (by rw [ha, hv, he])
      · exact .inr ⟨name, rfl, ha.trans hown⟩
    · exact .inr ⟨name, rfl, ha.trans hown⟩

/-- A right cursor is right behind a line, unless the line spoils it. -/
theorem Exact.line (h : Exact address cursor m) {l : Line} (hl : execLine address m l = .ok m')
    (hspoils : ¬ Spoils address cursor m m' l) : Exact address (Emitter.cursorAfter cursor l) m' := by
  rcases exact_or_keeps hl with hexact | ⟨dest, comp, jump, rfl, hd, hcursor⟩
  · exact hexact
  · rw [hcursor]
    intro t ht
    have ha := (execLine_frame hd hl).1
    rcases value_of_keeps (t := t) hd hl with hv | ⟨name, rfl, hm, hown⟩
    · rw [ha, hv, h t ht]
    · by_cases hcell : m'.ram.read (address name) = address name
      · rw [Target.value, hcell, ha, hown]
      · exact absurd ⟨name, dest, comp, jump, ht, rfl, hd, hm, hown, hcell⟩ hspoils

theorem Spoils.not_exact {l : Line} (h : Spoils address cursor m m' l) (hl : execLine address m l = .ok m') :
    ¬ Exact address (Emitter.cursorAfter cursor l) m' := by
  obtain ⟨name, dest, comp, jump, rfl, rfl, hd, -, ha, hne⟩ := h
  simp only [Emitter.cursorAfter, hd, Bool.false_eq_true, if_false]
  intro hexact
  exact hne ((hexact _ rfl).symm.trans ((execLine_frame hd hl).1.trans ha))

theorem Accurate.symbol {name : String} (h : Accurate address (some (.direct (.symbol name))) m) :
    m.a = address name := by
  rcases h _ rfl with ha | ⟨other, hother, -⟩
  · exact ha
  · cases hother

theorem accurate_invariant (address : String → UInt16) (m : Machine) :
    CursorInvariant fun cursor ls => ∀ m', execLines address m ls = .ok m' → Accurate address cursor m' where
  line {cursor ls} l h m'' hrun := by
    obtain ⟨m', hls, hl⟩ := execLines_append.1 hrun
    exact (h m' hls).line (execLines_singleton.1 hl)
  deref {name ls} h m'' hrun := by
    obtain ⟨m', hls, hl⟩ := execLines_append.1 hrun
    rintro t ⟨⟩
    have hderef := pointed_deref (h m' hls).symbol (execLines_singleton.1 hl)
    refine .inl ?_
    rw [hderef.a, Target.value, Target.value, hderef.ram]

theorem appends_of_cursor {t : Target} (h : cursor = some t) : (Emission.point t).appends cursor = [] := by
  cases t with
  | direct v => exact if_pos h
  | deref name => exact if_pos h

/-- The lines that pointing at a target adds: they put into the register what the full load puts there, unless all
of it is left out for a cell that held its own address. -/
theorem Accurate.appends (h : Accurate address cursor m) {t : Target}
    (hrun : execLines address m (((Emission.point t).appends cursor).map (·.2)) = .ok m') :
    Pointed address t m m' ∨ (m' = m ∧ cursor = some t ∧ t.Own address m) := by
  by_cases hc : cursor = some t
  · rw [appends_of_cursor hc] at hrun
    cases execLines_nil.1 hrun
    rcases h t hc with ha | hown
    · exact .inl ⟨ha, rfl, rfl⟩
    · exact .inr ⟨rfl, hc, hown⟩
  · left
    match t with
    | .direct v =>
      simp only [Emission.appends, if_neg hc] at hrun
      exact pointed_load (execLines_singleton.1 hrun)
    | .deref name =>
      simp only [Emission.appends, if_neg hc] at hrun
      split at hrun
      · -- only the second half of the load is left
        rename_i hs
        rw [hs] at h
        exact pointed_deref h.symbol (execLines_singleton.1 hrun)
      · exact pointed_plain hrun

end

/-! ## Clients -/

/-- The cursor of an emitter, whatever it was told to emit. If its lines are executed one after the other without
an access to a cell that does not exist, the cursor is right but for a cell that held its own address; a line more
keeps a right cursor right exactly if it does not spoil it. Pointing at a target does what the full load of the target
does, again but for such a cell, for which nothing is emitted. -/
theorem Emitter.cursor_accurate (address : String → UInt16) (ops : List Emission) {m m' : Machine}
    (hrun : execLines address m (Emitter.emitAll {} ops).output.toList = .ok m') :
    let e := Emitter.emitAll {} ops
    Accurate address e.cursor m' ∧
    (Exact address e.cursor m' → ∀ l m'', execLines address m (e.append l).output.toList = .ok m'' →
      (Exact address (e.append l).cursor m'' ↔ ¬ Spoils address e.cursor m' m'' l)) ∧
    ∀ t, (e.pointTo t).cursor = some t ∧
      (∀ m'', execLines address m (e.pointTo t).output.toList = .ok m'' →
        Pointed address t m' m'' ∨ (e.pointTo t = e ∧ m'' = m' ∧ t.Own address m')) ∧
      ∀ full, execLines address m' (Emission.point t).plain = .ok full → Pointed address t m' full := by
  intro e
  have hlines : e.output.toList = linesFrom none ops := (Emitter.emitAll_eq {} ops).1
  have hcursor : e.cursor = cursorFrom none ops := (Emitter.emitAll_eq {} ops).2
  have haccurate : Accurate address e.cursor m' := by
    rw [hcursor]
    rw [hlines] at hrun
    exact ((accurate_invariant address m).start (fun _ _ => exact_none.accurate) ops).2 m' hrun
  -- what comes behind the lines so far is executed from `m'` on
  have behind {more : List Line} {m'' : Machine} (h : execLines address m (e.output.toList ++ more) = .ok m'') :
      execLines address m' more = .ok m'' := by
    obtain ⟨mid, hmid, hmore⟩ := execLines_append.1 h
    rw [hrun] at hmid
    cases hmid
    exact hmore
  refine ⟨haccurate, fun hexact l m'' hl => ?_, fun t => ⟨?_, fun m'' ht => ?_, fun full => pointed_plain⟩⟩
  · rw [Emitter.append, Array.toList_push] at hl
    have hline := execLines_singleton.1 (behind hl)
    exact ⟨fun hright hspoils => hspoils.not_exact hline hright, hexact.line hline⟩
  · exact (e.emit_eq (.point t)).2
  · have hpoint : (e.pointTo t).output.toList = e.output.toList ++ _ := (e.emit_eq (.point t)).1
    rw [hpoint] at ht
    rcases haccurate.appends (behind ht) with hpointed | ⟨he, hc, hown⟩
    · exact .inl hpointed
    · exact .inr ⟨if_pos hc, he, hown⟩

/-- The second load of the cell is left out, as D is all that has changed since the first. -/
theorem cursor_accurate_again :
    let ops := [pointDeref Symbol.sp, assign .toD .one, pointDeref Symbol.sp]
    let m' : Machine := ⟨Ram.zero.read 0, 1, 3, .zero⟩
    (Emitter.emitAll {} ops).output.toList = [.load (.symbol Symbol.sp), .assign .toA (.y .m), .assign .toD .one] ∧
    execLines (fun _ => 0) .start (Emitter.emitAll {} ops).output.toList = .ok m' ∧
    Accurate (fun _ => 0) (Emitter.emitAll {} ops).cursor m' := by
  intro ops m'
  have hrun : execLines (fun _ => 0) .start (Emitter.emitAll {} ops).output.toList = .ok m' := rfl
  exact ⟨rfl, hrun, (Emitter.cursor_accurate _ ops hrun).1⟩

/-- The cell 0 holds its own address, and 1 is written through it: the cursor still says that the register holds the
cell's content, and a load that would put 1 there is left out. -/
theorem cursor_spoiled :
    let e := Emitter.emitAll {} [pointDeref Symbol.sp, assign .toM .one]
    ∃ m', execLines (fun _ => 0) .start e.output.toList = .ok m' ∧ e.cursor = some (.deref Symbol.sp) ∧
      m'.a = 0 ∧ m'.ram.read 0 = 1 ∧ e.pointTo (.deref Symbol.sp) = e ∧
      ∃ full, execLines (fun _ => 0) m' (pointDeref Symbol.sp).plain = .ok full ∧ full.a = 1 := by
  intro e
  have hone : (Ram.zero.write 0 1).read 0 = 1 := Ram.read_write_self zero_lt_ramSize 1
  have hderef (pc : UInt16) (ram : Ram) : execLine (fun _ => 0) ⟨0, 0, pc, ram⟩ (.assign .toA (.y .m)) =
      .ok ⟨ram.read 0, 0, pc + 1, ram⟩ := by
    refine execLine_instr.2 ⟨rfl, ?_⟩
    simp only [Instr.word, Machine.exec, Dest.toA, Comp.eval, Input.pick, Jump.taken_null, Bool.false_eq_true, if_true,
      if_false]
  have hrun (ram : Ram) (h : ram.read 0 = 0) : execLines (fun _ => 0) ⟨0, 0, 0, ram⟩ e.output.toList =
      .ok ⟨0, 0, 3, ram.write 0 1⟩ := by
    change (execLine _ ⟨0, 0, 1, ram⟩ (.assign .toA (.y .m)) >>= fun m => execLines _ m [.assign .toM .one]) = _
    rw [hderef, h]
    rfl
  have hfull (ram : Ram) (h : ram.read 0 = 1) : execLines (fun _ => 0) ⟨0, 0, 3, ram⟩ (pointDeref Symbol.sp).plain =
      .ok ⟨1, 0, 5, ram⟩ := by
    change execLines (fun _ => 0) ⟨0, 0, 4, ram⟩ [.assign .toA (.y .m)] = _
    rw [execLines_singleton, hderef, h]
    rfl
  exact ⟨_, hrun _ (Ram.read_zero 0), rfl, rfl, hone, rfl, _, hfull _ hone, rfl⟩

end Codegen

end Hack
