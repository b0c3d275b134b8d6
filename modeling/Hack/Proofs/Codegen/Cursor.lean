/-
The cursor tells the truth. Whenever a run of compiled code comes to an instruction, by falling through
or by a jump, the address register holds what the cursor said before that instruction was emitted: the
number, the address of the symbol, or the content of the symbol's cell. A cell can be overwritten
through itself; the register then still holds the cell's own address.
-/
import Hack.Proofs.Codegen.Effect

namespace Hack.Codegen

open Vm

/-! ## Cursors while emitting -/

/-- An emitter that keeps, for every line, the cursor before it. -/
structure Recorder where
  emitter : Emitter := {}
  cursors : Array (Option Target) := #[]

namespace Recorder

def append (r : Recorder) (l : Line) : Recorder where
  emitter := r.emitter.append l
  cursors := r.cursors.push r.emitter.cursor

def pointDirect (r : Recorder) (v : Operand) : Recorder :=
  if r.emitter.cursor = some (.direct v) then r else r.append (.load v)

def pointTo (r : Recorder) (target : Target) : Recorder :=
  if r.emitter.cursor = some target then r
  else match target with
    | .direct v => r.pointDirect v
    | .deref name =>
      let r := (r.pointDirect (.symbol name)).append (.assign .toA (.y .m))
      { r with emitter := { r.emitter with cursor := some (.deref name) } }

def emit (r : Recorder) : Emission → Recorder
  | .point target => r.pointTo target
  | .line l => r.append l

def emitAll (r : Recorder) (steps : List Emission) : Recorder :=
  steps.foldl emit r

/-- Recording changes nothing of what is emitted. -/
theorem emitter_emit (r : Recorder) (s : Emission) : (r.emit s).emitter = r.emitter.emit s := by
  match s with
  | .line l => rfl
  | .point (.direct v) =>
    by_cases h : r.emitter.cursor = some (.direct v) <;>
      simp [emit, pointTo, pointDirect, append, Emitter.emit, Emitter.pointTo, Emitter.pointDirect, h]
  | .point (.deref name) =>
    by_cases h : r.emitter.cursor = some (.deref name)
    · simp [emit, pointTo, Emitter.emit, Emitter.pointTo, h]
    · by_cases h' : r.emitter.cursor = some (.direct (.symbol name)) <;>
        simp [emit, pointTo, pointDirect, append, Emitter.emit, Emitter.pointTo, Emitter.pointDirect, h, h']

theorem emitter_emitAll (r : Recorder) (steps : List Emission) :
    (r.emitAll steps).emitter = r.emitter.emitAll steps := by
  induction steps generalizing r with
  | nil => rfl
  | cons s steps ih => exact (ih (r.emit s)).trans (by rw [emitter_emit]; rfl)

theorem cursors_emit (r : Recorder) (s : Emission) :
    (r.emit s).cursors.toList = r.cursors.toList ++ (s.appends r.emitter.cursor).map (·.1) := by
  match s with
  | .line l => exact Array.toList_push
  | .point (.direct v) =>
    by_cases h : r.emitter.cursor = some (.direct v) <;>
      simp [emit, pointTo, pointDirect, append, Emission.appends, h]
  | .point (.deref name) =>
    by_cases h : r.emitter.cursor = some (.deref name)
    · simp [emit, pointTo, Emission.appends, h]
    · by_cases h' : r.emitter.cursor = some (.direct (.symbol name)) <;>
        simp [emit, pointTo, pointDirect, append, Emitter.append, Emitter.cursorAfter, Line.load, Emission.appends,
          h, h']

/-- What is kept is the cursors before the lines. -/
theorem cursors_emitAll (r : Recorder) (steps : List Emission) :
    (r.emitAll steps).cursors.toList =
      r.cursors.toList ++ (appendsFrom r.emitter.cursor steps).map (·.1) := by
  induction steps generalizing r with
  | nil => exact (List.append_nil _).symm
  | cons s steps ih =>
    have hcursor : (r.emit s).emitter.cursor = s.cursorAfter r.emitter.cursor := by
      rw [emitter_emit, (r.emitter.emit_eq s).2]
    have h := ih (r.emit s)
    rw [cursors_emit, hcursor, List.append_assoc, ← List.map_append] at h
    exact h

end Recorder

/-- The cursors before the lines of commands in a row. -/
def recorded (unit : String) (cmds : List Command) : Recorder :=
  Recorder.emitAll {} (lowerAll unit 0 cmds)

theorem emitter_recorded (unit : String) (cmds : List Command) :
    (recorded unit cmds).emitter = (Context.compileAll { unit } cmds).emitter := by
  rw [Context.emitter_compileAll]
  exact Recorder.emitter_emitAll {} _

/-! ## Invariants of emitting -/

/-- A fact about the cursor and the lines so far that every line keeps, and that a dereferencing load
brings about behind the load of the symbol. -/
structure CursorInvariant (I : Option Target → List Line → Prop) : Prop where
  line : ∀ {cursor ls} (l : Line), I cursor ls → I (Emitter.cursorAfter cursor l) (ls ++ [l])
  deref : ∀ {name ls}, I (some (.direct (.symbol name))) ls →
    I (some (.deref name)) (ls ++ [.assign .toA (.y .m)])

namespace CursorInvariant

variable {I : Option Target → List Line → Prop} {cursor : Option Target} {ls : List Line}

/-- A step keeps the fact, and it holds in front of every line of the step. -/
theorem step (h : CursorInvariant I) (h0 : I cursor ls) (s : Emission) :
    (∀ before c l after, s.appends cursor = before ++ (c, l) :: after → I c (ls ++ before.map (·.2))) ∧
      I (s.cursorAfter cursor) (ls ++ (s.appends cursor).map (·.2)) := by
  have single {c' : Option Target} {l' : Line} (h' : I c' ls) (before : List (Option Target × Line)) (c l after)
      (he : [(c', l')] = before ++ (c, l) :: after) : I c (ls ++ before.map (·.2)) := by
    cases before with
    | nil =>
      cases he
      simpa using h'
    | cons b before => simp at he
  match s with
  | .line l => exact ⟨single h0, h.line l h0⟩
  | .point (.direct v) =>
    simp only [Emission.appends, Emission.cursorAfter]
    split
    · rename_i hc
      exact ⟨by simp, by simpa [hc] using h0⟩
    · exact ⟨single h0, h.line (.load v) h0⟩
  | .point (.deref name) =>
    simp only [Emission.appends, Emission.cursorAfter]
    split
    · rename_i hc
      exact ⟨by simp, by simpa [hc] using h0⟩
    · split
      · rename_i hc
        rw [hc] at h0
        exact ⟨single h0, h.deref h0⟩
      · have h1 := h.line (.load (.symbol name)) h0
        refine ⟨fun before c l after he => ?_, by simpa using h.deref h1⟩
        rcases before with - | ⟨b, - | ⟨b', before⟩⟩
        · cases he
          simpa using h0
        · cases he
          exact h1
        · simp at he

/-- So do any number of steps. -/
theorem steps (h : CursorInvariant I) (steps : List Emission) (h0 : I cursor ls) :
    (∀ before c l after, appendsFrom cursor steps = before ++ (c, l) :: after → I c (ls ++ before.map (·.2))) ∧
      I (cursorFrom cursor steps) (ls ++ linesFrom cursor steps) := by
  induction steps generalizing cursor ls with
  | nil => exact ⟨by simp [appendsFrom], by simpa using h0⟩
  | cons s steps ih =>
    obtain ⟨hs, h1⟩ := h.step h0 s
    obtain ⟨hrest, h2⟩ := ih h1
    refine ⟨fun before c l after he => ?_, by simpa using h2⟩
    rw [appendsFrom] at he
    rcases List.append_eq_append_iff.1 he with ⟨more, rfl, hmore⟩ | ⟨more, hfirst, hmore⟩
    · simpa using hrest more c l after hmore
    · cases more with
      | nil =>
        rw [List.append_nil] at hfirst
        rw [← hfirst]
        simpa using hrest [] c l after hmore.symm
      | cons p more =>
        cases hmore
        exact hs before c l more hfirst

/-- A fact that holds in the beginning holds in front of every line and in the end. -/
theorem start (h : CursorInvariant I) (h0 : I none []) (steps : List Emission) :
    (∀ before c l after, appendsFrom none steps = before ++ (c, l) :: after → I c (before.map (·.2))) ∧
      I (cursorFrom none steps) (linesFrom none steps) := by
  have hsteps := h.steps steps h0
  simpa only [List.nil_append] using hsteps

end CursorInvariant

/-! ## What a cursor says -/

/-- What a cursor says of the registers and the memory. -/
def Describes (place : String → Place) : Option Target → Snapshot → Prop
  | none, _ => True
  | some (.direct (.number n)), s => s.a = .word n
  | some (.direct (.symbol name)), s => s.a = place name
  | some (.deref name), s =>
    ∃ addr v, place name = .word addr ∧ s.a = .word v ∧ (v = s.ram.read addr ∨ v = addr)

/-- A pass that goes on is in a state that the cursor describes. -/
def Knows (place : String → Place) (cursor : Option Target) (f : Pass) : Prop :=
  ∀ s, f = .running s → Describes place cursor s

section

variable {place : String → Place} {cursor : Option Target}

/-- An instruction that keeps the address register changes no other cell than the one under it. -/
theorem compute_frame {s s' : Snapshot} {dest : Dest} (hd : dest.a = false) {comp : Comp} {jump : Jump}
    (hs : s.compute dest comp jump = .running s') :
    s'.a = s.a ∧ ∀ v addr, s.a = .word v → v ≠ addr → s'.ram.read addr = s.ram.read addr := by
  obtain ⟨a, d, ram⟩ := s
  unfold Snapshot.compute at hs
  -- of the ends of an instruction only the one that goes on is possible
  cases a with
  | word a =>
    simp only [hd, Bool.false_eq_true, if_false] at hs
    split at hs
    · cases hs
    · split at hs
      · cases hs
      · cases hs
        refine ⟨rfl, fun v addr hv hne => ?_⟩
        cases hv
        cases hm : dest.m with
        | true => exact Ram.read_write_of_ne hne _
        | false => rfl
  | label name =>
    simp only [hd, Bool.false_eq_true, if_false] at hs
    split at hs
    · cases hs
    · split at hs
      · cases hs
      · cases hs
        exact ⟨rfl, fun v addr hv _ => rfl⟩

/-- So what a cursor says stays true: a dereferenced cell is overwritten only through the register, and
the register holds its address then. -/
theorem Describes.compute {s s' : Snapshot} (h : Describes place cursor s) {dest : Dest} (hd : dest.a = false)
    {comp : Comp} {jump : Jump} (hs : s.compute dest comp jump = .running s') : Describes place cursor s' := by
  obtain ⟨ha, hram⟩ := compute_frame hd hs
  match cursor, h with
  | none, _ => trivial
  | some (.direct (.number n)), h => exact ha.trans h
  | some (.direct (.symbol name)), h => exact ha.trans h
  | some (.deref name), ⟨addr, v, hname, hv, hor⟩ =>
    refine ⟨addr, v, hname, ha.trans hv, ?_⟩
    by_cases he : v = addr
    · exact .inr he
    · rw [hram v addr hv he]
      exact hor

theorem Knows.line {f : Pass} (h : Knows place cursor f) (l : Line) :
    Knows place (Emitter.cursorAfter cursor l) (Pass.step place f l) := by
  intro s hs
  match f, l with
  | .running s', .instr (.load (.number n)) => cases hs; rfl
  | .running s', .instr (.load (.symbol name)) => cases hs; rfl
  | .running s', .instr (.compute dest comp jump) =>
    cases hd : dest.a with
    | true => simp [Emitter.cursorAfter, hd, Describes]
    | false =>
      simp only [Emitter.cursorAfter, hd, Bool.false_eq_true, if_false]
      exact (h s' rfl).compute hd hs
  | f, .label name => trivial
  | .skipping _ _, .instr _ => cases hs
  | .faulted _ _, .instr _ => cases hs
  | .stuck, .instr _ => cases hs

theorem Knows.deref {f : Pass} {name : String} (h : Knows place (some (.direct (.symbol name))) f) :
    Knows place (some (.deref name)) (Pass.step place f (.assign .toA (.y .m))) := by
  intro s hs
  match f with
  | .running ⟨a, d, ram⟩ =>
    have ha : a = place name := h _ rfl
    cases a with
    | label other => cases hs
    | word addr =>
      simp only [Pass.step, Line.assign, Snapshot.compute, Jump.taken_null] at hs
      split at hs
      · cases hs
      · cases hs
        exact ⟨addr, _, ha.symm, rfl, .inl rfl⟩
  | .skipping _ _ => cases hs
  | .faulted _ _ => cases hs
  | .stuck => cases hs

/-- The cursor describes the state of the pass over what has been emitted. -/
theorem knows_invariant (place : String → Place) (f : Pass) :
    CursorInvariant fun cursor ls => Knows place cursor (Pass.run place f ls) where
  line l h := by simpa using h.line l
  deref h := by simpa using h.deref

/-! ## Needless loads -/

/-- Loading what the register holds changes nothing. -/
theorem Knows.step_load {v : Operand} {f : Pass} (h : Knows place (some (.direct v)) f) :
    Pass.step place f (.load v) = f := by
  match f, v with
  | .running ⟨a, d, ram⟩, .number n =>
    have ha : a = .word n := h _ rfl
    rw [ha]; rfl
  | .running ⟨a, d, ram⟩, .symbol name =>
    have ha : a = place name := h _ rfl
    rw [ha]; rfl
  | .skipping _ _, _ => rfl
  | .faulted _ _, _ => rfl
  | .stuck, _ => rfl

theorem Knows.run_appends {f : Pass} (h : Knows place cursor f) {s : Emission} (hs : s.Fresh cursor) :
    Pass.run place f ((s.appends cursor).map (·.2)) = Pass.run place f s.plain := by
  match s with
  | .line l => rfl
  | .point (.direct v) =>
    simp only [Emission.appends]
    split
    · rename_i hc
      rw [hc] at h
      exact h.step_load.symm
    · rfl
  | .point (.deref name) =>
    simp only [Emission.appends, if_neg hs]
    split
    · rename_i hc
      rw [hc] at h
      simp [Emission.plain, h.step_load]
    · rfl

/-- The pass over emitted lines comes to the same end as the pass over the plain lines. -/
theorem Knows.run_linesFrom {f : Pass} (h : Knows place cursor f) {steps : List Emission}
    (hs : FreshFrom cursor steps) : Pass.run place f (linesFrom cursor steps) = exec place f steps := by
  induction steps generalizing cursor f with
  | nil => rfl
  | cons s steps ih =>
    have h0 : Knows place cursor (Pass.run place f []) := h
    have hnext := ((knows_invariant place f).step h0 s).2
    rw [List.nil_append] at hnext
    rw [linesFrom_cons, Pass.run_append, ih hnext hs.2, h.run_appends hs.1]
    exact (Pass.run_append ..).symm

theorem run_linesFrom_lowerAll (f : Pass) (unit : String) (n : Nat) (cmds : List Command) :
    Pass.run place f (linesFrom none (lowerAll unit n cmds)) = exec place f (lowerAll unit n cmds) := by
  have h : Knows place none f := fun _ _ => trivial
  exact h.run_linesFrom (freshFrom_lowerAll none unit n cmds)

end

/-- The symbol that a target mentions. -/
def Target.symbol? : Target → Option String
  | .direct (.number _) => none
  | .direct (.symbol name) => some name
  | .deref name => some name

/-- A symbol that the cursor mentions has been loaded. -/
theorem loaded_invariant : CursorInvariant fun cursor ls =>
    ∀ name, cursor.bind Target.symbol? = some name → Line.load (.symbol name) ∈ ls where
  line {cursor ls} l h name hn := by
    match l, hn with
    | .instr (.load (.symbol _)), hn => cases hn; simp [Line.load]
    | .instr (.compute dest comp jump), hn =>
      simp only [Emitter.cursorAfter] at hn
      split at hn
      · cases hn
      · exact List.mem_append_left _ (h name hn)
  deref h name hn := List.mem_append_left _ (h name hn)

/-! ## Runs -/

/-- What a cursor says of a machine that runs a program. -/
def CursorHolds (p : Program) : Option Target → Machine → Prop
  | none, _ => True
  | some (.direct (.number n)), m => m.a = n
  | some (.direct (.symbol name)), m => p.symbol? name = some m.a
  | some (.deref name), m => ∃ addr, p.symbol? name = some addr ∧ (m.a = m.ram.read addr ∨ m.a = addr)

theorem Describes.cursorHolds {p : Program} {cursor : Option Target} {s : Snapshot} {m : Machine}
    (h : Describes p.place cursor s) (hm : s.Matches p m)
    (hsym : ∀ name, cursor.bind Target.symbol? = some name → ∃ a, p.symbol? name = some a) :
    CursorHolds p cursor m := by
  match cursor, h with
  | none, _ => trivial
  | some (.direct (.number n)), h =>
    rw [CursorHolds, hm.a, (h : s.a = .word n)]
    rfl
  | some (.direct (.symbol name)), h =>
    obtain ⟨a, ha⟩ := hsym name rfl
    rw [CursorHolds, hm.a, (h : s.a = p.place name), Program.address_place ha, ha]
  | some (.deref name), ⟨addr, v, hname, hv, hor⟩ =>
    obtain ⟨a, ha⟩ := hsym name rfl
    have haddr : addr = a := by
      rw [← Program.address_place ha, hname]
      rfl
    have hma : m.a = v := by
      rw [hm.a, hv]
      rfl
    exact ⟨addr, by rw [haddr, ha], by rw [hma, hm.ram]; exact hor⟩

/-- The program of commands, and that the pass over it comes to an end. -/
theorem holds_compileAll {unit : String} (hu : Symbol.isSymbol unit.toList = true) {cmds : List Command}
    {p : Program} (hp : Program.parse (Context.compileAll { unit } cmds).text = .ok p) :
    p.Holds (linesFrom none (lowerAll unit 0 cmds)) := by
  rw [Context.text_compileAll] at hp
  exact holds_of_parse_linesFrom hu hp

theorem settled_linesFrom {unit : String} {cmds : List Command} {p : Program}
    (h : p.Holds (linesFrom none (lowerAll unit 0 cmds))) (a d : UInt16) (ram : Ram) :
    (Pass.run p.place (.running ⟨.word a, d, ram⟩) (linesFrom none (lowerAll unit 0 cmds))).Settled := by
  have hstart : Steady (.running ⟨.word a, d, ram⟩) := ⟨a, rfl⟩
  rw [run_linesFrom_lowerAll]
  exact (steady_lowerAll (places_of_holds h (labels_linesFrom _ _)) hstart).settled

/-- Whenever a run of compiled commands comes to an emitted instruction, what the emitter's cursor said
before that instruction holds; and at the end of the program, what it says in the end. -/
theorem cursorHolds_run {unit : String} (hu : Symbol.isSymbol unit.toList = true) {cmds : List Command}
    {p : Program} (hp : Program.parse (Context.compileAll { unit } cmds).text = .ok p) (a d : UInt16)
    (ram : Ram) (limit : Nat) :
    let e := (Context.compileAll { unit } cmds).emitter
    let m := (p.run limit ⟨a, d, 0, ram⟩).machine
    (recorded unit cmds).emitter = e ∧
    (∀ (i : Nat) (instr : Instr), e.output[i]? = some (.instr instr) →
      m.pc.toNat = Lines.size (e.output.toList.take i) →
      ∃ cursor, (recorded unit cmds).cursors[i]? = some cursor ∧ CursorHolds p cursor m) ∧
    (m.pc.toNat = p.words.size → CursorHolds p e.cursor m) := by
  intro e m
  have h := holds_compileAll hu hp
  have hfollows : p.Follows (linesFrom none (lowerAll unit 0 cmds)) ⟨.word a, d, ram⟩ 0 m :=
    h.follows_run (settled_linesFrom h a d ram) (Program.Holds.follows_start ⟨rfl, rfl, rfl⟩ rfl) limit
  have hknows := (knows_invariant p.place (.running ⟨.word a, d, ram⟩)).start (fun _ _ => trivial)
    (lowerAll unit 0 cmds)
  have hloaded := loaded_invariant.start nofun (lowerAll unit 0 cmds)
  -- the state of the pass in front of a place where the machine is, and what a cursor says of it
  have state {before after : List Line} {cursor : Option Target}
      (hls : linesFrom none (lowerAll unit 0 cmds) = before ++ after) (hc : Lines.startsWithCode after)
      (hpc : m.pc.toNat = Lines.size before)
      (hk : Knows p.place cursor (Pass.run p.place (.running ⟨.word a, d, ram⟩) before))
      (hl : ∀ name, cursor.bind Target.symbol? = some name → Line.load (.symbol name) ∈ before) :
      CursorHolds p cursor m := by
    obtain ⟨s, hr, hm⟩ := hfollows.at_split hls hc hpc
    refine (hk s hr).cursorHolds hm fun name hn => h.symbol?_of_mem ?_
    rw [hls]
    exact List.mem_append_left _ (hl name hn)
  have houtput : e.output.toList = linesFrom none (lowerAll unit 0 cmds) := Context.output_compileAll unit cmds
  refine ⟨emitter_recorded unit cmds, ?_, ?_⟩
  · intro i instr hi hpc
    rw [← Array.getElem?_toList, houtput, linesFrom, List.getElem?_map] at hi
    obtain ⟨⟨cursor, l⟩, hi, rfl⟩ := Option.map_eq_some_iff.1 hi
    refine ⟨cursor, ?_, ?_⟩
    · rw [← Array.getElem?_toList, recorded, Recorder.cursors_emitAll]
      simp [hi]
    · have hsplit := List.take_append_drop i (appendsFrom none (lowerAll unit 0 cmds))
      rw [List.drop_eq_getElem_cons (List.getElem?_eq_some_iff.1 hi).1, (List.getElem?_eq_some_iff.1 hi).2] at hsplit
      have hls := congrArg (List.map (·.2)) hsplit
      rw [List.map_append, List.map_cons] at hls
      refine state hls.symm trivial ?_ (hknows.1 _ _ _ _ hsplit.symm) (hloaded.1 _ _ _ _ hsplit.symm)
      rw [hpc, houtput, linesFrom, List.map_take]
  · intro hpc
    rw [h.size_words] at hpc
    rw [show e.cursor = cursorFrom none (lowerAll unit 0 cmds) from Context.cursor_compileAll unit cmds]
    exact state (List.append_nil _).symm trivial hpc hknows.2 hloaded.2

theorem cursorHolds_run_failedPop : ∃ p,
    Program.parse
      (Context.compileAll { unit := "Main" } [.push .constant 7, .pop .temp 8, .arith .not]).text = .ok p ∧
      ∀ (a d : UInt16) (ram : Ram) (limit : Nat),
        let m := (p.run limit ⟨a, d, 0, ram⟩).machine
        m.pc.toNat = p.words.size → p.symbol? Symbol.sp = some m.a := by
  have hu : Symbol.isSymbol "Main".toList = true := by decide
  obtain ⟨p, hp⟩ : ∃ p, Program.parse
      (Context.compileAll { unit := "Main" } [.push .constant 7, .pop .temp 8, .arith .not]).text = .ok p := by
    rw [Context.text_compileAll]
    exact exists_parse_linesFrom hu (by decide)
  exact ⟨p, hp, fun a d ram limit => (cursorHolds_run hu hp a d ram limit).2.2⟩

end Hack.Codegen
