/-
Programs whose jumps only lead forward run in one pass over their lines. The pass reads every line
once, from the first to the last; after a jump it skips lines until it meets the label. It keeps the
address register as a word or as the name of a label, so that it does not depend on where labels are.

If the pass over the lines of a program ends and is not stuck, a run of the machine follows it: the
machine is always in front of an instruction, or at the end, that the pass has reached with the same
registers and memory; every step moves the counter forward; and the run halts if the pass comes to
the end, and fails with the same address and memory if the pass does.
-/
import Hack.Proofs.Machine.Load
import Hack.Proofs.Machine.Run

namespace Hack

/-! ## The pass -/

/-- What the address register holds: a word, or the place of a label. -/
inductive Place
  | word (v : UInt16)
  | label (name : String)
  deriving DecidableEq, Repr

/-- Registers and memory between two lines. -/
structure Snapshot where
  a : Place
  d : UInt16
  ram : Ram

inductive Pass
  /-- Goes on with the next line. -/
  | running (s : Snapshot)
  /-- Has jumped to a label that is still to come. -/
  | skipping (name : String) (s : Snapshot)
  /-- Has met an access to a cell that does not exist. -/
  | faulted (addr : UInt16) (s : Snapshot)
  /-- Has jumped to a word, or used the place of a label as a word. -/
  | stuck

/-- A computing instruction. -/
def Snapshot.compute (s : Snapshot) (dest : Dest) (comp : Comp) (jump : Jump) : Pass :=
  match s.a with
  | .word a =>
    if (comp.readsMemory || dest.m) && !(a.toNat < ramSize) then .faulted a s
    else
      let out := comp.eval a s.d (s.ram.read a)
      if jump.taken out then .stuck
      else .running ⟨.word (if dest.a then out else a), if dest.d then out else s.d,
        if dest.m then s.ram.write a out else s.ram⟩
  | .label name =>
    if comp.input?.isSome || dest.m then .stuck
    else
      let out := comp.eval 0 s.d 0
      let next := ⟨if dest.a then .word out else .label name, if dest.d then out else s.d, s.ram⟩
      if jump.taken out then .skipping name next else .running next

namespace Pass

/-- One line; `place` says what loading a symbol puts into the address register. -/
def step (place : String → Place) : Pass → Line → Pass
  | .running s, .instr (.load (.number n)) => .running { s with a := .word n }
  | .running s, .instr (.load (.symbol name)) => .running { s with a := place name }
  | .running s, .instr (.compute dest comp jump) => s.compute dest comp jump
  | .running s, .label _ => .running s
  | .skipping name s, .label other => if other = name then .running s else .skipping name s
  | f, _ => f

def run (place : String → Place) (f : Pass) (ls : List Line) : Pass :=
  ls.foldl (step place) f

/-- Whether a pass has come to the end, or to a fault on the way. -/
def Settled : Pass → Prop
  | .running _ | .faulted _ _ => True
  | .skipping _ _ | .stuck => False

variable {place : String → Place}

@[simp] theorem run_nil (f : Pass) : run place f [] = f := rfl

@[simp] theorem run_cons (f : Pass) (l : Line) (ls : List Line) :
    run place f (l :: ls) = run place (step place f l) ls := rfl

@[simp] theorem run_append (f : Pass) (ls ms : List Line) :
    run place f (ls ++ ms) = run place (run place f ls) ms :=
  List.foldl_append

@[simp] theorem run_faulted (addr : UInt16) (s : Snapshot) (ls : List Line) :
    run place (.faulted addr s) ls = .faulted addr s := by
  induction ls with
  | nil => rfl
  | cons l ls ih => exact ih

@[simp] theorem run_stuck (ls : List Line) : run place .stuck ls = .stuck := by
  induction ls with
  | nil => rfl
  | cons l ls ih => exact ih

/-- Lines without the label are skipped. -/
theorem run_skipping {name : String} (s : Snapshot) {ls : List Line} (h : name ∉ Lines.labels ls) :
    run place (.skipping name s) ls = .skipping name s := by
  induction ls with
  | nil => rfl
  | cons l ls ih =>
    cases l with
    | instr i => exact ih h
    | label other =>
      simp only [Lines.labels_label, List.mem_cons, not_or] at h
      rw [run_cons, step, if_neg (Ne.symm h.1), ih h.2]

end Pass

/-! ## Programs and their passes -/

/-- The address at a place of a program. -/
def Place.address (p : Program) : Place → UInt16
  | .word v => v
  | .label name => (p.labels[name]?).getD 0

/-- What loading a symbol of a program puts into the address register. -/
def Program.place (p : Program) (name : String) : Place :=
  match Symbol.predefined? name with
  | some a => .word a
  | none => if name ∈ p.labels then .label name else .word ((p.vars.addresses[name]?).getD 0)

theorem Program.address_place {p : Program} {name : String} {a : UInt16} (h : p.symbol? name = some a) :
    (p.place name).address p = a := by
  unfold Program.symbol? symbolAddress? at h
  unfold Program.place
  cases hp : Symbol.predefined? name with
  | some b => rw [hp] at h; simpa [Place.address] using h
  | none =>
    cases hl : p.labels[name]? with
    | some b =>
      have hm : name ∈ p.labels := Std.HashMap.mem_iff_isSome_getElem?.2 (by rw [hl]; rfl)
      rw [hp, hl] at h
      have : b = a := by simpa using h
      simp only [hm, if_true, Place.address, hl, Option.getD_some, this]
    | none =>
      have hm : name ∉ p.labels := fun hm => by
        have := Std.HashMap.mem_iff_isSome_getElem?.1 hm
        rw [hl] at this; cases this
      rw [hp, hl] at h
      have : p.vars.addresses[name]? = some a := by simpa using h
      simp [Place.address, hm, this]

/-- Lines with the same labels and variables give symbols the same places, wherever the labels are. -/
theorem Program.Holds.place_eq {p q : Program} {ls ms : List Line} (hp : p.Holds ls) (hq : q.Holds ms)
    (hl : Lines.labels ls = Lines.labels ms) (hv : Lines.variables ls = Lines.variables ms) :
    p.place = q.place := by
  funext name
  have hlabel : name ∈ p.labels ↔ name ∈ q.labels := by
    rw [hp.mem_labels, hq.mem_labels, hl]
  have hvar : p.vars.addresses[name]? = q.vars.addresses[name]? := by
    refine Option.ext fun a => ?_
    rw [hp.vars.address, hq.vars.address, hv]
  simp only [Program.place, hlabel, hvar]

/-- A machine is in the state of a snapshot, wherever its counter is. -/
structure Snapshot.Matches (p : Program) (s : Snapshot) (m : Machine) : Prop where
  a : m.a = s.a.address p
  d : m.d = s.d
  ram : m.ram = s.ram

/-- What a step of the machine `m` does is what the pass does, `next` being the following address. -/
def Pass.Agrees (p : Program) (m : Machine) (next : Nat) : Pass → Program.Step → Prop
  | .running s, .next m' => s.Matches p m' ∧ m'.pc.toNat = next
  | .skipping name s, .next m' => s.Matches p m' ∧ m'.pc = (Place.label name).address p
  | .faulted addr s, .fault f => f.addr = addr ∧ s.Matches p m
  | .stuck, _ => True
  | _, _ => False

theorem Comp.eval_of_input?_none {c : Comp} (h : c.input? = none) (a d m : UInt16) :
    c.eval a d m = c.eval 0 d 0 := by
  cases c <;> simp_all [Comp.input?, Comp.eval]

theorem Comp.not_readsMemory_of_input?_none {c : Comp} (h : c.input? = none) : c.readsMemory = false := by
  simp [Comp.readsMemory, h]

namespace Program.Holds

variable {p : Program} {ls : List Line}

theorem size_words (h : p.Holds ls) : p.words.size = Lines.size ls := by
  have := congrArg List.length h.words
  simpa [Lines.size] using this

theorem size_code (h : p.Holds ls) : p.code.size = Lines.size ls := by
  rw [← Array.length_toList, h.code]
  rfl

/-- The word of an instruction stands at the number of instructions before it. -/
theorem word_at (h : p.Holds ls) {before after : List Line} {i : Instr}
    (hls : ls = before ++ .instr i :: after) :
    ∃ w, p.words[Lines.size before]? = some w ∧ i.word? p.symbol? = some w := by
  have hw := congrArg (·[Lines.size before]?) h.words
  subst hls
  simp only [List.getElem?_map, Lines.code_append, Lines.code_instr, Lines.size,
    List.getElem?_append_right (Nat.le_refl _), Nat.sub_self, List.getElem?_cons_zero, Option.map_some] at hw
  obtain ⟨w, hw, he⟩ := Option.map_eq_some_iff.1 hw
  exact ⟨w, by rw [← hw, Array.getElem?_toList]; rfl, he.symm⟩

/-- Every symbol that an instruction loads has an address. -/
theorem symbol?_of_mem (h : p.Holds ls) {name : String} (hm : .load (.symbol name) ∈ ls) :
    ∃ a, p.symbol? name = some a := by
  obtain ⟨before, after, hls⟩ := List.append_of_mem hm
  obtain ⟨w, -, hw⟩ := h.word_at (i := .load (.symbol name)) hls
  obtain ⟨a, ha, -⟩ := Option.map_eq_some_iff.1 hw
  exact ⟨a, ha⟩

/-- The number of words before a line fits into a word. -/
theorem size_lt (h : p.Holds ls) {before after : List Line} {l : Line} (hls : ls = before ++ l :: after) :
    Lines.size before < 65536 := by
  have hsize := h.size_le
  rw [hls, Lines.size_append] at hsize
  simp only [romSize] at hsize
  omega

/-- The place of a label is the number of words before it. -/
theorem toNat_label (h : p.Holds ls) {before after : List Line} {name : String}
    (hls : ls = before ++ .label name :: after) : ((Place.label name).address p).toNat = Lines.size before := by
  rw [Place.address, (h.label name _).2 ⟨before, after, hls, rfl⟩, Option.getD_some]
  exact UInt16.toNat_ofNat_of_lt' (h.size_lt hls)

/-- The counter does not overflow within a program. -/
theorem toNat_succ {pc : UInt16} {n : Nat} (hpc : pc.toNat = n) (hn : n < romSize) :
    (pc + 1).toNat = n + 1 := by
  have h1 : (1 : UInt16).toNat = 1 := rfl
  have h2 : romSize = 32768 := rfl
  rw [UInt16.toNat_add, hpc, h1]; omega

/-- A computing step of the machine and of the pass. -/
theorem agrees_compute {s : Snapshot} {m : Machine} {n : Nat} (hm : s.Matches p m) (hpc : m.pc.toNat = n)
    (hn : n < romSize) {dest : Dest} {comp : Comp} {jump : Jump}
    (hw : p.words[m.pc.toNat]? = some (.compute dest comp jump)) :
    (s.compute dest comp jump).Agrees p m (n + 1) (p.step m) := by
  have hnext := toNat_succ hpc hn
  obtain ⟨a, d, pc, ram⟩ := m
  obtain ⟨place, d', ram'⟩ := s
  obtain ⟨ha, hd, hr⟩ := hm
  unfold Snapshot.compute Program.step
  rw [hw]
  cases place with
  | word a' =>
    -- the same cell on both sides
    simp only [Place.address] at ha hd hr
    subst ha hd hr
    simp only [Machine.fault?, Word.touchesMemory, Machine.exec]
    by_cases hf : ((comp.readsMemory || dest.m) && !decide (a.toNat < ramSize)) = true
    · simp only [hf, if_true]
      exact ⟨rfl, rfl, rfl, rfl⟩
    · simp only [hf, Bool.false_eq_true, if_false]
      split
      · trivial
      · rename_i hj
        exact ⟨⟨by cases dest.a <;> rfl, rfl, rfl⟩, by simpa [hj] using hnext⟩
  | label name =>
    -- memory is not touched, and a jump goes to the label
    simp only at ha hd hr ⊢
    subst hd hr
    split
    · trivial
    · rename_i hc
      simp only [Bool.or_eq_true, not_or, Bool.not_eq_true, Option.isSome_eq_false_iff,
        Option.isNone_iff_eq_none] at hc
      have hev := Comp.eval_of_input?_none hc.1
      simp only [Machine.fault?, Word.touchesMemory, Comp.not_readsMemory_of_input?_none hc.1, hc.2,
        Bool.or_self, Bool.false_and, Bool.false_eq_true, if_false, Machine.exec, hev a d (ram.read a)]
      split
      · exact ⟨⟨by cases dest.a <;> simp [ha, Place.address], rfl, rfl⟩, ha⟩
      · exact ⟨⟨by cases dest.a <;> simp [ha, Place.address], rfl, rfl⟩, hnext⟩

/-- In front of an instruction, the machine does what the pass does. -/
theorem agrees (h : p.Holds ls) {before after : List Line} {i : Instr}
    (hls : ls = before ++ .instr i :: after) {s : Snapshot} {m : Machine} (hm : s.Matches p m)
    (hpc : m.pc.toNat = Lines.size before) :
    (Pass.step p.place (.running s) (.instr i)).Agrees p m (Lines.size before + 1) (p.step m) := by
  obtain ⟨w, hw, hi⟩ := h.word_at hls
  have hn : Lines.size before < romSize := by
    have := h.size_le
    rw [hls] at this
    simp at this; omega
  have hnext := toNat_succ hpc hn
  rw [← hpc] at hw
  match i, hi with
  | .compute dest comp jump, hi =>
    cases hi
    exact agrees_compute hm hpc hn hw
  | .load (.number n), hi =>
    cases hi
    simp only [Pass.step, Program.step, hw, Machine.fault?, Word.touchesMemory, Bool.false_and,
      Bool.false_eq_true, if_false, Machine.exec]
    exact ⟨⟨rfl, hm.d, hm.ram⟩, hnext⟩
  | .load (.symbol name), hi =>
    obtain ⟨a, ha, rfl⟩ := Option.map_eq_some_iff.1 hi
    simp only [Pass.step, Program.step, hw, Machine.fault?, Word.touchesMemory, Bool.false_and,
      Bool.false_eq_true, if_false, Machine.exec]
    exact ⟨⟨(Program.address_place ha).symm, hm.d, hm.ram⟩, hnext⟩

end Program.Holds

/-! ## Runs follow the pass -/

/-- Whether lines are empty or start with an instruction. -/
def Lines.startsWithCode : List Line → Prop
  | .label _ :: _ => False
  | _ => True

theorem Lines.size_pos {ls more : List Line} (h : startsWithCode (ls ++ more)) (hne : ls ≠ []) :
    0 < size ls := by
  match ls, hne with
  | .instr i :: ls, _ => simp
  | .label name :: ls, _ => cases h

/-- Lines split in front of an instruction, or at the end, after a number of words in one way only. -/
theorem Lines.eq_of_size_eq {before before' after after' : List Line}
    (h : before ++ after = before' ++ after') (hc : startsWithCode after) (hc' : startsWithCode after')
    (hs : size before = size before') : before = before' := by
  rcases List.append_eq_append_iff.1 h with ⟨more, rfl, rfl⟩ | ⟨more, rfl, rfl⟩
  · by_cases hne : more = []
    · simp [hne]
    · have := size_pos hc hne
      simp at hs; omega
  · by_cases hne : more = []
    · simp [hne]
    · have := size_pos hc' hne
      simp at hs; omega

/-- The machine is in front of an instruction, or at the end, where the pass has come to in the same
state, with at least `n` words behind. -/
def Program.Follows (p : Program) (ls : List Line) (start : Snapshot) (n : Nat) (m : Machine) : Prop :=
  ∃ before after s, ls = before ++ after ∧ Lines.startsWithCode after ∧
    Pass.run p.place (.running start) before = .running s ∧ s.Matches p m ∧
    m.pc.toNat = Lines.size before ∧ n ≤ Lines.size before

namespace Program.Follows

variable {p : Program} {ls : List Line} {start : Snapshot} {n : Nat} {m : Machine}

theorem mono {n' : Nat} (h : p.Follows ls start n m) (hn : n' ≤ n) : p.Follows ls start n' m := by
  obtain ⟨before, after, s, h1, h2, h3, h4, h5, h6⟩ := h
  exact ⟨before, after, s, h1, h2, h3, h4, h5, Nat.le_trans hn h6⟩

/-- The machine in front of an instruction, or at the end, is in the state of the pass there. -/
theorem at_split (h : p.Follows ls start n m) {before after : List Line} (hls : ls = before ++ after)
    (hc : Lines.startsWithCode after) (hpc : m.pc.toNat = Lines.size before) :
    ∃ s, Pass.run p.place (.running start) before = .running s ∧ s.Matches p m := by
  obtain ⟨before', after', s, hls', hc', hr, hm, hpc', -⟩ := h
  obtain rfl := Lines.eq_of_size_eq (hls.symm.trans hls') hc hc' (by omega)
  exact ⟨s, hr, hm⟩

end Program.Follows

/-- How a run ends: at the end of the program in the state of the pass, or with the fault of the pass. -/
def Program.EndsLike (p : Program) (r : Program.Run) : Pass → Prop
  | .running s => r.fault = none ∧ p.halted r.machine = true ∧ s.Matches p r.machine
  | .faulted addr s => (∃ f, r.fault = some f ∧ f.addr = addr) ∧ s.Matches p r.machine
  | _ => False

namespace Program.Holds

variable {p : Program} {ls : List Line} {start s : Snapshot} {m : Machine}

/-- Labels in front of the next instruction change nothing. -/
theorem settle_running (ls : List Line) (start : Snapshot) (hm : s.Matches p m) :
    ∀ (after before : List Line), ls = before ++ after →
    Pass.run p.place (.running start) before = .running s → m.pc.toNat = Lines.size before →
    p.Follows ls start (Lines.size before) m
  | [], before, hls, hr, hpc => ⟨before, [], s, hls, trivial, hr, hm, hpc, Nat.le_refl _⟩
  | .instr i :: after, before, hls, hr, hpc =>
    ⟨before, .instr i :: after, s, hls, trivial, hr, hm, hpc, Nat.le_refl _⟩
  | .label name :: after, before, hls, hr, hpc => by
    have := settle_running ls start hm after (before ++ [.label name]) (by simp [hls]) (by simp [hr, Pass.step])
      (by simp [hpc])
    simpa using this

/-- After a jump, the machine is where the pass goes on behind the label. -/
theorem settle_skipping (h : p.Holds ls) {name : String} (hm : s.Matches p m)
    (hpc : m.pc = (Place.label name).address p)
    (hf : (Pass.run p.place (.running start) ls).Settled) : ∀ (after before : List Line),
    ls = before ++ after → Pass.run p.place (.running start) before = .skipping name s →
    p.Follows ls start (Lines.size before) m
  | [], before, hls, hr => by
    rw [hls, List.append_nil, hr] at hf
    cases hf
  | .instr i :: after, before, hls, hr => by
    obtain ⟨b, a, t, h1, h2, h3, h4, h5, h6⟩ := settle_skipping h hm hpc hf after (before ++ [.instr i])
      (by simp [hls]) (by simp [hr, Pass.step])
    exact ⟨b, a, t, h1, h2, h3, h4, h5, Nat.le_trans (by simp) h6⟩
  | .label other :: after, before, hls, hr => by
    by_cases he : other = name
    · subst he
      have := settle_running ls start hm after (before ++ [.label other]) (by simp [hls])
        (by simp [hr, Pass.step]) (by simp [hpc, h.toNat_label hls])
      simpa using this
    · have := settle_skipping h hm hpc hf after (before ++ [.label other]) (by simp [hls])
        (by simp [hr, Pass.step, he])
      simpa using this

/-- A machine that follows the pass halts where the pass ends, fails where it faults, or goes on
following it further down. -/
theorem follows_step (h : p.Holds ls) (hf : (Pass.run p.place (.running start) ls).Settled) {n : Nat}
    (hm : p.Follows ls start n m) :
    (p.step m = .halted ∧ ∃ s, Pass.run p.place (.running start) ls = .running s ∧ s.Matches p m) ∨
    (∃ f s, p.step m = .fault f ∧ Pass.run p.place (.running start) ls = .faulted f.addr s ∧ s.Matches p m) ∨
    ∃ m', p.step m = .next m' ∧ p.Follows ls start (m.pc.toNat + 1) m' := by
  obtain ⟨before, after, s, hls, hcode, hr, hm, hpc, -⟩ := hm
  match after, hcode with
  | [], _ =>
    -- behind the last word
    rw [List.append_nil] at hls
    have hw : p.words[m.pc.toNat]? = none := by simp [hpc, h.size_words, hls]
    exact .inl ⟨by rw [Program.step, hw], s, by rw [hls]; exact hr, hm⟩
  | .instr i :: after, _ =>
    have hag := h.agrees hls hm hpc
    have hls' : ls = (before ++ [.instr i]) ++ after := by simp [hls]
    have hr' : Pass.run p.place (.running start) (before ++ [.instr i]) =
        Pass.step p.place (.running s) (.instr i) := by simp [hr]
    rw [hpc]
    -- what the pass does with the line against what the machine does with the word
    cases hF : Pass.step p.place (.running s) (.instr i) <;> cases hS : p.step m <;> rw [hF, hS] at hag <;>
      simp only [Pass.Agrees] at hag
    case running.next s' m' =>
      have := settle_running ls start hag.1 after _ hls' (hr'.trans hF) (by simp [hag.2])
      exact .inr (.inr ⟨m', rfl, by simpa using this⟩)
    case skipping.next name s' m' =>
      have := h.settle_skipping hag.1 hag.2 hf after _ hls' (hr'.trans hF)
      exact .inr (.inr ⟨m', rfl, by simpa using this⟩)
    case faulted.fault addr s' f =>
      refine .inr (.inl ⟨f, s', rfl, ?_, hag.2⟩)
      rw [hls', Pass.run_append, hr', hF, Pass.run_faulted, hag.1]
    -- a pass that is stuck stays so to the end
    all_goals
      rw [hls', Pass.run_append, hr', hF, Pass.run_stuck] at hf
      cases hf

theorem follows_start (h : s.Matches p m) (hpc : m.pc = 0) : p.Follows ls s 0 m := by
  have := settle_running ls s h ls [] rfl rfl (by simp [hpc])
  simpa using this

/-- Wherever a run is, it follows the pass. -/
theorem follows_run (h : p.Holds ls) (hf : (Pass.run p.place (.running start) ls).Settled)
    (hm : p.Follows ls start 0 m) (limit : Nat) : p.Follows ls start 0 (p.run limit m).machine := by
  refine runFrom_invariant (fun m m' hm hs => ?_) limit 0 m hm
  rcases h.follows_step hf hm with ⟨h1, -⟩ | ⟨f, s, h1, -⟩ | ⟨m'', h1, h2⟩
  · rw [hs] at h1; cases h1
  · rw [hs] at h1; cases h1
  · rw [hs] at h1; cases h1
    exact h2.mono (Nat.zero_le _)

/-- A run with as many steps as the program has words ends like the pass. -/
theorem endsLike_runFrom (h : p.Holds ls) (hf : (Pass.run p.place (.running start) ls).Settled) (limit : Nat) :
    ∀ (steps n : Nat) (m : Machine), p.Follows ls start n m → p.words.size ≤ m.pc.toNat + limit →
      p.EndsLike (p.runFrom steps limit m) (Pass.run p.place (.running start) ls) := by
  -- the counter grows with every step, so the words that are left decrease with the limit
  induction limit with
  | zero =>
    intro steps n m hm hlim
    have hhalt : p.halted m = true := by simpa [Program.halted] using hlim
    have hnone : p.words[m.pc.toNat]? = none := Array.getElem?_eq_none (by simpa using hlim)
    rcases h.follows_step hf hm with ⟨-, s, h1, h2⟩ | ⟨f, s, h1, -⟩ | ⟨m', h1, -⟩
    · rw [h1]; exact ⟨rfl, hhalt, h2⟩
    · rw [Program.step, hnone] at h1; cases h1
    · rw [Program.step, hnone] at h1; cases h1
  | succ limit ih =>
    intro steps n m hm hlim
    rw [runFrom_succ]
    rcases h.follows_step hf hm with ⟨hs, s, h1, h2⟩ | ⟨f, s, hs, h1, h2⟩ | ⟨m', hs, hm'⟩
    · rw [hs, h1]
      refine ⟨rfl, ?_, h2⟩
      rw [Program.step] at hs
      cases hw : p.words[m.pc.toNat]? with
      | none => simpa [Program.halted] using hw
      | some w => rw [hw] at hs; cases hfa : m.fault? w <;> simp [hfa] at hs
    · rw [hs, h1]
      exact ⟨⟨f, rfl, rfl⟩, h2⟩
    · rw [hs]
      have hlt : m.pc.toNat + 1 ≤ m'.pc.toNat := by
        obtain ⟨before, after, s, -, -, -, -, h5, h6⟩ := hm'
        omega
      exact ih (steps + 1) _ m' hm' (by omega)

/-- The run of a program from its start ends like its pass. -/
theorem endsLike_run (h : p.Holds ls) {a d : UInt16} {ram : Ram} {limit : Nat}
    (hf : (Pass.run p.place (.running ⟨.word a, d, ram⟩) ls).Settled) (hlim : p.words.size ≤ limit) :
    p.EndsLike (p.run limit ⟨a, d, 0, ram⟩) (Pass.run p.place (.running ⟨.word a, d, ram⟩) ls) :=
  h.endsLike_runFrom hf limit 0 0 _ (follows_start ⟨rfl, rfl, rfl⟩ rfl) (by omega)

end Program.Holds

end Hack
