/-
Runs through a part of a program. A machine in front of the part, in the state of a pass, stays within the
part while the pass reads its lines, jumps to labels in the part included, and comes behind it in the state
in which the pass has read the last line, or fails where the pass does. What is true wherever the pass comes
to in the part is true of the machine before each of its steps.
-/
import Hack.Proofs.Machine.Pass

namespace Hack

/-! ## Steps from machines of a kind -/

/-- Steps that lead from one machine to another, each made from a machine of which `P` is true. -/
inductive Program.Walks (p : Program) (P : Machine → Prop) : Machine → Machine → Prop
  | refl (m) : Walks p P m m
  | step {m m' m''} (here : P m) (step : p.step m = .next m') (rest : Walks p P m' m'') : Walks p P m m''

/-- The steps are those of a run. -/
theorem Program.Walks.exists_run {p : Program} {P : Machine → Prop} {m m' : Machine} (h : p.Walks P m m') :
    ∃ steps, p.run steps m = ⟨m', steps, none⟩ ∧ ∀ k < steps, P (p.run k m).machine := by
  induction h with
  | refl m => exact ⟨0, rfl, fun k hk => absurd hk (Nat.not_lt_zero k)⟩
  | @step m m' m'' here hs _ ih =>
    obtain ⟨steps, hrun, hall⟩ := ih
    refine ⟨steps + 1, ?_, fun k hk => ?_⟩
    · rw [run_succ, hs]
      dsimp only
      rw [hrun]
    · cases k with
      | zero => exact here
      | succ k =>
        rw [run_succ, hs]
        exact hall k (Nat.lt_of_succ_lt_succ hk)

/-- What comes of a machine in a part of a program that ends in front of the word `hi`: it leaves the part behind
its last word, or fails in it, in the state of the pass. -/
def Program.Reaches (p : Program) (P : Machine → Prop) (hi : Nat) (m : Machine) : Pass → Prop
  | .running s => ∃ m', p.Walks P m m' ∧ s.Matches p m' ∧ m'.pc.toNat = hi
  | .faulted addr s => ∃ m' f, p.Walks P m m' ∧ P m' ∧ s.Matches p m' ∧ p.step m' = .fault f ∧ f.addr = addr
  | _ => False

theorem Program.Reaches.step {p : Program} {P : Machine → Prop} {hi : Nat} {m m' : Machine} (here : P m)
    (hs : p.step m = .next m') {f : Pass} (h : p.Reaches P hi m' f) : p.Reaches P hi m f := by
  match f, h with
  | .running s, ⟨m'', hwalk, hm, hpc⟩ => exact ⟨m'', .step here hs hwalk, hm, hpc⟩
  | .faulted addr s, ⟨m'', e, hwalk, hlast, hm, he, haddr⟩ =>
    exact ⟨m'', e, .step here hs hwalk, hlast, hm, he, haddr⟩

/-- Where such a machine ends. -/
theorem Program.Reaches.ends {p : Program} {P : Machine → Prop} {hi : Nat} {m : Machine} {f : Pass}
    (h : p.Reaches P hi m f) :
    ∃ m', p.Walks P m m' ∧ (m'.pc.toNat = hi ∨ P m' ∧ ∃ e, p.step m' = .fault e) := by
  match f, h with
  | .running s, ⟨m', hwalk, _, hpc⟩ => exact ⟨m', hwalk, .inl hpc⟩
  | .faulted addr s, ⟨m', e, hwalk, hlast, _, he, _⟩ => exact ⟨m', hwalk, .inr ⟨hlast, e, he⟩⟩

/-! ## Parts of a program -/

/-- Where a machine is while a pass reads a part: in front of the next line, behind `n` words, or at the label
that the pass looks for. -/
def Pass.At (p : Program) (m : Machine) (n : Nat) : Pass → Prop
  | .running s => s.Matches p m ∧ m.pc.toNat = n
  | .skipping name s => s.Matches p m ∧ m.pc = (Place.label name).address p
  | _ => False

/-- In front of every instruction of the part `mid` that a pass comes to, a machine in the state of the pass is
one of which `P` is true. -/
def Program.Everywhere (p : Program) (before mid : List Line) (start : Pass) (P : Machine → Prop) : Prop :=
  ∀ done i rest s m, mid = done ++ .instr i :: rest → Pass.run p.place start done = .running s → s.Matches p m →
    m.pc.toNat = Lines.size (before ++ done) → P m

/-- The counter of such a machine is within the part. -/
theorem Program.everywhere_within (p : Program) (before mid : List Line) (start : Pass) :
    p.Everywhere before mid start fun m =>
      Lines.size before ≤ m.pc.toNat ∧ m.pc.toNat < Lines.size (before ++ mid) := by
  intro done i rest s m hmid _ _ hpc
  rw [hpc, hmid]
  simp only [Lines.size_append, Lines.size_instr]
  omega

theorem Program.Everywhere.and {p : Program} {before mid : List Line} {start : Pass} {P Q : Machine → Prop}
    (hP : p.Everywhere before mid start P) (hQ : p.Everywhere before mid start Q) :
    p.Everywhere before mid start fun m => P m ∧ Q m :=
  fun done i rest s m hmid hs hm hpc => ⟨hP done i rest s m hmid hs hm hpc, hQ done i rest s m hmid hs hm hpc⟩

namespace Program.Holds

variable {p : Program} {before mid after : List Line} {P : Machine → Prop}

/-- In front of an instruction of the part: the machine does what the pass does. -/
theorem reaches_instr (h : p.Holds (before ++ mid ++ after)) {done rest : List Line} {i : Instr}
    (hmid : mid = done ++ .instr i :: rest) {s : Snapshot} {m : Machine} (here : P m) (hm : s.Matches p m)
    (hpc : m.pc.toNat = Lines.size (before ++ done))
    (hf : (Pass.run p.place (.running s) (.instr i :: rest)).Settled)
    (hrest : ∀ m', (Pass.step p.place (.running s) (.instr i)).At p m' (Lines.size (before ++ (done ++ [.instr i]))) →
      (Pass.run p.place (.running s) (.instr i :: rest)).Settled →
      p.Reaches P (Lines.size (before ++ mid)) m' (Pass.run p.place (.running s) (.instr i :: rest))) :
    p.Reaches P (Lines.size (before ++ mid)) m (Pass.run p.place (.running s) (.instr i :: rest)) := by
  have hls : before ++ mid ++ after = (before ++ done) ++ .instr i :: (rest ++ after) := by simp [hmid]
  have hag := h.agrees hls hm hpc
  have hnext : Lines.size (before ++ (done ++ [.instr i])) = Lines.size (before ++ done) + 1 := by simp [Nat.add_assoc]
  rw [Pass.run_cons] at hf ⊢
  rw [hnext, Pass.run_cons] at hrest
  generalize Pass.step p.place (.running s) (.instr i) = f at hag hf hrest
  cases f with
  | running s' =>
    cases hs : p.step m with
    | next m' =>
      rw [hs] at hag
      exact .step here hs (hrest m' hag hf)
    | halted => rw [hs] at hag; cases hag
    | fault e => rw [hs] at hag; cases hag
  | skipping name s' =>
    cases hs : p.step m with
    | next m' =>
      rw [hs] at hag
      exact .step here hs (hrest m' hag hf)
    | halted => rw [hs] at hag; cases hag
    | fault e => rw [hs] at hag; cases hag
  | faulted addr s' =>
    rw [Pass.run_faulted]
    cases hs : p.step m with
    | fault e =>
      rw [hs] at hag
      exact ⟨m, e, .refl m, here, hag.2, hs, hag.1⟩
    | halted => rw [hs] at hag; cases hag
    | next m' => rw [hs] at hag; cases hag
  | stuck =>
    rw [Pass.run_stuck] at hf
    cases hf

/-- Wherever the pass is in the part, the machine comes to the end of the part with it. -/
theorem reaches_of_at (h : p.Holds (before ++ mid ++ after)) {start : Pass}
    (hP : p.Everywhere before mid start P) (rest : List Line) :
    ∀ (done : List Line) (f : Pass) (m : Machine), mid = done ++ rest → Pass.run p.place start done = f →
      f.At p m (Lines.size (before ++ done)) → (Pass.run p.place f rest).Settled →
      p.Reaches P (Lines.size (before ++ mid)) m (Pass.run p.place f rest) := by
  induction rest with
  | nil =>
    intro done f m hmid _ hat hf
    rw [List.append_nil] at hmid
    match f, hat with
    | .running s, ⟨hm, hpc⟩ => exact ⟨m, .refl m, hm, by rw [hpc, hmid]⟩
    | .skipping name s, _ => cases hf
  | cons l rest ih =>
    intro done f m hmid hstart hat hf
    have hmid' : mid = (done ++ [l]) ++ rest := by rw [hmid, List.append_assoc, List.singleton_append]
    have hls : before ++ mid ++ after = (before ++ done) ++ l :: (rest ++ after) := by simp [hmid]
    have hnext : Pass.run p.place start (done ++ [l]) = Pass.step p.place f l := by
      rw [Pass.run_append, hstart, Pass.run_cons, Pass.run_nil]
    have hlabel (name : String) : Lines.size (before ++ (done ++ [.label name])) = Lines.size (before ++ done) := by
      simp
    cases f with
    | running s =>
      obtain ⟨hm, hpc⟩ := hat
      cases l with
      | instr i =>
        exact h.reaches_instr hmid (hP done i rest s m hmid hstart hm hpc) hm hpc hf fun m' =>
          ih (done ++ [.instr i]) _ m' hmid' hnext
      | label name => exact ih (done ++ [.label name]) (.running s) m hmid' hnext ⟨hm, by rw [hpc, hlabel]⟩ hf
    | skipping name s =>
      obtain ⟨hm, hpc⟩ := hat
      cases l with
      | instr i => exact ih (done ++ [.instr i]) (.skipping name s) m hmid' hnext ⟨hm, hpc⟩ hf
      | label other =>
        by_cases he : other = name
        · -- behind the label that it looks for, the pass goes on
          subst he
          have hstep : Pass.step p.place (.skipping other s) (.label other) = .running s := if_pos rfl
          rw [Pass.run_cons, hstep] at hf ⊢
          rw [hstep] at hnext
          exact ih (done ++ [.label other]) (.running s) m hmid' hnext ⟨hm, by rw [hpc, h.toNat_label hls, hlabel]⟩ hf
        · have hstep : Pass.step p.place (.skipping name s) (.label other) = .skipping name s := if_neg he
          rw [Pass.run_cons, hstep] at hf ⊢
          rw [hstep] at hnext
          exact ih (done ++ [.label other]) (.skipping name s) m hmid' hnext ⟨hm, hpc⟩ hf
    | faulted addr s => cases hat
    | stuck => cases hat

/-- A machine in front of a part of a program, in the state of a pass that comes to the end of the part or to a
fault in it, does so too. -/
theorem reaches (h : p.Holds (before ++ mid ++ after)) {s : Snapshot} (hP : p.Everywhere before mid (.running s) P)
    {m : Machine} (hm : s.Matches p m) (hpc : m.pc.toNat = Lines.size before)
    (hf : (Pass.run p.place (.running s) mid).Settled) :
    p.Reaches P (Lines.size (before ++ mid)) m (Pass.run p.place (.running s) mid) :=
  h.reaches_of_at hP mid [] (.running s) m rfl rfl ⟨hm, by rw [hpc, List.append_nil]⟩ hf

end Program.Holds

end Hack
