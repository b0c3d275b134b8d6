/-
Leaving out needless loads changes nothing. The emitter's output is that of an emitter without a cursor
less some loads of the address register. The two programs have different lengths, and different
addresses for labels, but both end alike from any state: with the same registers and memory, or with
an access to the same missing cell and the same memory.
-/
import Hack.Proofs.Codegen.Cursor

namespace Hack.Codegen

open Vm

/-! ## Lines that are left out -/

/-- The first lines are the second ones less some loads of the address register. -/
inductive OmitsLoads : List Line → List Line → Prop
  | nil : OmitsLoads [] []
  | keep (l : Line) {ls ms : List Line} (h : OmitsLoads ls ms) : OmitsLoads (l :: ls) (l :: ms)
  | drop (v : Operand) {ls ms : List Line} (h : OmitsLoads ls ms) : OmitsLoads ls (.load v :: ms)

theorem OmitsLoads.refl : ∀ ls, OmitsLoads ls ls
  | [] => .nil
  | l :: ls => .keep l (refl ls)

theorem OmitsLoads.append {ls ms ls' ms' : List Line} (h : OmitsLoads ls ms) (h' : OmitsLoads ls' ms') :
    OmitsLoads (ls ++ ls') (ms ++ ms') := by
  induction h with
  | nil => exact h'
  | keep l _ ih => exact .keep l ih
  | drop v _ ih => exact .drop v ih

/-- What is left out of a step is a load. -/
theorem omitsLoads_appends {cursor : Option Target} {s : Emission} (h : s.Fresh cursor) :
    OmitsLoads ((s.appends cursor).map (·.2)) s.plain := by
  match s with
  | .line l => exact .refl _
  | .point (.direct v) =>
    simp only [Emission.appends]
    split
    · exact .drop v .nil
    · exact .refl _
  | .point (.deref name) =>
    simp only [Emission.appends, if_neg h]
    split
    · exact .drop (.symbol name) (.refl _)
    · exact .refl _

theorem omitsLoads_linesFrom {cursor : Option Target} {steps : List Emission} (h : FreshFrom cursor steps) :
    OmitsLoads (linesFrom cursor steps) (plainLines steps) := by
  induction steps generalizing cursor with
  | nil => exact .nil
  | cons s steps ih =>
    rw [linesFrom_cons, plainLines_cons]
    exact (omitsLoads_appends h.1).append (ih h.2)

/-! ## Variables -/

section

variable {labels : List String} {cursor : Option Target} {ls ms : List Line}

theorem code_concat (ls : List Line) (i : Instr) : Lines.code (ls ++ [.instr i]) = Lines.code ls ++ [i] := by
  rw [Lines.code_append]; rfl

theorem freeSymbols_line (h : freeSymbols labels (Lines.code ls) = freeSymbols labels (Lines.code ms)) (l : Line) :
    freeSymbols labels (Lines.code (ls ++ [l])) = freeSymbols labels (Lines.code (ms ++ [l])) := by
  cases l with
  | instr i => rw [code_concat, code_concat, freeSymbols_congr h]
  | label name => simpa using h

/-- A load that is left out is no first use of a symbol. -/
theorem freeSymbols_omitted (h : freeSymbols labels (Lines.code ls) = freeSymbols labels (Lines.code ms))
    {v : Operand} (hm : ∀ name, v = .symbol name → Line.load (.symbol name) ∈ ls) :
    freeSymbols labels (Lines.code ls) = freeSymbols labels (Lines.code (ms ++ [.load v])) := by
  rw [Line.load, code_concat]
  exact freeSymbols_again h fun name hv => Lines.mem_code.2 (hm name hv)

theorem freeSymbols_appends (h : freeSymbols labels (Lines.code ls) = freeSymbols labels (Lines.code ms))
    (hl : ∀ name, cursor.bind Target.symbol? = some name → Line.load (.symbol name) ∈ ls) {s : Emission}
    (hs : s.Fresh cursor) :
    freeSymbols labels (Lines.code (ls ++ (s.appends cursor).map (·.2))) =
      freeSymbols labels (Lines.code (ms ++ s.plain)) := by
  match s with
  | .line l => exact freeSymbols_line h l
  | .point (.direct v) =>
    simp only [Emission.appends]
    split
    · rename_i hc
      rw [List.map_nil, List.append_nil]
      refine freeSymbols_omitted h fun name hv => hl name ?_
      rw [hc, hv]
      rfl
    · exact freeSymbols_line h _
  | .point (.deref name) =>
    have hsplit (ls : List Line) (l l' : Line) : ls ++ [l, l'] = (ls ++ [l]) ++ [l'] := by simp
    simp only [Emission.appends, if_neg hs, Emission.plain, hsplit]
    split
    · rename_i hc
      refine freeSymbols_line (freeSymbols_omitted h fun name' hv => hl name' ?_) _
      rw [hc, hv]
      rfl
    · simp only [List.map_cons, List.map_nil, List.singleton_append, hsplit]
      exact freeSymbols_line (freeSymbols_line h _) _

/-- Leaving loads out does not change which symbols are variables, nor their order. -/
theorem freeSymbols_linesFrom (h : freeSymbols labels (Lines.code ls) = freeSymbols labels (Lines.code ms))
    (hl : ∀ name, cursor.bind Target.symbol? = some name → Line.load (.symbol name) ∈ ls)
    {steps : List Emission} (hs : FreshFrom cursor steps) :
    freeSymbols labels (Lines.code (ls ++ linesFrom cursor steps)) =
      freeSymbols labels (Lines.code (ms ++ plainLines steps)) := by
  induction steps generalizing cursor ls ms with
  | nil => simpa using h
  | cons s steps ih =>
    rw [linesFrom_cons, plainLines_cons, ← List.append_assoc, ← List.append_assoc]
    exact ih (freeSymbols_appends h hl hs.1) (loaded_invariant.step hl s).2 hs.2

end

theorem variables_linesFrom (unit : String) (n : Nat) (cmds : List Command) :
    Lines.variables (linesFrom none (lowerAll unit n cmds)) = Lines.variables (plainLines (lowerAll unit n cmds)) := by
  unfold Lines.variables
  rw [labels_linesFrom, labels_plainLines]
  have h : freeSymbols (stepLabels (lowerAll unit n cmds)) (Lines.code []) =
    freeSymbols (stepLabels (lowerAll unit n cmds)) (Lines.code []) := rfl
  exact freeSymbols_linesFrom h (by simp) (freshFrom_lowerAll none unit n cmds)

/-! ## Runs -/

/-- Both runs halt with the same registers and memory, or both fail at the same address with the same
memory. -/
def SameEnd (p q : Program) (r t : Program.Run) : Prop :=
  (r.fault = none ∧ t.fault = none ∧ p.halted r.machine = true ∧ q.halted t.machine = true ∧
    r.machine.a = t.machine.a ∧ r.machine.d = t.machine.d ∧ r.machine.ram = t.machine.ram) ∨
  ∃ f g, r.fault = some f ∧ t.fault = some g ∧ f.addr = g.addr ∧ r.machine.ram = t.machine.ram

/-- Runs of two programs that end like one pass end alike, once its address register holds a word. -/
theorem sameEnd_of_endsLike {p q : Program} {r t : Program.Run} {f : Pass} (hf : Steady f)
    (hr : p.EndsLike r f) (ht : q.EndsLike t f) : SameEnd p q r t := by
  match f, hf with
  | .running ⟨_, d, ram⟩, ⟨a, rfl⟩ =>
    obtain ⟨hr1, hr2, hr⟩ := hr
    obtain ⟨ht1, ht2, ht⟩ := ht
    exact .inl ⟨hr1, ht1, hr2, ht2, hr.a.trans ht.a.symm, hr.d.trans ht.d.symm, hr.ram.trans ht.ram.symm⟩
  | .faulted addr s, _ =>
    obtain ⟨⟨f, hf, hfa⟩, hr⟩ := hr
    obtain ⟨⟨g, hg, hga⟩, ht⟩ := ht
    exact .inr ⟨f, g, hf, hg, hfa.trans hga.symm, hr.ram.trans ht.ram.symm⟩

/-- Leaving needless loads out changes nothing: the output is the plain output less some loads of the
address register, and the programs of the two end alike from any state, each as soon as its run may
take as many steps as it has words. -/
theorem output_sameEnd_plain {unit : String} (hu : Symbol.isSymbol unit.toList = true) (cmds : List Command) :
    OmitsLoads (Context.compileAll { unit } cmds).emitter.output.toList (plainLines (lowerAll unit 0 cmds)) ∧
    ∀ p q, Program.parse (Context.compileAll { unit } cmds).text = .ok p →
      Program.parse (Lines.text (plainLines (lowerAll unit 0 cmds))) = .ok q →
      ∀ (a d : UInt16) (ram : Ram) (m n : Nat), p.words.size ≤ m → q.words.size ≤ n →
        SameEnd p q (p.run m ⟨a, d, 0, ram⟩) (q.run n ⟨a, d, 0, ram⟩) := by
  refine ⟨?_, fun p q hp hq a d ram m n hm hn => ?_⟩
  · rw [Context.output_compileAll]
    exact omitsLoads_linesFrom (freshFrom_lowerAll none unit 0 cmds)
  · have hp := holds_compileAll hu hp
    have hq := holds_of_parse_plainLines hu hq
    have hplace : p.place = q.place :=
      hp.place_eq hq (by rw [labels_linesFrom, labels_plainLines]) (variables_linesFrom unit 0 cmds)
    have hstart : Steady (.running ⟨.word a, d, ram⟩) := ⟨a, rfl⟩
    have hend := steady_lowerAll (places_of_holds hq (labels_plainLines _)) hstart
    have hr := hp.endsLike_run (settled_linesFrom hp a d ram) hm
    rw [run_linesFrom_lowerAll, hplace] at hr
    exact sameEnd_of_endsLike hend hr (hq.endsLike_run hend.settled hn)

theorem output_sameEnd_plain_temp : ∃ p q,
    Program.parse (Context.compileAll { unit := "Main" } [.push .temp 0, .pop .temp 8, .arith .not]).text = .ok p ∧
      Program.parse (Lines.text (plainLines (lowerAll "Main" 0 [.push .temp 0, .pop .temp 8, .arith .not]))) = .ok q ∧
      ∀ (a d : UInt16) (ram : Ram),
        SameEnd p q (p.run p.words.size ⟨a, d, 0, ram⟩) (q.run q.words.size ⟨a, d, 0, ram⟩) := by
  have hu : Symbol.isSymbol "Main".toList = true := by decide
  obtain ⟨p, hp⟩ : ∃ p, Program.parse
      (Context.compileAll { unit := "Main" } [.push .temp 0, .pop .temp 8, .arith .not]).text = .ok p := by
    rw [Context.text_compileAll]
    exact exists_parse_linesFrom hu (by decide)
  obtain ⟨q, hq⟩ : ∃ q, Program.parse
      (Lines.text (plainLines (lowerAll "Main" 0 [.push .temp 0, .pop .temp 8, .arith .not]))) = .ok q :=
    exists_parse_plainLines hu (by decide)
  exact ⟨p, q, hp, hq, fun a d ram =>
    (output_sameEnd_plain hu _).2 p q hp hq a d ram _ _ (Nat.le_refl _) (Nat.le_refl _)⟩

end Hack.Codegen
