/-
What a script leaves behind if it does not fail: where it wrote there is the text that it wrote there last, and
all other places are as they were. A script that writes nothing leaves all files as they were and prints its
lines.
-/
import Hack.Proofs.Tool.Files

namespace Hack.Tool

/-! ## Writes -/

/-- The paths and texts that actions write, in order. -/
def writesOf : List Action → List (String × String)
  | [] => []
  | .say _ :: rest => writesOf rest
  | .write path text :: rest => (path, text) :: writesOf rest

theorem writesOf_append (actions more : List Action) : writesOf (actions ++ more) = writesOf actions ++ writesOf more := by
  induction actions with
  | nil => rfl
  | cons a actions ih =>
    cases a with
    | say line => exact ih
    | write path text => exact congrArg (List.cons (path, text)) ih

theorem writesOf_map_say (rows : List String) : writesOf (rows.map .say) = [] := by
  induction rows with
  | nil => rfl
  | cons row rows ih => exact ih

theorem writesOf_flatMap_nil {α : Type} {f : α → List Action} (h : ∀ x, writesOf (f x) = []) (xs : List α) :
    writesOf (xs.flatMap f) = [] := by
  induction xs with
  | nil => rfl
  | cons x xs ih => rw [List.flatMap_cons, writesOf_append, h, ih, List.append_nil]

theorem writesOf_flatMap_singleton {α : Type} {f : α → List Action} {g : α → String × String}
    (h : ∀ x, writesOf (f x) = [g x]) (xs : List α) : writesOf (xs.flatMap f) = xs.map g := by
  induction xs with
  | nil => rfl
  | cons x xs ih => rw [List.flatMap_cons, writesOf_append, h, ih, List.map_cons, List.singleton_append]

theorem writesOf_failing (actions : List Action) (message : String) :
    writesOf (Script.failing actions message).actions = writesOf actions := by
  rw [Script.failing, writesOf_append, writesOf, writesOf, List.append_nil]

/-! ## Lines -/

/-- The lines that actions say, in order. -/
def linesOf : List Action → List String
  | [] => []
  | .say line :: rest => line :: linesOf rest
  | .write _ _ :: rest => linesOf rest

theorem linesOf_append (actions more : List Action) : linesOf (actions ++ more) = linesOf actions ++ linesOf more := by
  induction actions with
  | nil => rfl
  | cons a actions ih =>
    cases a with
    | say line => exact congrArg (List.cons line) ih
    | write path text => exact ih

theorem linesOf_map_say (rows : List String) : linesOf (rows.map .say) = rows := by
  induction rows with
  | nil => rfl
  | cons row rows ih => exact congrArg (List.cons row) ih

theorem linesOf_flatMap {α : Type} (f : α → List Action) (xs : List α) :
    linesOf (xs.flatMap f) = xs.flatMap fun x => linesOf (f x) := by
  induction xs with
  | nil => rfl
  | cons x xs ih => rw [List.flatMap_cons, linesOf_append, ih, List.flatMap_cons]

/-- Actions that write nothing print their lines. -/
theorem perform_of_writesOf_nil {actions : List Action} (h : writesOf actions = []) (f : Files) (exit : UInt32)
    (printed : List String) :
    perform f exit printed actions = ⟨((linesOf actions).map lineText).reverse ++ printed, f, exit⟩ := by
  induction actions generalizing printed with
  | nil => rfl
  | cons a actions ih =>
    cases a with
    | say line =>
      rw [perform, ih h, linesOf, List.map_cons, List.reverse_cons, List.append_assoc, List.singleton_append]
    | write path text => cases h

theorem stdout_of_writesOf_nil {s : Script} (h : writesOf s.actions = []) (f : Files) :
    (s.perform f).stdout = String.join ((linesOf s.actions).map lineText) := by
  rw [Script.perform, perform_of_writesOf_nil h, Outcome.stdout, List.append_nil, List.reverse_reverse]

/-! ## Last writes -/

namespace Files

variable {f g : Files} {place : Location} {writes : List (String × String)} {text : String}

/-- The text that the last one of the writes to a place leaves there. -/
def lastWrite (f : Files) (place : Location) : List (String × String) → Option String
  | [] => none
  | w :: rest => (f.lastWrite place rest).or (if f.locate w.1 = some place then some w.2 else none)

theorem mem_of_lastWrite (h : f.lastWrite place writes = some text) :
    ∃ w ∈ writes, f.locate w.1 = some place ∧ w.2 = text := by
  induction writes with
  | nil => cases h
  | cons w writes ih =>
    rw [lastWrite, Option.or_eq_some_iff] at h
    rcases h with h | ⟨-, h⟩
    · obtain ⟨w', hw', hplace, htext⟩ := ih h
      exact ⟨w', List.mem_cons_of_mem _ hw', hplace, htext⟩
    · split at h
      · rename_i hplace
        exact ⟨w, List.mem_cons_self, hplace, Option.some.inj h⟩
      · cases h

theorem lastWrite_eq_none_iff : f.lastWrite place writes = none ↔ ∀ w ∈ writes, f.locate w.1 ≠ some place := by
  induction writes with
  | nil => simp [lastWrite]
  | cons w writes ih =>
    rw [lastWrite, Option.or_eq_none_iff, ih, List.forall_mem_cons, and_comm]
    split
    · simp [*]
    · simp [*]

theorem lastWrite_congr (h : ∀ path, g.locate path = f.locate path) (place : Location)
    (writes : List (String × String)) : g.lastWrite place writes = f.lastWrite place writes := by
  induction writes with
  | nil => rfl
  | cons w writes ih => rw [lastWrite, lastWrite, ih, h]

/-- What files have become after writes. -/
structure Wrote (f : Files) (writes : List (String × String)) (g : Files) : Prop where
  locate : ∀ path, g.locate path = f.locate path
  target : ∀ w ∈ writes, ∃ place, f.locate w.1 = some place ∧ f.Writable place
  entry : ∀ place, g.entry? place = ((f.lastWrite place writes).map fun text => .file text.toUTF8).or (f.entry? place)

theorem Wrote.nil : f.Wrote [] f :=
  ⟨fun _ => rfl, by simp, fun _ => rfl⟩

theorem Writable.locate_put (h : f.Writable place) (bytes : ByteArray) (path : String) :
    (f.put place (.file bytes)).locate path = f.locate path :=
  locate_congr (h.isDirectory_put bytes) path

theorem Wrote.cons {path : String} (hl : f.locate path = some place) (hp : f.Writable place)
    (h : (f.put place (.file text.toUTF8)).Wrote writes g) : f.Wrote ((path, text) :: writes) g where
  locate path' := (h.locate path').trans (hp.locate_put _ path')
  target := by
    rw [List.forall_mem_cons]
    refine ⟨⟨place, hl, hp⟩, ?_⟩
    intro w hw
    obtain ⟨place', hl', hp'⟩ := h.target w hw
    rw [hp.locate_put] at hl'
    exact ⟨place', hl', (hp.put _).1 hp'⟩
  entry other := by
    rw [h.entry, lastWrite_congr (hp.locate_put _), hp.entry?_put, lastWrite]
    cases f.lastWrite other writes with
    | some last => rfl
    | none =>
      by_cases ho : other = place
      · rw [if_pos ho, if_pos (by rw [hl, ho])]
        rfl
      · rw [if_neg ho, if_neg (by rw [hl, Option.some_inj]; exact Ne.symm ho)]
        rfl

/-- Where a text was written there is that of the last write to the same place. -/
theorem Wrote.read {w : String × String} (h : f.Wrote writes g) (hw : w ∈ writes) :
    ∃ place, f.locate w.1 = some place ∧ f.Writable place ∧ ∃ last ∈ writes, f.locate last.1 = some place ∧
      g.read w.1 = .file last.2.toUTF8 := by
  obtain ⟨place, hl, hp⟩ := h.target w hw
  refine ⟨place, hl, hp, ?_⟩
  cases hlast : f.lastWrite place writes with
  | none => exact absurd hl (lastWrite_eq_none_iff.1 hlast w hw)
  | some text =>
    obtain ⟨last, hmem, hplace, rfl⟩ := mem_of_lastWrite hlast
    refine ⟨last, hmem, hplace, read_of_entry? ((h.locate w.1).trans hl) ?_⟩
    rw [h.entry, hlast]
    rfl

/-- A place that no text was written to is as it was. -/
theorem Wrote.entry_of_ne (h : f.Wrote writes g) (hne : ∀ w ∈ writes, f.locate w.1 ≠ some place) :
    g.entry? place = f.entry? place := by
  rw [h.entry, lastWrite_eq_none_iff.2 hne]
  rfl

/-! ## Single writes -/

/-- Whether a file is at a place, or there is nothing but a file can be made. -/
def Takes (f : Files) (place : Location) : Prop :=
  (∃ bytes, f.entry? place = some (.file bytes)) ∨ (f.entry? place = none ∧ place.head? ≠ root.head?)

theorem Takes.writable (h : f.Takes place) : f.Writable place := by
  rcases h with h | ⟨h, -⟩
  · exact .inr h
  · exact .inl h

theorem Takes.writeAt (h : f.Takes place) (text : String) :
    f.writeAt place text = .ok ⟨f.put place (.file text.toUTF8), ""⟩ := by
  unfold Files.writeAt
  rcases h with ⟨bytes, he⟩ | ⟨he, hroot⟩
  · rw [he]
  · rw [he]
    exact if_neg hroot

/-- Writing either fails or replaces or makes a file. -/
theorem writeAt_ok {w : Written} (hp : f.Ordinary place) (h : f.writeAt place text = .ok w) :
    f.Writable place ∧ w.files = f.put place (.file text.toUTF8) := by
  unfold writeAt at h
  rcases hp with hd | hp
  · unfold isDirectory at hd
    split at hd
    · rename_i he
      rw [he] at h
      cases h
    · cases hd
  · refine ⟨hp, ?_⟩
    rcases hp with he | ⟨bytes, he⟩
    · rw [he] at h
      dsimp only at h
      split at h
      · cases h
      · cases h
        rfl
    · rw [he] at h
      cases h
      rfl

end Files

/-! ## Scripts -/

theorem exit_of_perform {actions : List Action} : ∀ {f : Files} {exit : UInt32} {printed : List String},
    (perform f exit printed actions).exit = 0 → exit = 0 := by
  induction actions with
  | nil => exact fun h => h
  | cons a actions ih =>
    intro f exit printed h
    cases a with
    | say line => exact ih h
    | write path text =>
      unfold perform at h
      split at h
      · exact ih h
      · cases h

/-- A script with a single write, which does not fail. -/
theorem perform_of_writesOf_singleton {actions : List Action} {f : Files} {path text : String} {w : Files.Written}
    (h : writesOf actions = [(path, text)]) (hw : f.write path text = .ok w) : ∀ (exit : UInt32) (printed : List String),
    (perform f exit printed actions).exit = exit ∧ (perform f exit printed actions).files = w.files := by
  induction actions with
  | nil => cases h
  | cons a actions ih =>
    intro exit printed
    cases a with
    | say line => exact ih h exit _
    | write path' text' =>
      obtain ⟨hfirst, hrest⟩ := List.cons.inj h
      cases hfirst
      rw [perform, hw]
      dsimp only
      rw [perform_of_writesOf_nil hrest]
      exact ⟨rfl, rfl⟩

/-- A script that does not fail carries out all of its writes, if none of them goes to a device. -/
theorem wrote_of_perform {actions : List Action} : ∀ {f : Files} {exit : UInt32} {printed : List String},
    (∀ w ∈ writesOf actions, ∀ place, f.locate w.1 = some place → f.Ordinary place) →
    (perform f exit printed actions).exit = 0 → f.Wrote (writesOf actions) (perform f exit printed actions).files := by
  induction actions with
  | nil => exact fun _ _ => .nil
  | cons a actions ih =>
    intro f exit printed hplaces h
    cases a with
    | say line => exact ih hplaces h
    | write path text =>
      rw [writesOf, List.forall_mem_cons] at hplaces
      unfold perform Files.write at h ⊢
      cases hl : f.locate path with
      | none =>
        rw [hl] at h
        cases h
      | some place =>
        rw [hl] at h
        dsimp only at h ⊢
        cases hw : f.writeAt place text with
        | error fault =>
          rw [hw] at h
          cases h
        | ok w =>
          rw [hw] at h
          dsimp only at h ⊢
          obtain ⟨hp, hfiles⟩ := Files.writeAt_ok (hplaces.1 place hl) hw
          rw [hfiles] at h ⊢
          refine .cons hl hp (ih ?_ h)
          -- no directory was made, so the paths of the writes to come lead where they led
          intro w hw place' hl'
          rw [hp.locate_put] at hl'
          exact (hp.ordinary_put _).2 (hplaces.2 w hw place' hl')

end Hack.Tool
