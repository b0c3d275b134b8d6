/-
Writing files. A text that is written where a file is or could be is found there afterwards, and nothing else
has changed: no other place, and no directory, so that every path still leads where it led. All places above
the one that a path leads to are directories.
-/
import Hack.Tool.Script

namespace Hack.Tool.Files

open Text

variable {f : Files} {place : Location}

/-! ## Entries -/

/-- Replacing the entries of a place that has one. -/
theorem lookup_map_replace (l : List (Location × Entry)) (place : Location) (e : Entry) (other : Location) :
    (l.map fun old => if old.1 = place then (place, e) else old).lookup other =
      if other = place then (l.lookup place).map fun _ => e else l.lookup other := by
  induction l with
  | nil => simp
  | cons old l ih =>
    obtain ⟨first, e'⟩ := old
    rw [List.map_cons]
    by_cases hf : first = place
    · subst hf
      rw [if_pos rfl, List.lookup_cons, List.lookup_cons, List.lookup_cons, ih, BEq.rfl]
      by_cases ho : other = first
      · rw [ho, BEq.rfl, if_pos rfl, if_pos rfl]
        rfl
      · rw [if_neg ho, if_neg ho, beq_eq_false_iff_ne.2 ho]
    · rw [if_neg hf, List.lookup_cons, List.lookup_cons, List.lookup_cons, ih,
        beq_eq_false_iff_ne.2 (Ne.symm hf)]
      by_cases ho : other = place
      · rw [if_pos ho, if_pos ho, ho, beq_eq_false_iff_ne.2 (Ne.symm hf)]
      · rw [if_neg ho, if_neg ho]

theorem lookup_put (f : Files) (place : Location) (e : Entry) (other : Location) :
    (f.put place e).entries.lookup other = if other = place then some e else f.entries.lookup other := by
  unfold put
  by_cases hp : (f.entries.lookup place).isSome = true
  · obtain ⟨old, hold⟩ := Option.isSome_iff_exists.1 hp
    rw [if_pos hp, lookup_map_replace, hold, Option.map_some]
  · rw [if_neg hp]
    show (f.entries ++ [(place, e)]).lookup other = _
    rw [List.lookup_append, List.lookup_cons, List.lookup_nil]
    rw [Bool.not_eq_true, Option.isSome_eq_false_iff, Option.isNone_iff_eq_none] at hp
    by_cases ho : other = place
    · rw [ho, hp, BEq.rfl, if_pos rfl]
      rfl
    · rw [beq_eq_false_iff_ne.2 ho, if_neg ho]
      exact Option.or_none

/-- Whether a file is at a place or could be made there. -/
def Writable (f : Files) (place : Location) : Prop :=
  f.entry? place = none ∨ ∃ bytes, f.entry? place = some (.file bytes)

namespace Writable

theorem not_isAbove (h : f.Writable place) : isAbove place = false := by
  cases ha : isAbove place with
  | false => rfl
  | true =>
    have he : f.entry? place = some .directory := if_pos ha
    rcases h with h | ⟨bytes, h⟩
    · rw [h] at he
      cases he
    · rw [h] at he
      cases he

/-- No file is always there. -/
theorem lookup_standing (h : f.Writable place) : standing.lookup place = none := by
  have hfile : ∀ e ∈ standing, ∀ bytes, e.2 ≠ .file bytes := by
    simp [standing]
  cases hl : standing.lookup place with
  | none => rfl
  | some e =>
    have he : f.entry? place = some e := by
      unfold entry?
      rw [h.not_isAbove, if_neg Bool.false_ne_true, List.lookup_append, hl, Option.some_or]
    rcases h with h | ⟨bytes, h⟩
    · rw [h] at he
      cases he
    · rw [h] at he
      cases he
      obtain ⟨before, after, hs, -⟩ := List.lookup_eq_some_iff.1 hl
      exact absurd rfl (hfile (place, .file bytes) (hs ▸ List.mem_append_right _ List.mem_cons_self) bytes)

theorem entry?_put (h : f.Writable place) (e : Entry) (other : Location) :
    Files.entry? (f.put place e) other = if other = place then some e else f.entry? other := by
  unfold entry?
  by_cases ho : other = place
  · rw [ho, h.not_isAbove, if_neg Bool.false_ne_true, List.lookup_append, h.lookup_standing, lookup_put, if_pos rfl,
      if_pos rfl, Option.none_or]
  · rw [if_neg ho]
    split
    · rfl
    · rw [List.lookup_append, List.lookup_append, lookup_put, if_neg ho]

theorem isDirectory (h : f.Writable place) : f.isDirectory place = false := by
  unfold Files.isDirectory
  rcases h with h | ⟨bytes, h⟩
  · rw [h]
  · rw [h]

/-- A file is put where no directory was. -/
theorem isDirectory_put (h : f.Writable place) (bytes : ByteArray) (other : Location) :
    (f.put place (.file bytes)).isDirectory other = f.isDirectory other := by
  by_cases ho : other = place
  · rw [ho, h.isDirectory, Files.isDirectory, h.entry?_put, if_pos rfl]
  · rw [Files.isDirectory, h.entry?_put, if_neg ho]
    rfl

theorem put {other : Location} (h : f.Writable place) (bytes : ByteArray) :
    (f.put place (.file bytes)).Writable other ↔ f.Writable other := by
  unfold Writable
  rw [h.entry?_put]
  split
  · rename_i ho
    rw [ho]
    exact iff_of_true (.inr ⟨bytes, rfl⟩) h
  · exact Iff.rfl

end Writable

/-- Whether no device is at a place. -/
def Ordinary (f : Files) (place : Location) : Prop :=
  f.isDirectory place = true ∨ f.Writable place

theorem Writable.ordinary_put {other : Location} (h : f.Writable place) (bytes : ByteArray) :
    (f.put place (.file bytes)).Ordinary other ↔ f.Ordinary other := by
  unfold Ordinary
  rw [h.isDirectory_put, h.put]

/-! ## Files and directories -/

def IsPlain : Entry → Prop
  | .file _ | .directory => True
  | _ => False

/-- Whether all entries but those that are always there are files and directories. -/
def Plain (f : Files) : Prop :=
  ∀ e ∈ f.entries, IsPlain e.2

namespace Plain

theorem put (h : f.Plain) {e : Entry} (he : IsPlain e) (place : Location) : (f.put place e).Plain := by
  unfold Files.put
  split
  · intro e' he'
    obtain ⟨old, hold, rfl⟩ := List.mem_map.1 he'
    split
    · exact he
    · exact h old hold
  · intro e' he'
    rcases List.mem_append.1 he' with he' | he'
    · exact h e' he'
    · rw [List.mem_singleton.1 he']
      exact he

theorem putParents (h : f.Plain) (place : Location) : (f.putParents place).Plain := by
  unfold Files.putParents
  induction List.range place.length generalizing f with
  | nil => exact h
  | cons n ns ih =>
    rw [List.foldl_cons]
    split
    · exact ih h
    · exact ih (h.put (e := .directory) trivial _)

theorem add (h : f.Plain) {e : Entry} (he : IsPlain e) (path : String) : (f.add path e).Plain := by
  unfold Files.add
  dsimp only
  split
  · exact h
  · exact (h.putParents _).put he _

/-- Files made of files and directories are plain. -/
theorem ofList {entries : List (String × Entry)} (h : ∀ e ∈ entries, IsPlain e.2) : (ofList entries).Plain := by
  unfold Files.ofList
  have hadd : ∀ f : Files, f.Plain → (entries.foldl (fun f entry => f.add entry.1 entry.2) f).Plain := by
    induction entries with
    | nil => exact fun _ hf => hf
    | cons e entries ih =>
      rw [List.forall_mem_cons] at h
      exact fun f hf => ih h.2 _ (hf.add h.1 e.1)
  exact hadd _ (by simp [Plain])

theorem ordinary (h : f.Plain) (hs : standing.lookup place = none) : f.Ordinary place := by
  unfold Ordinary Files.isDirectory Writable
  cases he : f.entry? place with
  | none => exact .inr (.inl rfl)
  | some e =>
    unfold entry? at he
    split at he
    · cases he
      exact .inl rfl
    · rw [List.lookup_append, hs, Option.none_or] at he
      obtain ⟨before, after, hentries, -⟩ := List.lookup_eq_some_iff.1 he
      have hplain : IsPlain e := h (place, e) (hentries ▸ List.mem_append_right _ List.mem_cons_self)
      cases e with
      | directory => exact .inl rfl
      | file bytes => exact .inr (.inr ⟨bytes, rfl⟩)
      | sink | full | screen => exact hplain.elim

end Plain

/-! ## Paths -/

/-- Where a part of a path leads from a directory. -/
def next (place : Location) (part : String) : Location :=
  if part = "" ∨ part = "." then place else if part = ".." then parent place else place ++ [part]

theorem walk_cons (f : Files) (place : Location) (part : String) (rest : List String) :
    f.walk place (part :: rest) =
      if !f.isDirectory place ∨ nameLimit < part.utf8ByteSize then none else f.walk (next place part) rest := by
  rw [walk, next]
  split
  · rfl
  · split
    · rfl
    · split
      · rfl
      · rfl

/-- A path goes on from directories only. -/
theorem walk_cons_eq_some {start : Location} {part : String} {rest : List String}
    (h : f.walk start (part :: rest) = some place) :
    f.isDirectory start = true ∧ f.walk (next start part) rest = some place := by
  rw [walk_cons] at h
  split at h
  · cases h
  · rename_i hd
    rw [not_or, Bool.not_eq_true', Bool.not_eq_false] at hd
    exact ⟨hd.1, h⟩

theorem walk_append (f : Files) (names more : List String) :
    ∀ place, f.walk place (names ++ more) = (f.walk place names).bind fun dir => f.walk dir more := by
  induction names with
  | nil => exact fun _ => rfl
  | cons part names ih =>
    intro place
    rw [List.cons_append, walk_cons, walk_cons]
    split
    · rfl
    · exact ih _

/-- The last part of a path is looked up in a directory. -/
theorem walk_concat {names : List String} {part : String} {start : Location}
    (h : f.walk start (names ++ [part]) = some place) :
    ∃ dir, f.walk start names = some dir ∧ f.isDirectory dir = true ∧ place = next dir part := by
  rw [walk_append] at h
  obtain ⟨dir, hdir, hlast⟩ := Option.bind_eq_some_iff.1 h
  obtain ⟨hd, hnext⟩ := walk_cons_eq_some hlast
  exact ⟨dir, hdir, hd, (Option.some.inj hnext).symm⟩

theorem walk_congr {g : Files} (h : ∀ place, g.isDirectory place = f.isDirectory place) (names : List String) :
    ∀ place, g.walk place names = f.walk place names := by
  induction names with
  | nil => exact fun _ => rfl
  | cons part names ih =>
    intro place
    rw [walk_cons, walk_cons, h, ih]

/-- Only directories decide where a path leads. -/
theorem locate_congr {g : Files} (h : ∀ place, g.isDirectory place = f.isDirectory place) (path : String) :
    g.locate path = f.locate path := by
  simp only [locate, walk_congr h]

theorem read_of_entry? {path : String} {bytes : ByteArray} (hl : f.locate path = some place)
    (he : f.entry? place = some (.file bytes)) : f.read path = .file bytes := by
  rw [read, hl, Option.bind_some, he]

theorem read_of_isDirectory {path : String} (hl : f.locate path = some place) (hd : f.isDirectory place = true) :
    f.read path = .directory := by
  unfold isDirectory at hd
  split at hd
  · rename_i he
    rw [read, hl, Option.bind_some, he]
  · cases hd

/-- Whether all places above one are directories. -/
def Reached (f : Files) (place : Location) : Prop :=
  ∀ n < place.length, f.isDirectory (place.take n) = true

theorem isDirectory_of_isAbove (h : isAbove place = true) : f.isDirectory place = true := by
  rw [isDirectory, entry?, if_pos h]

theorem isAbove_take (h : isAbove place = true) (n : Nat) : isAbove (place.take n) = true := by
  rw [isAbove, List.all_eq_true] at h ⊢
  exact fun name hn => h name (List.mem_of_mem_take hn)

theorem reached_of_isAbove (h : isAbove place = true) : f.Reached place :=
  fun n _ => isDirectory_of_isAbove (isAbove_take h n)

theorem isAbove_append_up (h : isAbove place = true) : isAbove (place ++ [".."]) = true := by
  rw [isAbove, List.all_append, Bool.and_eq_true]
  exact ⟨h, rfl⟩

theorem Reached.root : f.Reached root := by
  intro n hn
  rw [Nat.lt_one_iff.1 hn]
  exact isDirectory_of_isAbove rfl

theorem Reached.append (h : f.Reached place) (hd : f.isDirectory place = true) (name : String) :
    f.Reached (place ++ [name]) := by
  intro n hn
  rw [List.length_append, List.length_singleton] at hn
  rcases Nat.lt_or_ge n place.length with hlt | hge
  · rw [List.take_append_of_le_length (Nat.le_of_lt hlt)]
    exact h n hlt
  · have heq : n = place.length := by omega
    rw [heq, List.take_left]
    exact hd

theorem Reached.parent (h : f.Reached place) : f.Reached (parent place) := by
  unfold Files.parent
  split
  · rename_i ha
    exact reached_of_isAbove (isAbove_append_up ha)
  · split
    · exact .root
    · intro n hn
      rw [List.length_dropLast] at hn
      rw [List.dropLast_eq_take, List.take_take, Nat.min_eq_left (Nat.le_of_lt hn)]
      exact h n (by omega)

/-- What is above a directory is a directory. -/
theorem Reached.isDirectory_parent (h : f.Reached place) : f.isDirectory (Files.parent place) = true := by
  unfold Files.parent
  split
  · rename_i ha
    exact isDirectory_of_isAbove (isAbove_append_up ha)
  · rename_i ha
    split
    · rfl
    · rw [List.dropLast_eq_take]
      refine h _ ?_
      have hne : place ≠ [] := by
        rintro rfl
        exact ha rfl
      have hpos := List.length_pos_iff.2 hne
      omega

theorem Reached.next (h : f.Reached place) (hd : f.isDirectory place = true) (part : String) :
    f.Reached (next place part) := by
  unfold Files.next
  split
  · exact h
  · split
    · exact h.parent
    · exact h.append hd part

theorem Reached.walk {names : List String} :
    ∀ {start place : Location}, f.Reached start → f.walk start names = some place → f.Reached place := by
  induction names with
  | nil =>
    intro start place h hw
    cases hw
    exact h
  | cons part names ih =>
    intro start place h hw
    obtain ⟨hd, hnext⟩ := walk_cons_eq_some hw
    exact ih (h.next hd part) hnext

/-- Where the last part of a path leads. -/
theorem locate_concat {path : String} {init : List (List Char)} {last : List Char}
    (hs : splitAt '/' path.toList = init ++ [last]) (h : f.locate path = some place) :
    ∃ dir, f.Reached dir ∧ f.isDirectory dir = true ∧ place = next dir (String.ofList last) := by
  unfold locate at h
  split at h
  · cases h
  · rw [parts, hs, List.map_append, List.map_singleton] at h
    obtain ⟨dir, hdir, hd, hplace⟩ := walk_concat h
    refine ⟨dir, Reached.walk ?_ hdir, hd, hplace⟩
    split
    · exact .root
    · exact reached_of_isAbove rfl

end Hack.Tool.Files
