/-
What a new extension does to a path. Only the last part of the path changes, and in it only what follows the
last dot: `dir/Foo.vm` becomes `dir/Foo.asm`. If there is nothing but a dot before that, the part becomes `..`
whatever the extension.
-/
import Hack.Path
import Hack.Proofs.Text.Read

namespace Hack

namespace Path

open Text

/-! ## Names -/

variable {path last : List Char} {init : List (List Char)}

theorem parts_of_splitAt (h : splitAt '/' path = init ++ [last]) (hne : last ≠ []) (hdot : last ≠ ['.']) :
    parts path = init ++ [last] := by
  rw [parts, h, List.reverse_append, List.reverse_singleton, List.singleton_append, List.dropWhile_cons_of_neg,
    List.reverse_cons, List.reverse_reverse]
  rw [decide_eq_true_eq, not_or]
  exact ⟨hne, hdot⟩

theorem name?_of_splitAt (h : splitAt '/' path = init ++ [last]) (hne : last ≠ []) (hdot : last ≠ ['.'])
    (hup : last ≠ ['.', '.']) : name? path = some last := by
  rw [name?, parts_of_splitAt h hne hdot, List.getLast?_concat, Option.filter_some, if_pos (decide_eq_true hup)]

theorem cutExtension_append {stem extension : List Char} (hs : stem ≠ []) (he : '.' ∉ extension) :
    cutExtension (stem ++ '.' :: extension) = (stem, some extension) := by
  rw [cutExtension, cutLast_append he]
  exact if_neg hs

/-- A path with an extension ends in a name that has it. -/
theorem exists_stem (h : splitAt '/' path = init ++ [last]) (hne : last ≠ []) (hdot : last ≠ ['.'])
    {extension : List Char} (he : extension? path = some extension) :
    ∃ stem, stem ≠ [] ∧ '.' ∉ extension ∧ last = stem ++ '.' :: extension ∧ stem? path = some stem := by
  obtain ⟨name, hname, hcut⟩ := Option.bind_eq_some_iff.1 he
  have hlast : name = last := by
    have hfilter := hname
    rw [name?, parts_of_splitAt h hne hdot, List.getLast?_concat] at hfilter
    exact (Option.some.inj (Option.filter_eq_some_iff.1 hfilter).1).symm
  subst hlast
  unfold cutExtension at hcut
  split at hcut
  · rename_i stem ext hc
    split at hcut
    · cases hcut
    · rename_i hs
      cases hcut
      obtain ⟨rfl, hmem⟩ := eq_of_cutLast hc
      refine ⟨stem, hs, hmem, rfl, ?_⟩
      rw [stem?, hname, Option.map_some, cutExtension_append hs hmem]
  · cases hcut

/-! ## A new extension -/

section

variable {stem old : List Char}

/-- Taking off the extension leaves its dot. -/
theorem take_of_splitAt (h : splitAt '/' path = init ++ [stem ++ '.' :: old]) :
    path.take (path.length - old.length) = init.flatMap (· ++ ['/']) ++ (stem ++ ['.']) := by
  have hpath : path = (init.flatMap (· ++ ['/']) ++ (stem ++ ['.'])) ++ old := by
    rw [List.append_assoc, List.append_assoc]
    exact eq_of_splitAt h
  have hlen := congrArg List.length hpath
  rw [List.length_append] at hlen
  have hlen' : path.length - old.length = (init.flatMap (· ++ ['/']) ++ (stem ++ ['.'])).length := by omega
  have htake : path.take (init.flatMap (· ++ ['/']) ++ (stem ++ ['.'])).length =
      ((init.flatMap (· ++ ['/']) ++ (stem ++ ['.'])) ++ old).take
        (init.flatMap (· ++ ['/']) ++ (stem ++ ['.'])).length := congrArg (List.take _) hpath
  rw [hlen', htake, List.take_left]

theorem not_mem_stem (h : splitAt '/' path = init ++ [stem ++ '.' :: old]) : '/' ∉ stem := by
  intro hm
  have hlast : stem ++ '.' :: old ∈ splitAt '/' path := h ▸ List.mem_append_right _ (List.mem_singleton_self _)
  exact not_mem_of_mem_splitAt hlast (List.mem_append_left _ hm)

theorem splitAt_withExtension (h : splitAt '/' path = init ++ [stem ++ '.' :: old]) (hs : stem ≠ [])
    (hdot : stem ≠ ['.']) (he : extension? path = some old) {extension : List Char} (hext : '/' ∉ extension) :
    splitAt '/' (withExtension extension path) = init ++ [stem ++ '.' :: extension] := by
  have hnew : '/' ∉ stem ++ '.' :: extension := by
    simp [not_mem_stem h, hext]
  have hbare : '/' ∉ stem ++ ['.'] := by
    simp [not_mem_stem h]
  have hcut := splitAt_replace h hbare
  have hne : stem ++ ['.'] ≠ [] := List.append_ne_nil_of_right_ne_nil _ (List.cons_ne_nil _ _)
  have hone : stem ++ ['.'] ≠ ['.'] := by simpa using hs
  have htwo : stem ++ ['.'] ≠ ['.', '.'] := by
    intro heq
    exact hdot (List.append_cancel_right (heq : stem ++ ['.'] = ['.'] ++ ['.']))
  have hstem : stem? (init.flatMap (· ++ ['/']) ++ (stem ++ ['.'])) = some stem := by
    rw [stem?, name?_of_splitAt hcut hne hone htwo, Option.map_some,
      cutExtension_append hs (List.not_mem_nil : '.' ∉ ([] : List Char))]
  have hset : withExtension extension path = setExtension extension (init.flatMap (· ++ ['/']) ++ (stem ++ ['.'])) := by
    unfold withExtension
    rw [he]
    show setExtension extension (path.take (path.length - old.length)) = _
    rw [take_of_splitAt h]
  rw [hset]
  unfold setExtension
  rw [hstem]
  show splitAt '/' (List.intercalate ['/'] ((parts _).dropLast ++ [stem ++ '.' :: extension])) = _
  rw [parts_of_splitAt hcut hne hone, List.dropLast_concat, intercalate_concat]
  exact splitAt_replace h hnew

theorem setExtension_of_stem (h : stem? path = none) (extension : List Char) : setExtension extension path = path := by
  unfold setExtension
  rw [h]

/-- Two dots are no name, so nothing is set behind them. -/
theorem splitAt_withExtension_dot (h : splitAt '/' path = init ++ [['.'] ++ '.' :: old])
    (he : extension? path = some old) (extension : List Char) :
    splitAt '/' (withExtension extension path) = init ++ [['.', '.']] := by
  have hup : '/' ∉ ['.', '.'] := by decide
  have hcut := splitAt_replace h hup
  have hstem : stem? (init.flatMap (· ++ ['/']) ++ ['.', '.']) = none := by
    rw [stem?, name?, parts_of_splitAt hcut (by decide) (by decide), List.getLast?_concat]
    rfl
  have hset : withExtension extension path = init.flatMap (· ++ ['/']) ++ ['.', '.'] := by
    unfold withExtension
    rw [he]
    show setExtension extension (path.take (path.length - old.length)) = _
    rw [take_of_splitAt h]
    exact setExtension_of_stem hstem extension
  rw [hset]
  exact hcut

end

end Path

end Hack
