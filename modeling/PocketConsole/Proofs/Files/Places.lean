import PocketConsole.Files.Tree
import PocketConsole.Proofs.Text.Pieces

namespace PocketConsole.FileTree

/-- Where a name leads from a place, if it leads anywhere. -/
def follow (place : FilePlace) (name : String) : FilePlace :=
  if name = "" ∨ name = "." then place
  else if name = ".." then place.dropLast
  else place ++ [name]

/-- The place that a path names, whatever stands there and on the way. -/
def placeOf (t : FileTree) (path : String) : FilePlace :=
  (names path).foldl follow (t.start path)

variable {t : FileTree}

theorem eq_follow_of_step {place next : FilePlace} {name : String} (stepped : t.step place name = .ok next) :
    next = follow place name := by
  unfold step at stepped
  unfold follow
  split at stepped
  · cases stepped
  · cases stepped
  · split at stepped
    · rename_i here
      cases stepped
      rw [if_pos here]
    · rename_i away
      rw [if_neg away]
      split at stepped
      · rename_i up
        cases stepped
        rw [if_pos up]
      · rename_i down
        rw [if_neg down]
        split at stepped
        · cases stepped
        · cases stepped
          rfl

theorem eq_foldl_follow_of_foldlM {names : List String} {place last : FilePlace}
    (led : names.foldlM t.step place = .ok last) : last = names.foldl follow place := by
  induction names generalizing place with
  | nil =>
    cases led
    rfl
  | cons name more ih =>
    rw [List.foldlM_cons] at led
    cases stepped : t.step place name with
    | error trouble =>
      rw [stepped] at led
      cases led
    | ok next =>
      rw [stepped] at led
      rw [List.foldl_cons, ← eq_follow_of_step stepped]
      exact ih led

/-- A path that can be used is one to the place that it names. -/
theorem eq_placeOf_of_resolve {path : String} {place : FilePlace} (resolved : t.resolve path = .ok place) :
    place = t.placeOf path := by
  unfold resolve at resolved
  cases checked : checkPath path with
  | error trouble =>
    rw [checked] at resolved
    cases resolved
  | ok =>
    rw [checked] at resolved
    exact eq_foldl_follow_of_foldlM resolved

theorem names_append_slash (folder path : String) : names (folder ++ "/" ++ path) = names folder ++ names path := by
  have slash : "/".toList = ['/'] := rfl
  rw [names, String.toList_append, String.toList_append, slash, List.append_assoc, List.singleton_append,
    Text.splitAt_append, List.map_append]
  rfl

theorem names_of_not_mem {path : String} (single : '/' ∉ path.toList) : names path = [path] := by
  rw [names, Text.splitAt_of_not_mem single, List.map_singleton, String.ofList_toList]

theorem isAbsolute_append {folder : String} (named : folder ≠ "") (path : String) :
    isAbsolute (folder ++ path) = isAbsolute folder := by
  have characters : folder.toList ≠ [] := fun none => named (String.toList_eq_nil_iff.1 none)
  obtain ⟨c, more, spelled⟩ := List.exists_cons_of_ne_nil characters
  rw [isAbsolute, isAbsolute, String.toList_append, spelled]
  rfl

/-- A relative path is followed from the place of its folder. -/
theorem placeOf_join {path : String} (relative : isAbsolute path = false) (folder : String) :
    t.placeOf (join folder path) = (names path).foldl follow (t.placeOf folder) := by
  unfold join
  split
  · rename_i alone
    have empty : folder = "" := alone.resolve_left (by simp [relative])
    subst empty
    rw [placeOf, start, relative]
    rfl
  · rename_i both
    have named : folder ≠ "" := fun empty => both (.inr empty)
    split
    · rename_i slash
      -- The slash at the end of the folder ends a name; behind it stands an empty one.
      obtain ⟨front, spelled⟩ := List.getLast?_eq_some_iff.1 slash
      have folded : folder = String.ofList front ++ "/" ++ "" := by
        apply String.toList_inj.1
        simpa using spelled
      have closed : names folder = names (String.ofList front) ++ [""] := by
        rw [folded, names_append_slash]
        rfl
      have listed : names (folder ++ path) = names (String.ofList front) ++ names path := by
        rw [← names_append_slash, folded, String.append_empty]
      rw [placeOf, placeOf, start, start, isAbsolute_append named, listed, closed, List.foldl_append, List.foldl_append]
      rfl
    · rw [placeOf, start, names_append_slash, String.append_assoc, isAbsolute_append named, List.foldl_append]
      rfl

/-- Whether its folder counts or not, a path is followed from some place to its last name. -/
theorem exists_placeOf_join_eq (t : FileTree) (folder path : String) :
    ∃ start, t.placeOf (join folder path) = (names path).foldl follow start := by
  by_cases absolute : isAbsolute path = true
  · refine ⟨t.start path, ?_⟩
    rw [join, if_pos (.inl absolute), placeOf]
  · exact ⟨_, placeOf_join (Bool.not_eq_true _ ▸ absolute) folder⟩

end PocketConsole.FileTree
