import PocketConsole.Files.Tree

namespace PocketConsole.FileTree

variable {t : FileTree} {target : FilePlace}

theorem find?_root (t : FileTree) : t.find? [] = some .folder :=
  if_pos rfl

theorem find?_put_of_not_folder (noFolder : t.find? target ≠ some .folder) (e : FileEntry) (place : FilePlace) :
    (t.put target e).find? place = if place = target then some e else t.find? place := by
  refine find?_put t place e ?_
  rintro rfl
  exact noFolder t.find?_root

/-- A name leads where it led before when something is put where no folder is: one goes on from folders only. -/
theorem step_put (noFolder : t.find? target ≠ some .folder) (e : FileEntry) {place next : FilePlace} {name : String}
    (stepped : t.step place name = .ok next) : (t.put target e).step place name = .ok next := by
  unfold step at stepped ⊢
  cases found : t.find? place with
  | none =>
    rw [found] at stepped
    cases stepped
  | some entry =>
    have other : place ≠ target ∨ entry ≠ .folder := by
      by_cases same : place = target
      · refine .inr fun folder => noFolder ?_
        rw [← same, found, folder]
      · exact .inl same
    cases entry with
    | file content =>
      rw [found] at stepped
      cases stepped
    | folder =>
      rw [find?_put_of_not_folder noFolder, if_neg (other.resolve_right fun isFile => isFile rfl), found]
      rw [found] at stepped
      exact stepped

theorem foldlM_step_put (noFolder : t.find? target ≠ some .folder) (e : FileEntry) {names : List String}
    {place last : FilePlace} (led : names.foldlM t.step place = .ok last) :
    names.foldlM (t.put target e).step place = .ok last := by
  induction names generalizing place with
  | nil => exact led
  | cons name more ih =>
    rw [List.foldlM_cons] at led ⊢
    cases stepped : t.step place name with
    | error trouble =>
      rw [stepped] at led
      cases led
    | ok next =>
      rw [stepped] at led
      rw [step_put noFolder e stepped]
      exact ih led

theorem resolve_put (noFolder : t.find? target ≠ some .folder) (e : FileEntry) {path : String} {place : FilePlace}
    (resolved : t.resolve path = .ok place) : (t.put target e).resolve path = .ok place := by
  unfold resolve at resolved ⊢
  cases checked : checkPath path with
  | error trouble =>
    rw [checked] at resolved
    cases resolved
  | ok =>
    rw [checked] at resolved
    exact foldlM_step_put noFolder e resolved

/-- A write puts a file where a path leads, unless a folder is there. -/
theorem write_eq_ok_iff {u : FileTree} {path : String} {content : ByteArray} :
    t.write path content = .ok u ↔
      ∃ place, t.resolve path = .ok place ∧ t.find? place ≠ some .folder ∧ u = t.put place (.file content) := by
  unfold write
  cases resolved : t.resolve path with
  | error trouble =>
    constructor
    · intro written
      cases written
    · rintro ⟨place, same, -⟩
      cases same
  | ok place =>
    simp only [bind, Except.bind]
    split
    · rename_i folder
      constructor
      · intro written
        cases written
      · rintro ⟨other, same, noFolder, -⟩
        cases same
        exact absurd folder noFolder
    · rename_i noFolder
      constructor
      · intro written
        cases written
        exact ⟨place, rfl, noFolder, rfl⟩
      · rintro ⟨other, same, -, rfl⟩
        cases same
        rfl

/-- A file put somewhere is read where it stands, and every other file as before. -/
theorem read_put (noFolder : t.find? target ≠ some .folder) (content : ByteArray) {path : String} {place : FilePlace}
    (resolved : t.resolve path = .ok place) :
    (t.put target (.file content)).read path = if place = target then .ok content else t.read path := by
  unfold read
  rw [resolve_put noFolder _ resolved, resolved]
  simp only [bind, Except.bind]
  rw [find?_put_of_not_folder noFolder]
  by_cases same : place = target
  · rw [if_pos same, if_pos same]
  · rw [if_neg same, if_neg same]

/-- What has been written to a file is read back from it. -/
theorem read_of_write {u : FileTree} {path : String} {content : ByteArray} (written : t.write path content = .ok u) :
    u.read path = .ok content := by
  obtain ⟨place, resolved, noFolder, rfl⟩ := write_eq_ok_iff.1 written
  rw [read_put noFolder content resolved, if_pos rfl]

/-- A text is found again in its bytes. -/
theorem fromUTF8?_toUTF8 (text : String) : String.fromUTF8? text.toUTF8 = some text := by
  have valid : text.toUTF8.IsValidUTF8 := text.isValidUTF8
  rw [String.fromUTF8?, dif_pos valid]
  rfl

end PocketConsole.FileTree
