import PocketConsole.Files.Folder
import PocketConsole.Proofs.Files.Places
import PocketConsole.Proofs.Files.ReadBack

namespace PocketConsole

namespace Store

/-- What can be asked of a store. -/
inductive Call
  | get (key : String)
  | set (key text : String)

/-- The key that is asked about. -/
def Call.key : Call → String
  | get key => key
  | set key _ => key

/-- The answers of a store that is asked one thing after another. -/
def answers {σ : Type} [Store σ] : σ → List Call → List (Option String)
  | _, [] => []
  | s, .get key :: more => Store.get s key :: answers s more
  | s, .set key text :: more => answers (Store.set s key text) more

end Store

namespace Folder

/-- The place of a folder. -/
def place (s : Folder) : FilePlace :=
  s.files.placeOf s.path

/-- The place of the file of a key. -/
def placeOf (s : Folder) (key : String) : FilePlace :=
  s.files.placeOf (s.file key)

/-- A key without a slash. -/
def Plain (key : String) : Prop :=
  '/' ∉ key.toList

instance (key : String) : Decidable (Plain key) :=
  inferInstanceAs (Decidable (¬ _))

/-- Every text can be written to the file of a key. -/
def Writable (s : Folder) (key : String) : Prop :=
  ∀ text, ∃ after, s.write key text = .ok after

variable {s : Folder} {key other : String}

/-- A name with the ending of the files is a name of its own. -/
theorem follow_file (place : FilePlace) (key : String) :
    FileTree.follow place (key ++ ".json") = place ++ [key ++ ".json"] := by
  have long : 5 ≤ (key ++ ".json").length := by
    rw [String.length_append]
    exact Nat.le_add_left _ _
  have apart : ∀ name : String, name.length < 5 → key ++ ".json" ≠ name := by
    rintro name short rfl
    omega
  rw [FileTree.follow, if_neg (not_or.2 ⟨apart "" (by decide), apart "." (by decide)⟩), if_neg (apart ".." (by decide))]

theorem plain_file (plain : Plain key) : '/' ∉ (key ++ ".json").toList := by
  rw [String.toList_append, List.mem_append]
  exact not_or.2 ⟨plain, by decide⟩

theorem isAbsolute_of_plain (plain : Plain key) : FileTree.isAbsolute (key ++ ".json") = false := by
  refine decide_eq_false fun slash => ?_
  exact plain_file plain (List.mem_of_mem_head? slash)

/-- The file of a key without a slash stands in the folder, under the name of the key. -/
theorem placeOf_of_plain (s : Folder) (plain : Plain key) : s.placeOf key = s.place ++ [key ++ ".json"] := by
  rw [placeOf, file, FileTree.placeOf_join (isAbsolute_of_plain plain), FileTree.names_of_not_mem (plain_file plain),
    List.foldl_cons, List.foldl_nil, follow_file, place]

theorem placeOf_eq_iff (s : Folder) (plain : Plain key) (again : Plain other) :
    s.placeOf key = s.placeOf other ↔ key = other := by
  constructor
  · intro same
    rw [placeOf_of_plain s plain, placeOf_of_plain s again] at same
    have names : key ++ ".json" = other ++ ".json" := List.singleton_inj.1 (List.append_cancel_left same)
    exact (String.append_left_inj _).1 names
  · rintro rfl
    rfl

/-- Whatever stands before the last slash of a key, its file has the name of a key without a slash. -/
theorem exists_last (s : Folder) (key : String) :
    ∃ place last, Plain last ∧ s.placeOf key = place ++ [last ++ ".json"] := by
  by_cases plain : Plain key
  · exact ⟨s.place, key, plain, placeOf_of_plain s plain⟩
  · have slash : '/' ∈ key.toList.reverse := List.mem_reverse.2 (Decidable.not_not.1 plain)
    obtain ⟨after, before, spelled, none⟩ := List.eq_append_cons_of_mem slash
    have parts : key ++ ".json" = String.ofList before.reverse ++ "/" ++ (String.ofList after.reverse ++ ".json") := by
      apply String.toList_inj.1
      rw [String.toList_append, ← List.reverse_reverse key.toList, spelled]
      simp
    have last : Plain (String.ofList after.reverse) := by
      rwa [Plain, String.toList_ofList, List.mem_reverse]
    obtain ⟨start, led⟩ := s.files.exists_placeOf_join_eq s.path (key ++ ".json")
    refine ⟨(FileTree.names (String.ofList before.reverse)).foldl FileTree.follow start, _, last, ?_⟩
    rw [placeOf, file, led, parts, FileTree.names_append_slash, FileTree.names_of_not_mem (plain_file last),
      List.foldl_append, List.foldl_cons, List.foldl_nil, follow_file]

/-- A key with a slash has a file elsewhere, or shares one with a key without. -/
theorem exists_plain_of_inside (s : Folder) {name : String} (slash : ¬ Plain key)
    (inside : s.placeOf key = s.place ++ [name]) :
    ∃ other, Plain other ∧ other ≠ key ∧ s.placeOf other = s.placeOf key := by
  obtain ⟨place, last, plain, led⟩ := exists_last s key
  have same : place = s.place := (List.append_inj' (led.symm.trans inside) rfl).1
  refine ⟨last, plain, fun equal => slash (equal ▸ plain), ?_⟩
  rw [placeOf_of_plain s plain, led, same]

/-! ### Reading and writing -/

/-- A write leaves the folder where it is and puts a file at the place of the key. -/
theorem write_eq_ok_iff {text : String} {after : Folder} :
    s.write key text = .ok after ↔
      s.files.resolve (s.file key) = .ok (s.placeOf key) ∧ s.files.find? (s.placeOf key) ≠ some .folder ∧
        after = { s with files := s.files.put (s.placeOf key) (.file text.toUTF8) } := by
  unfold write
  constructor
  · intro written
    split at written
    · rename_i files put
      obtain ⟨place, resolved, noFolder, rfl⟩ := FileTree.write_eq_ok_iff.1 put
      cases written
      obtain rfl := FileTree.eq_placeOf_of_resolve resolved
      exact ⟨resolved, noFolder, rfl⟩
    · cases written
  · rintro ⟨resolved, noFolder, rfl⟩
    rw [FileTree.write_eq_ok_iff.2 ⟨_, resolved, noFolder, rfl⟩]

theorem writable_iff :
    s.Writable key ↔
      s.files.resolve (s.file key) = .ok (s.placeOf key) ∧ s.files.find? (s.placeOf key) ≠ some .folder := by
  constructor
  · intro writable
    obtain ⟨after, written⟩ := writable ""
    obtain ⟨resolved, noFolder, -⟩ := write_eq_ok_iff.1 written
    exact ⟨resolved, noFolder⟩
  · rintro ⟨resolved, noFolder⟩ text
    exact ⟨_, write_eq_ok_iff.2 ⟨resolved, noFolder, rfl⟩⟩

theorem writable_iff_isOk : s.Writable key ↔ (s.write key "").isOk = true := by
  constructor
  · intro writable
    obtain ⟨after, written⟩ := writable ""
    rw [written]
    rfl
  · intro ok
    cases written : s.write key "" with
    | error event =>
      rw [written] at ok
      cases ok
    | ok after =>
      obtain ⟨resolved, noFolder, -⟩ := write_eq_ok_iff.1 written
      exact writable_iff.2 ⟨resolved, noFolder⟩

instance (s : Folder) (key : String) : Decidable (s.Writable key) :=
  decidable_of_iff _ writable_iff_isOk.symm

theorem set_of_write {text : String} {after : Folder} (written : s.write key text = .ok after) :
    Store.set s key text = after := by
  change ((s.write key text).toOption).getD s = after
  rw [written]
  rfl

/-- A key that can be written to can be written to when another one has been. -/
theorem writable_set (writable : s.Writable key) (again : s.Writable other) (text : String) :
    (Store.set s key text).Writable other := by
  obtain ⟨after, written⟩ := writable text
  obtain ⟨-, noFolder, rfl⟩ := write_eq_ok_iff.1 written
  obtain ⟨resolved, free⟩ := writable_iff.1 again
  rw [set_of_write written, writable_iff]
  refine ⟨FileTree.resolve_put noFolder _ resolved, ?_⟩
  have found := FileTree.find?_put_of_not_folder noFolder (.file text.toUTF8) (s.placeOf other)
  intro folder
  have folder := found.symm.trans folder
  split at folder
  · cases folder
  · exact free folder

theorem get_eq (s : Folder) (key : String) :
    Store.get s key = ((s.files.read (s.file key)).toOption).bind String.fromUTF8? := by
  change (s.read key).toOption = _
  unfold read
  cases s.files.read (s.file key) with
  | ok content =>
    dsimp only
    cases valid : String.fromUTF8? content with
    | some text => exact valid.symm
    | none => exact valid.symm
  | error trouble => cases trouble <;> rfl

/-- A text is found under the keys whose file is the one that it has been written to. -/
theorem get_set (writable : s.Writable key) (known : s.Writable other) (text : String) :
    Store.get (Store.set s key text) other =
      if s.placeOf key = s.placeOf other then some text else Store.get s other := by
  obtain ⟨after, written⟩ := writable text
  obtain ⟨-, noFolder, rfl⟩ := write_eq_ok_iff.1 written
  obtain ⟨resolved, -⟩ := writable_iff.1 known
  have found := FileTree.read_put noFolder text.toUTF8 resolved
  rw [set_of_write written, get_eq, get_eq]
  change ((FileTree.read _ (s.file other)).toOption).bind _ = _
  rw [found]
  by_cases same : s.placeOf key = s.placeOf other
  · rw [if_pos same, if_pos same.symm]
    exact FileTree.fromUTF8?_toUTF8 text
  · rw [if_neg same, if_neg (Ne.symm same)]

/-- A folder answers as a shelf does, where the keys have no slash and can be written to. -/
theorem answers_eq {shelf : Shelf} {calls : List Store.Call}
    (alike : ∀ call ∈ calls, Plain call.key ∧ s.Writable call.key ∧ Store.get s call.key = Store.get shelf call.key) :
    Store.answers s calls = Store.answers shelf calls := by
  induction calls generalizing s shelf with
  | nil => rfl
  | cons call more ih =>
    obtain ⟨plain, writable, same⟩ := alike call List.mem_cons_self
    have rest := fun call member => alike call (List.mem_cons_of_mem _ member)
    cases call with
    | get key =>
      rw [Store.answers, Store.answers, ih rest]
      exact congrArg (· :: _) same
    | set key text =>
      refine ih fun call member => ?_
      obtain ⟨again, known, same⟩ := rest call member
      refine ⟨again, writable_set writable known text, ?_⟩
      calc Store.get (Store.set s key text) call.key
          = if s.placeOf key = s.placeOf call.key then some text else Store.get s call.key :=
            get_set writable known text
        _ = if key = call.key then some text else Store.get shelf call.key := by
            rw [same]
            exact ite_cond_congr (propext (placeOf_eq_iff s plain again))
        _ = Store.get (Store.set shelf key text) call.key := (LawfulStore.get_set shelf key call.key text).symm

/-- The files of keys without a slash stand in the folder, each under the name of its own key, and there are no other
keys of which that can be said: with a slash a key has its file elsewhere, or shares one with a key without. What is
read and written is the file at the place of a key, so that keys with one place have one text. Keys without a slash that
can be written to answer as on a shelf, whatever they are asked in turn. -/
theorem files_of_keys (s : Folder) :
    (∀ key, Plain key → s.placeOf key = s.place ++ [key ++ ".json"]) ∧
    (∀ key other, Plain key → Plain other → key ≠ other → s.placeOf key ≠ s.placeOf other) ∧
    (∀ key name, ¬ Plain key → s.placeOf key = s.place ++ [name] →
      ∃ other, Plain other ∧ other ≠ key ∧ s.placeOf other = s.placeOf key) ∧
    (∀ key place, s.files.resolve (s.file key) = .ok place → place = s.placeOf key) ∧
    (∀ key other text, s.Writable key → s.Writable other →
      Store.get (Store.set s key text) other =
        if s.placeOf key = s.placeOf other then some text else Store.get s other) ∧
    ∀ (shelf : Shelf) (calls : List Store.Call),
      (∀ call ∈ calls, Plain call.key ∧ s.Writable call.key ∧ Store.get s call.key = Store.get shelf call.key) →
      Store.answers s calls = Store.answers shelf calls := by
  refine ⟨fun key => placeOf_of_plain s, fun key other plain again => mt (placeOf_eq_iff s plain again).1,
    fun key name slash => exists_plain_of_inside s slash, fun key place => FileTree.eq_placeOf_of_resolve,
    fun key other text writable known => get_set writable known text, fun shelf calls => answers_eq⟩

/-- Keys that look like a folder, a file of the folder and nothing at all, in an empty folder. -/
theorem files_of_odd_keys :
    let s : Folder := ⟨⟨[(["store"], .folder)], []⟩, "/store"⟩
    let calls : List Store.Call := [.set ".." "1", .set "" "2", .get "..", .set "..json" "3", .get "", .get "..json"]
    (∀ call ∈ calls, Plain call.key ∧ s.Writable call.key ∧ Store.get s call.key = Store.get Shelf.empty call.key) ∧
      s.placeOf ".." = ["store", "...json"] ∧ s.placeOf "" ≠ s.placeOf ".." ∧
      Store.answers s calls = [some "1", some "2", some "3"] := by
  intro s calls
  obtain ⟨places, apart, -, -, -, answers⟩ := files_of_keys s
  have ready : ∀ call ∈ calls,
      Plain call.key ∧ s.Writable call.key ∧ Store.get s call.key = Store.get Shelf.empty call.key := by
    decide +kernel
  exact ⟨ready, (places ".." (by decide)).trans (by decide), apart "" ".." (by decide) (by decide) (by decide),
    answers .empty calls ready⟩

/-- Behind a point and a slash a key is found whose text has been set without them, and behind two points a file outside
of the folder. -/
theorem file_shared_through_point :
    let s : Folder := ⟨⟨[(["store"], .folder)], []⟩, "/store"⟩
    let calls : List Store.Call := [.set "b" "1", .get "./b"]
    s.placeOf "./b" = s.placeOf "b" ∧ s.place = ["store"] ∧ s.placeOf "../b" = ["b.json"] ∧
      (∀ call ∈ calls, s.Writable call.key ∧ Store.get s call.key = Store.get Shelf.empty call.key) ∧
      Store.answers s calls = [some "1"] ∧ Store.answers Shelf.empty calls = [none] := by
  decide +kernel

end Folder

end PocketConsole
