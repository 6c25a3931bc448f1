import PocketConsole.Files.Tree

namespace PocketConsole.FileTree

/-- Names without those at the end that lead nowhere else. -/
def trimmed (names : List String) : List String :=
  (names.reverse.dropWhile fun name => name = "" ∨ name = ".").reverse

/-- The names that lead to what stands above. -/
def above (names : List String) : List String :=
  trimmed (trimmed names).dropLast

theorem length_trimmed_le (names : List String) : (trimmed names).length ≤ names.length := by
  have shorter :=
    (List.dropWhile_sublist (l := names.reverse) fun name => name = "" ∨ name = ".").length_le
  simpa only [trimmed, List.length_reverse] using shorter

theorem length_above_lt {names : List String} (below : above names ≠ []) :
    (above names).length < names.length := by
  have first := length_trimmed_le names
  have second := length_trimmed_le (trimmed names).dropLast
  have positive := List.length_pos_iff.2 below
  rw [List.length_dropLast] at second
  rw [above] at positive ⊢
  omega

/-- Makes the one folder that names lead to. Slashes at the end do not count, but a point there is a
name of what must be there already. -/
def makeFolder (t : FileTree) (start : FilePlace) (names : List String) :
    Except FileTrouble FileTree := do
  let place ← (names.reverse.dropWhile fun name => name = "").reverse.foldlM t.step start
  match t.find? place with
  | none => .ok (t.put place .folder)
  | some _ => .error .alreadyExists

/-- Whether names lead to a folder. -/
def isFolder (t : FileTree) (start : FilePlace) (names : List String) : Bool :=
  match (names.foldlM t.step start).toOption.bind t.find? with
  | some .folder => true
  | _ => false

/-- Makes the one folder that names lead to, unless it is there. -/
def ensureFolder (t : FileTree) (start : FilePlace) (names : List String) :
    Except FileTrouble FileTree :=
  match t.makeFolder start names with
  | .error .alreadyExists => if t.isFolder start names then .ok t else .error .alreadyExists
  | other => other

/-- Makes the folder that names lead to, after those above it where one is missing, and tells what stands in the way.
What has been made by then is kept. -/
def ensureFolders (t : FileTree) (start : FilePlace) (names : List String) : FileTree × Option FileTrouble :=
  match t.ensureFolder start names with
  | .ok made => (made, none)
  | .error .notFound =>
    if _below : above names = [] then (t, some .notFound)
    else
      match ensureFolders t start (above names) with
      | (made, some trouble) => (made, some trouble)
      | (made, none) =>
        match made.ensureFolder start names with
        | .ok whole => (whole, none)
        | .error trouble => (made, some trouble)
  | .error trouble => (t, some trouble)
termination_by names.length
decreasing_by exact length_above_lt _below

/-- The tree after an attempt to make the folder of a path and those above it, and what stands in the way. A path that
ends in a point does not make the folder before the point. -/
def attemptFolders (t : FileTree) (path : String) : FileTree × Option FileTrouble :=
  if path = "" then (t, none)
  else
    match checkPath path with
    | .error trouble => (t, some trouble)
    | .ok () => t.ensureFolders (t.start path) (names path)

/-- The tree with the folder of a path made, and those above it. -/
def makeFolders (t : FileTree) (path : String) : Except FileTrouble FileTree :=
  match t.attemptFolders path with
  | (made, none) => .ok made
  | (_, some trouble) => .error trouble

/-- Goes to the next name of a path, which is made a folder if it is missing. -/
def enter (here : FileTree × FilePlace) (name : String) : Except FileTrouble (FileTree × FilePlace) := do
  let place ← here.1.step here.2 name
  match here.1.find? place with
  | none => .ok (here.1.put place .folder, place)
  | some _ => .ok (here.1, place)

/-- The tree with every place of a path a folder. -/
def grow (t : FileTree) (path : String) : Except FileTrouble FileTree :=
  ((names path).foldlM enter (t, t.start path)).map Prod.fst

/-- The path of the folder that the last name of a path stands in. -/
def folderOf (path : String) : String :=
  match (names path).dropLast with
  | [] => "."
  | folders => String.join (folders.map fun name => name ++ "/")

/-- The tree with a file at a path, and every place before it a folder. -/
def plant (t : FileTree) (path : String) (content : ByteArray) : Except FileTrouble FileTree := do
  let grown ← t.grow (folderOf path)
  grown.write path content

end PocketConsole.FileTree
