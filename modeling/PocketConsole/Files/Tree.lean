import PocketConsole.Text.Lines

namespace PocketConsole

/-- What stands under a name in a file tree. -/
inductive FileEntry
  | file (content : ByteArray)
  | folder

/-- Why a path could not be used. -/
inductive FileTrouble
  | notFound
  | notFolder
  | isFolder
  | alreadyExists
  | nameTooLong
  | badName
deriving DecidableEq, Repr

/-- A place in a file tree: the names that lead to it from the root. -/
abbrev FilePlace : Type := List String

/-- Folders and files by place. The root is always a folder. -/
structure FileTree where
  entries : List (FilePlace × FileEntry)
  /-- The place that relative paths start from. -/
  here : FilePlace

namespace FileTree

/-- A tree with nothing but its root. -/
def empty : FileTree :=
  ⟨[], []⟩

/-- A tree with nothing but the folders that lead to a place, from which relative paths start. -/
def within (here : FilePlace) : FileTree :=
  ⟨(List.range here.length).map fun n => (here.take (n + 1), .folder), here⟩

/-- What stands at a place. -/
def find? (t : FileTree) (place : FilePlace) : Option FileEntry :=
  if place = [] then some .folder
  else (t.entries.find? fun e => e.1 = place).map Prod.snd

/-- The tree with an entry put at a place. -/
def put (t : FileTree) (place : FilePlace) (e : FileEntry) : FileTree :=
  { t with entries := (place, e) :: t.entries.filter fun other => other.1 ≠ place }

theorem find?_put (t : FileTree) {place : FilePlace} (other : FilePlace) (e : FileEntry)
    (below : place ≠ []) :
    (t.put place e).find? other = if other = place then some e else t.find? other := by
  by_cases same : other = place
  · subst same
    simp [find?, put, below]
  · by_cases root : other = []
    · simp [find?, root, Ne.symm below]
    · simp only [find?, put, root, same, if_false, List.find?_cons, Ne.symm same, decide_false]
      rw [List.find?_filter]
      congr 2
      funext entry
      by_cases here : entry.1 = other
      · simp [here, same]
      · simp [here]

/-- The longest name, in bytes. -/
def nameLimit : Nat :=
  255

/-- The longest path, in bytes. -/
def pathLimit : Nat :=
  4095

/-- Goes from a place to the next name of a path. The place must be a folder. -/
def step (t : FileTree) (place : FilePlace) (name : String) : Except FileTrouble FilePlace :=
  match t.find? place with
  | none => .error .notFound
  | some (.file _) => .error .notFolder
  | some .folder =>
    if name = "" ∨ name = "." then .ok place
    else if name = ".." then .ok place.dropLast
    else if nameLimit < name.utf8ByteSize then .error .nameTooLong
    else .ok (place ++ [name])

/-- The names that a path lists. -/
def names (path : String) : List String :=
  (Text.splitAt '/' path.toList).map String.ofList

/-- The last name of a path, if it names something below its folder. -/
def fileName? (path : String) : Option String :=
  match ((names path).filter fun name => name ≠ "" ∧ name ≠ ".").getLast? with
  | some ".." => none
  | last => last

/-- A name cut at its last point, which does not count at the start. -/
def cut (name : String) : String × Option String :=
  let rest := name.toList.reverse
  let suffix := rest.takeWhile (· ≠ '.')
  match rest.drop suffix.length with
  | [] => (name, none)
  | [_] => (name, none)
  | _ :: stem => (String.ofList stem.reverse, some (String.ofList suffix.reverse))

/-- Whether a path starts at the root. -/
def isAbsolute (path : String) : Bool :=
  path.toList.head? = some '/'

/-- A path taken from a folder on. -/
def join (folder path : String) : String :=
  if isAbsolute path ∨ folder = "" then path
  else if folder.toList.getLast? = some '/' then folder ++ path
  else folder ++ "/" ++ path

/-- Refuses paths that no file can have. -/
def checkPath (path : String) : Except FileTrouble Unit :=
  if path = "" then .error .notFound
  else if path.toList.contains '\x00' then .error .badName
  else if pathLimit < path.utf8ByteSize then .error .nameTooLong
  else .ok ()

/-- The place that a path starts from. -/
def start (t : FileTree) (path : String) : FilePlace :=
  if isAbsolute path then [] else t.here

/-- The place of a path. All names but the last must lead to folders. -/
def resolve (t : FileTree) (path : String) : Except FileTrouble FilePlace := do
  checkPath path
  (names path).foldlM t.step (t.start path)

/-- The content of a file. -/
def read (t : FileTree) (path : String) : Except FileTrouble ByteArray := do
  let place ← t.resolve path
  match t.find? place with
  | none => .error .notFound
  | some .folder => .error .isFolder
  | some (.file content) => .ok content

/-- The tree with the content of a file replaced; the file is made if need be. -/
def write (t : FileTree) (path : String) (content : ByteArray) : Except FileTrouble FileTree := do
  let place ← t.resolve path
  match t.find? place with
  | some .folder => .error .isFolder
  | _ => .ok (t.put place (.file content))

/-- The names in a folder, in order. -/
def list (t : FileTree) (folder : FilePlace) : List String :=
  let inside := t.entries.filterMap fun e =>
    if e.1 ≠ [] ∧ e.1.dropLast = folder then e.1.getLast? else none
  inside.mergeSort fun a b => a ≤ b

end FileTree

end PocketConsole
