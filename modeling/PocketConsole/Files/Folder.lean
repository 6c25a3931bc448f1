import PocketConsole.Files.MakeFolders
import PocketConsole.Store

namespace PocketConsole

/-- A store that keeps each text in a file of a folder. -/
structure Folder where
  files : FileTree
  /-- The path of the folder. -/
  path : String

namespace Folder

/-- Opens a store in a folder, which is made if need be. -/
def open? (files : FileTree) (path : String) : Except FileTrouble Folder :=
  (files.makeFolders path).map fun made => ⟨made, path⟩

/-- The path of the file of a key. -/
def file (s : Folder) (key : String) : String :=
  FileTree.join s.path (key ++ ".json")

/-- The text under a key, or what stands in the way of reading it. -/
def read (s : Folder) (key : String) : Except Event String :=
  match s.files.read (s.file key) with
  | .ok content =>
    match String.fromUTF8? content with
    | some text => .ok text
    | none => .error (.unreadable (s.file key))
  | .error .notFound => .error (.notStored (s.file key))
  | .error _ => .error (.unreadable (s.file key))

/-- The store with a text under a key, or what stands in the way of writing it. -/
def write (s : Folder) (key text : String) : Except Event Folder :=
  match s.files.write (s.file key) text.toUTF8 with
  | .ok files => .ok { s with files := files }
  | .error _ => .error (.unwritable (s.file key))

end Folder

instance : Store Folder where
  get s key := (s.read key).toOption
  set s key text := ((s.write key text).toOption).getD s
  remark s key :=
    match s.read key with
    | .ok _ => none
    | .error e => some e
  complaint s key text :=
    match s.write key text with
    | .ok _ => none
    | .error e => some e

end PocketConsole
