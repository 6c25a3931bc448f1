import PocketConsole.CommandLine.Run

namespace PocketConsole.CommandLine

/-- Takes a file of the disk into a tree; where there is none the tree stays as it is. -/
def fetch (files : FileTree) (path : String) : IO FileTree := do
  match ← (IO.FS.readBinFile path).toBaseIO with
  | .ok content => return (files.plant path content).toOption.getD files
  | .error _ => return files

/-- Takes a folder of the disk into a tree, without what stands in it. -/
def fetchFolder (files : FileTree) (path : String) : IO FileTree := do
  if (← (IO.FS.realPath (path ++ "/.")).toBaseIO).toBool then
    return (files.grow path).toOption.getD files
  else return files

/-- The files that a run may read, and the folders it may write to. -/
def fetchAll (args : Arguments) : IO FileTree := do
  let here := (FileTree.names (toString (← IO.currentDir))).filter fun name => name ≠ ""
  let folders := args.saves.toList ++ args.picture.toList.map FileTree.folderOf
  let files ← folders.foldlM fetchFolder (FileTree.within here)
  (args.source :: args.saveFile?.toList).foldlM fetch files

/-- Puts a file of a tree on the disk, and tells whether that went well. -/
def put (files : FileTree) (path : String) : IO Bool := do
  match files.read path with
  | .ok content => return (← (IO.FS.writeBinFile path content).toBaseIO).toBool
  | .error _ => return true

/-- Tells of a failure. -/
def fail (f : Failure) : IO UInt32 := do
  IO.eprintln f.message
  return f.exitCode.toUInt32

/-- Puts the saves of a run on the disk. Only the folder must be there. -/
def putSaves (args : Arguments) (files : FileTree) : IO Bool := do
  match args.saves with
  | none => return true
  | some folder =>
    if (← (IO.FS.createDirAll folder).toBaseIO).toBool then
      for path in args.saveFile?.toList do
        unless ← put files path do
          IO.eprintln (Event.unwritable path).text
      return true
    else return false

/-- Tells what happened in a run, keeps its saves, prints its screen if it has come to that, and then puts its picture
on the disk. A run that has noted nothing has not opened its saves. -/
def finish (args : Arguments) (c : Conduct) : IO UInt32 := do
  for e in c.journal do
    if Level.info.shows e.level then
      IO.eprintln (e.level.name ++ ": " ++ e.text)
  unless c.journal.isEmpty do
    unless ← putSaves args c.files do
      return ← fail .unopened
  for line in c.lines do
    IO.println line
  match c.ending with
  | .broken f => fail f
  | .shown _ false => fail .picture
  | .shown _ true =>
    for path in args.picture.toList do
      unless ← put c.files path do
        return ← fail .picture
    return 0

/-- Answers a list of arguments with an exit code. -/
def answer (args : List String) : IO UInt32 := do
  match Arguments.parse args with
  | .error .usage => fail .usage
  | .error (.press e) => fail (.press e)
  | .error .version =>
    IO.println versionLine
    return 0
  | .error .help =>
    IO.println Failure.usage.message
    return 0
  | .ok parsed =>
    finish parsed (execute (← fetchAll parsed) parsed)

end PocketConsole.CommandLine

/-- Runs the command. -/
def main (args : List String) : IO UInt32 :=
  PocketConsole.CommandLine.answer args
