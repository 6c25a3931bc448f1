import PocketConsole.Assembly.Basic
import PocketConsole.CommandLine.Arguments
import PocketConsole.CommandLine.Png
import PocketConsole.Console.Basic
import PocketConsole.Files.AnyStore

namespace PocketConsole

/-- Why a run failed. -/
inductive Failure
  /-- The arguments make no sense. -/
  | usage
  /-- The text of a press makes no sense. -/
  | press (e : PressError)
  /-- The rate is not above zero. -/
  | rate
  /-- The source text or the folder for saves could not be opened. -/
  | unopened
  /-- The picture could not be written. -/
  | picture
  /-- A number does not fit its word. -/
  | fault
  /-- A frame has no end, so there is no end of the run that could tell of it. -/
  | endless
deriving DecidableEq, Repr

/-- The exit code of a failure. -/
def Failure.exitCode : Failure → UInt8
  | usage => 2
  | press _ => 2
  | rate => 1
  | unopened => 1
  | picture => 1
  | fault => 101
  | endless => 101

/-- The wording of a failure. -/
def Failure.message : Failure → String
  | usage => "usage: tamago SOURCE [--frames N] [--fps N] [--name NAME] [--save-dir DIR]" ++
      " [--press FRAME:BUTTON]... [--png FILE]"
  | press .format => "expected FRAME:BUTTON"
  | press .frame => "invalid frame number"
  | press .button => "invalid button"
  | rate => "fps must be positive"
  | unopened => "failed to open"
  | picture => "failed to write"
  | fault => "a number does not fit its word"
  | endless => "a frame has no end"

/-- The name of the command with its version. -/
def versionLine : String :=
  "tamago-cli 0.1.0"

/-- What a finished run leaves behind. -/
structure Report where
  journal : Array Event
  /-- The pixels of the last frame. -/
  pixels : Vector UInt32 512
  files : FileTree

/-- How a list of arguments is answered in the end, whatever has been seen of a run by then. -/
inductive Outcome
  | version
  | help
  | failed (f : Failure)
  | finished (r : Report)

/-- How a run ends. -/
inductive Ending
  /-- Before its screen is printed. -/
  | broken (f : Failure)
  /-- With its screen printed. Only then the picture asked for is saved, if that can be done. -/
  | shown (pixels : Vector UInt32 512) (saved : Bool)

/-- What a run leaves behind, however it ends. A run that breaks off in a frame leaves what the frames before have
left. -/
structure Conduct where
  journal : Array Event
  files : FileTree
  ending : Ending

namespace Arguments

/-- The buttons pressed in a frame. -/
def pressedIn (presses : List Press) (frame : Nat) : List Button :=
  (presses.filter fun p => p.frame.toNat = frame).map Press.button

/-- The buttons let go in a frame: those pressed in the frame before. -/
def releasedIn (presses : List Press) (frame : Nat) : List Button :=
  (presses.filter fun p => p.frame.toNat + 1 = frame).map Press.button

/-- Whether the frame after that of some press is no 64-bit number. -/
def overflows (presses : List Press) : Bool :=
  presses.any fun p => UInt64.size ≤ p.frame.toNat + 1

end Arguments

/-- A run on its way. -/
structure Progress where
  console : Console AnyStore
  cycles : Nat := 0
  /-- The frequency of the tone in the frame before. -/
  tone : UInt16 := 0

namespace Progress

/-- The run after an event. -/
def note (p : Progress) (e : Event) : Progress :=
  { p with console := { p.console with rig := p.console.rig.note e } }

/-- Notes the frequency of the tone if it has changed. -/
def noteTone (p : Progress) (frame : Nat) (hertz : UInt16) : Progress :=
  if hertz = p.tone then p else { p.note (.frameTone frame hertz) with tone := hertz }

/-- Notes the packet sent, if any. -/
def notePacket (p : Progress) (frame : Nat) (packet : Option Packet) : Progress :=
  match packet with
  | some pins => p.note (.framePacket frame pins.toList)
  | none => p

/-- Runs a frame with the presses meant for it. -/
def step (presses : List Press) (elapsed : Duration) (frame : Nat) (p : Progress) :
    Option Progress :=
  let input : Input :=
    { pressed := Arguments.pressedIn presses frame, released := Arguments.releasedIn presses frame }
  match p with
  | ⟨console, cycles, tone⟩ =>
    (console.update elapsed input).map fun (out, after) =>
      let p : Progress := ⟨after, cycles + out.cycles, tone⟩
      (p.noteTone frame out.tone).notePacket frame out.packet

/-- Runs a number of frames from a given one on. -/
def play (presses : List Press) (elapsed : Duration) : Nat → Nat → Progress → Option Progress
  | 0, _, p => some p
  | n + 1, frame, p =>
    match p.step presses elapsed frame with
    | none => none
    | some after => play presses elapsed n (frame + 1) after

/-- A run that breaks off: why, and the host as the last whole frame has left it. -/
structure Break where
  failure : Failure
  host : Host AnyStore

/-- Breaks the run off. -/
def breakOff (p : Progress) (f : Failure) : Break :=
  ⟨f, p.console.rig.host⟩

/-- As `play`, with the sums of every frame taken in 64-bit words: the frame after that of each press, the frames shown,
and the cycles so far. -/
def checkedPlay (presses : List Press) (elapsed : Duration) : Nat → Nat → Progress → Except Break Progress
  | 0, _, p => .ok p
  | n + 1, frame, p =>
    if Arguments.overflows presses then .error (p.breakOff .fault)
    else
      match p.step presses elapsed frame with
      | none => .error (p.breakOff .endless)
      | some after =>
        if p.console.isFull ∨ UInt64.size ≤ after.cycles then .error (p.breakOff .fault)
        else checkedPlay presses elapsed n (frame + 1) after

end Progress

/-- The character of a pixel. -/
def pixelChar (p : UInt32) : Char :=
  match palette.toList.findIdx? fun colour => solid colour = p with
  | some 0 => '.'
  | some 1 => '+'
  | some _ => '#'
  | none => ' '

/-- A picture as lines of text. -/
def screenLines (pixels : Vector UInt32 512) : List String :=
  (Screen.rows pixels).map fun row => String.ofList (row.map pixelChar)

/-- The name of a program that is given none: that of its file, without the last point and what
stands behind it. -/
def defaultName (path : String) : String :=
  ((FileTree.fileName? path).map fun name => (FileTree.cut name).1).getD ""

/-- The files after a run: what its store has written. -/
def AnyStore.files (s : AnyStore) (otherwise : FileTree) : FileTree :=
  match s with
  | .folder f => f.files
  | _ => otherwise

/-- The source text at a path. -/
def readSource (files : FileTree) (path : String) : Except Failure String :=
  match files.read path with
  | .ok content =>
    match String.fromUTF8? content with
    | some text => .ok text
    | none => .error .unopened
  | .error _ => .error .unopened

/-- The store of a run. -/
def openStore (files : FileTree) (folder : Option String) : Except Failure AnyStore :=
  match folder with
  | none => .ok (.shelf .empty)
  | some path =>
    match Folder.open? files path with
    | .ok s => .ok (.folder s)
    | .error _ => .error .unopened

/-- The path of the file that keeps the saves of a run. -/
def Arguments.saveFile? (args : Arguments) : Option String :=
  args.saves.map fun path => Folder.file ⟨.empty, path⟩ SaveRecord.key

/-- What a run that breaks off leaves behind. -/
def Progress.Break.conduct (b : Break) (files : FileTree) : Conduct :=
  ⟨b.host.journal, b.host.store.files files, .broken b.failure⟩

namespace Arguments

/-- The name of the program. -/
def programName (args : Arguments) : String :=
  args.name.getD (defaultName args.source)

/-- A run before its first frame: its source is assembled, and then loaded. -/
def start (args : Arguments) (source : String) (store : AnyStore) : Progress :=
  let program := Program.ofSource args.programName source
  let host : Host AnyStore := { store := store }
  let empty : Console AnyStore := { rig := ⟨.fresh, host.note (.assembled program.code.tokens.length)⟩ }
  { console := empty.load program }

/-- Saves the picture of the last frame, if one is asked for. -/
def savePicture (args : Arguments) (pixels : Vector UInt32 512) (writer : ImageWriter) (files : FileTree) :
    FileTree × Bool :=
  match args.picture, Screen.image? pixels with
  | none, _ => (files, true)
  | some _, none => (files, false)
  | some path, some image => writer.save files path image

/-- What a run leaves behind after a last look at the screen. -/
def conclude (args : Arguments) (writer : ImageWriter) (files : FileTree) (out : Output) (final : Console AnyStore) :
    Conduct :=
  match args.savePicture out.pixels writer (final.rig.host.store.files files) with
  | (written, saved) => ⟨final.rig.host.journal, written, .shown out.pixels saved⟩

/-- Runs the frames, and one more that takes no time for what is shown at the end. -/
def playOut (args : Arguments) (writer : ImageWriter) (files : FileTree) (elapsed : Duration) (start : Progress) :
    Conduct :=
  let frames := args.frames.toNat
  match Progress.checkedPlay args.presses elapsed frames 0 start with
  | .error broken => broken.conduct files
  | .ok played =>
    let noted := played.note (.ran frames played.cycles)
    match noted.console.checkedUpdate .zero {} with
    | .error _ => (noted.breakOff .fault).conduct files
    | .ok none => (noted.breakOff .endless).conduct files
    | .ok (some (out, final)) => args.conclude writer files out final

end Arguments

/-- Assembles the source, opens the store, and runs. Another writer may be given for the picture. -/
def execute (files : FileTree) (args : Arguments) (writer : ImageWriter := Png.writer) : Conduct :=
  if args.rate.isPositive then
    match readSource files args.source with
    | .error f => ⟨#[], files, .broken f⟩
    | .ok source =>
      match openStore files args.saves with
      | .error f =>
        let tokens := (Program.ofSource args.programName source).code.tokens
        let made := (args.saves.map fun path => (files.attemptFolders path).1).getD files
        ⟨#[.assembled tokens.length], made, .broken f⟩
      | .ok store =>
        let start := args.start source store
        match args.rate.period? with
        | none => (start.breakOff .fault).conduct files
        | some elapsed => args.playOut writer files elapsed start
  else ⟨#[], files, .broken .rate⟩

namespace Conduct

/-- The lines that are printed. -/
def lines (c : Conduct) : List String :=
  match c.ending with
  | .broken _ => []
  | .shown pixels _ => screenLines pixels

/-- How the run is answered for. -/
def outcome (c : Conduct) : Outcome :=
  match c.ending with
  | .broken f => .failed f
  | .shown pixels true => .finished ⟨c.journal, pixels, c.files⟩
  | .shown _ false => .failed .picture

end Conduct

/-- Answers a list of arguments among the files that there are. -/
def run (files : FileTree) (args : List String) (writer : ImageWriter := Png.writer) : Outcome :=
  match Arguments.parse args with
  | .error .usage => .failed .usage
  | .error (.press e) => .failed (.press e)
  | .error .version => .version
  | .error .help => .help
  | .ok parsed => (execute files parsed writer).outcome

end PocketConsole
