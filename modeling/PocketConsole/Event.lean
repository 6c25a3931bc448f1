import PocketConsole.Register
import PocketConsole.Text.Quoted

namespace PocketConsole

/-- How much an event matters, most first. -/
inductive Level
  | error
  | warn
  | info
  | debug
  | trace
deriving DecidableEq, Repr

namespace Level

/-- The name of a level. -/
def name : Level → String
  | error => "error"
  | warn => "warn"
  | info => "info"
  | debug => "debug"
  | trace => "trace"

/-- Whether a journal kept at one level takes in events of another. -/
def shows (kept other : Level) : Bool :=
  other.ctorIdx ≤ kept.ctorIdx

end Level

/-- What happens on the way and is worth noting in a journal. -/
inductive Event
  /-- A program has been put into a machine. -/
  | loaded (name : String) (tokens labels : Nat)
  /-- The cell at the program counter was empty. -/
  | halted (index : UInt16)
  /-- A jump to a label that the program does not have. -/
  | missingLabel (id : UInt8)
  /-- A program shows a register. -/
  | register (shown : Option Register) (value : UInt8)
  /-- A program shows the top of its stack. -/
  | stackTop (value : UInt8)
  /-- The frequency of the tone has changed; 0 is silence. -/
  | tone (hertz : UInt16)
  /-- A packet has been put on the serial line. -/
  | packetIn (pins : List UInt8)
  /-- A packet has been taken off the serial line. -/
  | packetOut (pins : List UInt8)
  /-- A source text has been assembled. -/
  | assembled (tokens : Nat)
  /-- The frequency of the tone differs from that of the frame before. -/
  | frameTone (frame : Nat) (hertz : UInt16)
  /-- A packet has been sent in a frame. -/
  | framePacket (frame : Nat) (pins : List UInt8)
  /-- A run has come to its end. -/
  | ran (frames cycles : Nat)
  /-- A save record could not be read and counts as empty. -/
  | malformedRecord
  /-- A save could not be read and counts as absent. -/
  | malformedSave (name : String)
  /-- A store has no text under a key. -/
  | notStored (path : String)
  /-- A text could not be read for another reason. -/
  | unreadable (path : String)
  /-- A text could not be written. -/
  | unwritable (path : String)
deriving DecidableEq, Repr

namespace Event

/-- How much an event matters. -/
def level : Event → Level
  | loaded .. => .debug
  | halted .. => .trace
  | missingLabel .. => .trace
  | register .. => .info
  | stackTop .. => .info
  | tone .. => .debug
  | packetIn .. => .trace
  | packetOut .. => .trace
  | assembled .. => .info
  | frameTone .. => .info
  | framePacket .. => .info
  | ran .. => .info
  | malformedRecord => .warn
  | malformedSave .. => .warn
  | notStored .. => .trace
  | unreadable .. => .error
  | unwritable .. => .error

/-- The wording of an event. Warnings and errors say no more than what is affected. -/
def text : Event → String
  | loaded name tokens labels => s!"loaded {Text.quoted name}: {tokens} tokens, {labels} labels"
  | halted index => "halted at 0x" ++ String.ofList (Text.hexPadded 4 index.toNat)
  | missingLabel id => s!"jump to missing label {id}"
  | register shown value =>
    let name := (shown.map Register.name).getD "?"
    s!"register {name}: {value}"
  | stackTop value => s!"stack: {value}"
  | tone hertz => if hertz = 0 then "tone off" else s!"tone {hertz} Hz"
  | packetIn pins => "serial in: " ++ Text.hexList pins
  | packetOut pins => "serial out: " ++ Text.hexList pins
  | assembled tokens => s!"assembled {tokens} tokens"
  | frameTone frame hertz => s!"frame {frame}: tone {hertz} Hz"
  | framePacket frame pins => s!"frame {frame}: serial out " ++ Text.hexList pins
  | ran frames cycles => s!"ran {frames} frames, {cycles} cycles"
  | malformedRecord => "ignoring malformed save record"
  | malformedSave _ => "ignoring malformed save for"
  | notStored path => "no stored value at " ++ Text.quoted path
  | unreadable _ => "could not read"
  | unwritable _ => "could not write"

end Event

end PocketConsole
