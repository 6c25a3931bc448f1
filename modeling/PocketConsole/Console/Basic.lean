import PocketConsole.Console.Buttons
import PocketConsole.Console.Screen
import PocketConsole.Machine.Rig

namespace PocketConsole

/-- One transfer over the serial line: a byte for each pin. -/
abbrev Packet : Type := Vector UInt8 16

/-- The bytes on the serial pins. -/
def Machine.pins (m : Machine) : Packet :=
  Vector.ofFn fun i => m.memory.getIn .serialPins i

/-- What comes into a console. -/
structure Input where
  pressed : List Button := []
  released : List Button := []
  packet : Option Packet := none

/-- What a console gives out. -/
structure Output where
  /-- Colours with their opacity, row by row. -/
  pixels : Vector UInt32 512
  tone : UInt16
  icons : UInt8
  /-- The packet that the program has sent. -/
  packet : Option Packet
  /-- The cycles run. -/
  cycles : Nat

/-- A machine with its peripherals. -/
structure Console (σ : Type) where
  rig : Rig σ
  screen : Screen := .blank
  /-- The frequency last noted. -/
  tone : UInt16 := 0
  /-- Packets that wait for the serial line to be free. -/
  waiting : List Packet := []

namespace Console

variable {σ : Type}

/-- The console with a program just loaded and its peripherals as new. -/
def load (c : Console σ) (p : Program) : Console σ where
  rig := c.rig.load p

/-- The console with its buttons pressed and let go, in this order. -/
def takeButtons (c : Console σ) (input : Input) : Console σ :=
  let pressed := input.pressed.foldl Machine.press c.rig.machine
  { c with rig := ⟨input.released.foldl Machine.letGo pressed, c.rig.host⟩ }

/-- The console with a packet behind those that wait. -/
def queue (c : Console σ) (p : Packet) : Console σ :=
  { c with waiting := c.waiting ++ [p] }

/-- Puts the first packet that waits on the serial line, if the line is free. -/
def deliver (c : Console σ) : Console σ :=
  let m := c.rig.machine
  if m.sending = low ∧ m.receiving = low then
    match c.waiting with
    | [] => c
    | p :: more =>
      let host := c.rig.host.note (.packetIn p.toList)
      { c with
        rig := ⟨(m.writeIn .serialPins 0 p.toList).setSerial low high, host⟩
        waiting := more }
  else c

/-- Takes the packet that the program has sent off the serial line, and frees the line. -/
def collect (c : Console σ) : Option Packet × Console σ :=
  let m := c.rig.machine
  if isHigh m.sending && !isHigh m.receiving then
    let host := c.rig.host.note (.packetOut m.pins.toList)
    (some m.pins, { c with rig := ⟨m.setSerial low low, host⟩ })
  else (none, c)

/-- Notes the frequency of the tone if it has changed. -/
def listen (c : Console σ) : Console σ :=
  let hertz := c.rig.machine.tone
  if hertz = c.tone then c else { c with rig := c.rig.note (.tone hertz), tone := hertz }

/-- Runs one frame and shows it; buttons age if the machine runs. -/
def frame [Store σ] (c : Console σ) (elapsed : Duration) : Option (Nat × Console σ) :=
  match c with
  | ⟨rig, screen, tone, waiting⟩ =>
    match rig.frame elapsed with
    | none => none
    | some ⟨⟨m, host⟩, cycles, picture⟩ =>
      let seen := if m.running then m.ageButtons else m
      let shown := (picture.map screen.draw).getD screen
      some (cycles, ⟨⟨seen, host⟩, shown, tone, waiting⟩)

/-- Whether a call would show a frame that cannot be counted. -/
def isFull (c : Console σ) : Bool :=
  c.rig.machine.running && c.screen.isFull

/-- Takes in what has come, runs one frame, and tells what is to be seen and heard. There is no
answer where the frame has no end. -/
def update [Store σ] (c : Console σ) (elapsed : Duration) (input : Input) :
    Option (Output × Console σ) :=
  let taken := c.takeButtons input
  let queued := (input.packet.map taken.queue).getD taken
  match queued.deliver.frame elapsed with
  | none => none
  | some (cycles, after) =>
    let heard := after.listen
    match heard.collect with
    | (packet, final) =>
      some
        ({ pixels := final.screen.pixels
           tone := final.tone
           icons := final.rig.machine.icons
           packet := packet
           cycles := cycles }, final)

/-- As `update`, with its sums taken in 64-bit words: the cycles of the frame, and the frames shown. -/
def checkedUpdate [Store σ] (c : Console σ) (elapsed : Duration) (input : Input) :
    Except Fault (Option (Output × Console σ)) :=
  match c.update elapsed input with
  | none => .ok none
  | some (out, after) =>
    if UInt64.size ≤ out.cycles ∨ c.isFull then .error .addOverflow else .ok (some (out, after))

end Console

end PocketConsole
