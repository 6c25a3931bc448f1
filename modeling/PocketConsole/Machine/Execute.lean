import PocketConsole.Button
import PocketConsole.Event
import PocketConsole.Machine.Basic

namespace PocketConsole

/-- The condition of a conditional jump. -/
def Opcode.comparison? : Opcode → Option Comparison
  | jeq => some .eq
  | jneq => some .ne
  | jgt => some .gt
  | jgte => some .ge
  | jlt => some .lt
  | jlte => some .le
  | _ => none

namespace Machine

/-- Replaces the two topmost cells by the result of an operation on them. -/
def combine (m : Machine) (o : Operator) : Machine :=
  let v := o.eval m.second m.top
  m.drop.drop.push v

/-- Goes to a label, after noting the program counter in the return pointer. A label that the
program does not have leads to the origin. -/
def jump (m : Machine) (id : UInt8) : Machine :=
  let back := m.counter
  let target := (m.labels.get? id).getD .origin
  ((m.put .rph back.high).put .rpl back.low).goto target

/-- Takes two cells off the stack, and jumps if a condition holds of them. -/
def branch (m : Machine) (c : Comparison) (id : UInt8) : Machine :=
  if c.holds m.second m.top then m.drop.drop.jump id else m.drop.drop

/-- A flag as a result. -/
def flag (b : Bool) : Int :=
  if b then high.toNat else low.toNat

/-- The offset of a pixel into the picture. A column beyond the width wraps around in its row. -/
def pixel (x y : UInt8) : Nat :=
  x.toNat % 32 + y.toNat * 32

/-- Copies the storage byte pointed at to `xa`, or a block of a given length to memory. -/
def read (m : Machine) (len : UInt8) : Machine :=
  if len = 0 then m.set .xa (m.storage.get m.storagePointer).toNat
  else
    let data := m.storage.read m.storagePointer len.toNat
    let target := m.memoryPointer
    { m with memory := m.memory.write target data }

/-- Tells whether a packet has come, and frees the line. -/
def receive (m : Machine) : Machine :=
  let come := !isHigh m.sending && isHigh m.receiving
  (m.set .xa (flag come)).setSerial low low

/-- Carries out an operation on a machine whose program counter is already past it. Keeping and
restoring saves is left to the host. -/
def perform (m : Machine) (op : Opcode) (parameter : UInt8) : Machine :=
  match op with
  | .const | .push => m.push parameter.toNat
  | .pushr => m.push (m.getAt parameter).toNat
  | .pop => (m.set .xa m.top.toNat).drop
  | .copy => m.set .xa m.top.toNat
  | .incr => m.lift parameter
  | .decr => m.lower parameter
  | .add => m.combine .add
  | .sub => m.combine .sub
  | .mul => m.combine .mul
  | .div => m.combine .div
  | .mod => m.combine .mod
  | .and => m.combine .and
  | .or => m.combine .or
  | .xor => m.combine .xor
  | .not =>
    let v := complement m.top
    m.drop.push v
  | .lshft => m.combine .lshft
  | .rshft => m.combine .rshft
  | .set => m.set .xa parameter.toNat
  | .get => m.set .xa (m.getAt parameter).toNat
  | .mov => m.setAt parameter (m.get .xa).toNat
  | .maddr =>
    let a : Address := ⟨m.second, m.top⟩
    (m.put .mph a.high).put .mpl a.low
  | .peek => m.set .xa (m.memory.get m.memoryPointer).toNat
  | .poke =>
    let v := m.get .xa
    let target := m.memoryPointer
    { m with memory := m.memory.set target v }
  | .saddr =>
    let a : Address := ⟨m.second, m.top⟩
    (m.put .sph a.high).put .spl a.low
  | .read => m.read parameter
  | .goto => m.goto ⟨m.second, m.top⟩
  | .jump => m.jump parameter
  | .rtn => m.goto m.returnPointer
  | .jeq => m.branch .eq parameter
  | .jneq => m.branch .ne parameter
  | .jgt => m.branch .gt parameter
  | .jgte => m.branch .ge parameter
  | .jlt => m.branch .lt parameter
  | .jlte => m.branch .le parameter
  | .btn => m.set .xa (flag (m.button parameter.toNat == Button.justPressed))
  | .btnd => m.set .xa (flag (Button.isDown (m.button parameter.toNat)))
  | .tick => m.set .xa m.timer.toNat
  | .pin => m.set .xa (m.memory.getIn .serialPins parameter.toNat).toNat
  | .pout =>
    let v := m.get .xa
    m.writeIn .serialPins parameter.toNat [v]
  | .send => m.setSerial high low
  | .recv => m.receive
  | .clear => m.writeIn .video 0 (List.replicate Region.video.len (parameter % 4))
  | .draw =>
    let target := pixel m.second m.top
    m.writeIn .video target [parameter % 4]
  | .shade => m.set .xa (m.memory.getIn .video (pixel m.second m.top)).toNat
  | .tone =>
    let frequency := [m.second, m.top]
    m.writeIn .audio 0 frequency
  | .sleep => m.set .sc parameter.toNat
  | .save | .load | .logr | .logs | .tile | .spr | .icon | .print | .rand | .sin | .cos | .nop => m

/-- What is worth noting about an operation about to be carried out. -/
def report (m : Machine) (op : Opcode) (parameter : UInt8) : Option Event :=
  match op with
  | .logr => some (.register (Register.ofByte? parameter) (m.getAt parameter))
  | .logs => some (.stackTop m.top)
  | op =>
    let taken := op.isJump && (op.comparison?.all fun c => c.holds m.second m.top)
    if taken && (m.labels.get? parameter).isNone then some (.missingLabel parameter) else none

end Machine

end PocketConsole
