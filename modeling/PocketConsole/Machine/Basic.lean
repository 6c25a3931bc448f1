import PocketConsole.Bank
import PocketConsole.Flag
import PocketConsole.Machine.Arithmetic
import PocketConsole.Program
import PocketConsole.Register
import PocketConsole.Scheduler

namespace PocketConsole

/-- The machine. -/
structure Machine where
  memory : Memory
  storage : Storage
  registers : Registers
  /-- The name of the program loaded. -/
  name : String
  /-- The jump targets of the program loaded. -/
  labels : Labels
  running : Bool
  scheduler : Scheduler

namespace Machine

/-- A stopped machine with nothing loaded. -/
def fresh : Machine :=
  ⟨.zero, .zero, .zero, "", .empty, false, .fresh⟩

/-- A running machine with a program just loaded. Nothing of what was there before is left. -/
def ofProgram (p : Program) : Machine where
  memory := .zero
  storage := (Bank.zero.write 0 p.storage).write 0 p.image
  registers := .zero
  name := p.name
  labels := p.code.labels
  running := true
  scheduler := .fresh

/-- The machine with registers and memory zero; the program stays. -/
def reset (m : Machine) : Machine :=
  { m with memory := .zero, registers := .zero }

/-- The machine, executing as time passes. -/
def run (m : Machine) : Machine :=
  { m with running := true }

/-- The machine, not executing. -/
def pause (m : Machine) : Machine :=
  { m with running := false }

/-! ### Registers -/

/-- The byte in a register. -/
def get (m : Machine) (r : Register) : UInt8 :=
  m.registers.get r

/-- The byte in a numbered register, 0 without one. -/
def getAt (m : Machine) (n : UInt8) : UInt8 :=
  match Register.ofByte? n with
  | some r => m.get r
  | none => 0

/-- Whether results wrap. -/
def wraps (m : Machine) : Bool :=
  isHigh (m.get .wv)

/-- The machine with a byte in a register as it is. -/
def put (m : Machine) (r : Register) (v : UInt8) : Machine :=
  { m with registers := m.registers.set r v }

/-- The machine with a result in a register. -/
def set (m : Machine) (r : Register) (v : Int) : Machine :=
  m.put r (fit m.wraps v)

/-- The machine with a result in a numbered register, if there is one. -/
def setAt (m : Machine) (n : UInt8) (v : Int) : Machine :=
  match Register.ofByte? n with
  | some r => m.set r v
  | none => m

/-- The address in the program counter. -/
def counter (m : Machine) : Address :=
  ⟨m.get .pch, m.get .pcl⟩

/-- The index of the token that comes next. -/
def index (m : Machine) : UInt16 :=
  m.counter.toUInt16

/-- The machine with the program counter at an address. -/
def goto (m : Machine) (a : Address) : Machine :=
  (m.put .pch a.high).put .pcl a.low

/-- The address in the return pointer. -/
def returnPointer (m : Machine) : Address :=
  ⟨m.get .rph, m.get .rpl⟩

/-- The memory address pointed at. -/
def memoryPointer (m : Machine) : Nat :=
  (Address.mk (m.get .mph) (m.get .mpl)).toUInt16.toNat

/-- The storage address pointed at. -/
def storagePointer (m : Machine) : Nat :=
  (Address.mk (m.get .sph) (m.get .spl)).toUInt16.toNat

/-! ### The stack -/

/-- The byte of the ring at an index. -/
def cell (m : Machine) (i : UInt8) : UInt8 :=
  m.memory.getIn .stack i.toNat

/-- The top of the stack. -/
def top (m : Machine) : UInt8 :=
  m.cell (m.get .si)

/-- The cell below the top. -/
def second (m : Machine) : UInt8 :=
  m.cell (m.get .si - 1)

/-- The cell at a distance from the top, upwards if positive, around the ring. -/
def stackAt (m : Machine) (distance : Int) : UInt8 :=
  m.cell (UInt8.ofNat (((m.get .si).toNat + distance) % 256).toNat)

/-- As `stackAt`, with the sum taken in signed 32-bit words. -/
def checkedStackAt (m : Machine) (distance : Int) : Except Fault UInt8 :=
  if 2147483648 ≤ (m.get .si).toNat + distance then .error .addOverflow else .ok (m.stackAt distance)

/-- The machine with the stack index moved up, around the ring. -/
def lift (m : Machine) (n : UInt8) : Machine :=
  m.put .si (m.get .si + n)

/-- The machine with the stack index moved down, around the ring. -/
def lower (m : Machine) (n : UInt8) : Machine :=
  m.put .si (m.get .si - n)

/-- The machine with a result on top of the stack. -/
def push (m : Machine) (v : Int) : Machine :=
  let byte := fit m.wraps v
  let i := m.get .si + 1
  let lifted := m.put .si i
  { lifted with memory := lifted.memory.writeIn .stack i.toNat [byte] }

/-- The machine without the top of its stack. -/
def drop (m : Machine) : Machine :=
  m.lower 1

/-! ### The typed view of memory -/

/-- The machine with bytes written into a region. -/
def writeIn (m : Machine) (r : Region) (offset : Nat) (data : List UInt8) : Machine :=
  { m with memory := m.memory.writeIn r offset data }

/-- The state of a button, 0 if there is none. -/
def button (m : Machine) (n : Nat) : UInt8 :=
  m.memory.getIn .buttons n

/-- The frequency of the tone. -/
def tone (m : Machine) : UInt16 :=
  (Address.mk (m.memory.getIn .audio 0) (m.memory.getIn .audio 1)).toUInt16

/-- The icons shown. -/
def icons (m : Machine) : UInt8 :=
  m.memory.getIn .icons 0

/-- The ticks counted. -/
def timer (m : Machine) : UInt8 :=
  m.memory.getIn .timer 0

/-- The flag of the serial line for sending. -/
def sending (m : Machine) : UInt8 :=
  m.memory.getIn .serialState 0

/-- The flag of the serial line for receiving. -/
def receiving (m : Machine) : UInt8 :=
  m.memory.getIn .serialState 1

/-- The machine with the two flags of the serial line set. -/
def setSerial (m : Machine) (sending receiving : UInt8) : Machine :=
  m.writeIn .serialState 0 [sending, receiving]

/-- The picture. -/
def video (m : Machine) : Vector UInt8 512 :=
  Vector.ofFn fun i => m.memory.getIn .video i

theorem get_put (m : Machine) (r s : Register) (v : UInt8) :
    (m.put r v).get s = if r = s then v else m.get s :=
  Registers.get_set m.registers r s v

theorem counter_goto (m : Machine) (a : Address) : (m.goto a).counter = a := by
  simp [counter, goto, get_put]

end Machine

end PocketConsole
