import PocketConsole.Text.Letters

namespace PocketConsole

/-- The operations of the machine. Of the two topmost stack cells, `a` is the top and `b` the one
below it. Their bytes run from 1 in the order given here; 0 is never an operation. -/
inductive Opcode
  /-- Pushes the parameter. -/
  | const
  /-- Pushes the parameter. -/
  | push
  /-- Pushes the register that the parameter numbers. -/
  | pushr
  /-- Moves the top of the stack to `xa`. -/
  | pop
  /-- Copies the top of the stack to `xa`. -/
  | copy
  /-- Moves the stack index up by the parameter. -/
  | incr
  /-- Moves the stack index down by the parameter. -/
  | decr
  /-- Replaces `b a` by their sum. -/
  | add
  /-- Replaces `b a` by `b - a`. -/
  | sub
  /-- Replaces `b a` by their product. -/
  | mul
  /-- Replaces `b a` by `b / a`, a half rounded up; a zero divisor gives 255. -/
  | div
  /-- Replaces `b a` by the remainder of `b` by `a`, 0 when `a` is 0. -/
  | mod
  /-- Reserved. -/
  | rand
  /-- Reserved. -/
  | sin
  /-- Reserved. -/
  | cos
  /-- Replaces `b a` by their common bits. -/
  | and
  /-- Replaces `b a` by the bits of either. -/
  | or
  /-- Replaces `b a` by the bits of exactly one. -/
  | xor
  /-- Replaces `a` by its two's complement negation, `-1 - a`. -/
  | not
  /-- Replaces `b a` by `b` shifted left. -/
  | lshft
  /-- Replaces `b a` by `b` shifted right. -/
  | rshft
  /-- Copies the parameter to `xa`. -/
  | set
  /-- Copies a register to `xa`. -/
  | get
  /-- Copies `xa` to a register. -/
  | mov
  /-- Points the memory pointer at `(b, a)`. -/
  | maddr
  /-- Copies the byte at the memory pointer to `xa`. -/
  | peek
  /-- Copies `xa` to the memory pointer. -/
  | poke
  /-- Keeps the save window under the program's name. -/
  | save
  /-- Fills the save window with what is kept under the program's name. -/
  | load
  /-- Points the storage pointer at `(b, a)`. -/
  | saddr
  /-- Copies one storage byte to `xa`, or a block to memory. -/
  | read
  /-- Goes to the token `(b, a)`. -/
  | goto
  /-- Goes to a label, noting where it came from. -/
  | jump
  /-- Goes to the return pointer. -/
  | rtn
  /-- Jumps if `b = a`. -/
  | jeq
  /-- Jumps if `b ≠ a`. -/
  | jneq
  /-- Jumps if `b > a`. -/
  | jgt
  /-- Jumps if `b ≥ a`. -/
  | jgte
  /-- Jumps if `b < a`. -/
  | jlt
  /-- Jumps if `b ≤ a`. -/
  | jlte
  /-- Sets `xa` to whether a button was just pressed. -/
  | btn
  /-- Sets `xa` to whether a button is down. -/
  | btnd
  /-- Copies the timer to `xa`. -/
  | tick
  /-- Copies a serial pin to `xa`. -/
  | pin
  /-- Copies `xa` to a serial pin. -/
  | pout
  /-- Offers the pins to the other end. -/
  | send
  /-- Sets `xa` to whether a packet has come, and frees the line. -/
  | recv
  /-- Fills the screen with a shade. -/
  | clear
  /-- Sets the pixel `(b, a)` to a shade. -/
  | draw
  /-- Copies the shade of the pixel `(b, a)` to `xa`. -/
  | shade
  /-- Reserved. -/
  | tile
  /-- Reserved. -/
  | spr
  /-- Reserved. -/
  | icon
  /-- Reserved. -/
  | print
  /-- Plays the frequency `(b, a)`; 0 is silence. -/
  | tone
  /-- Stalls for a number of cycles. -/
  | sleep
  /-- Logs a register. -/
  | logr
  /-- Logs the top of the stack. -/
  | logs
  /-- Does nothing. -/
  | nop
deriving DecidableEq, Repr

namespace Opcode

/-- All operations, in the order of their bytes. -/
def all : Array Opcode :=
  #[.const, .push, .pushr, .pop, .copy, .incr, .decr, .add, .sub, .mul, .div, .mod,
    .rand, .sin, .cos, .and, .or, .xor, .not, .lshft, .rshft, .set, .get, .mov, .maddr,
    .peek, .poke, .save, .load, .saddr, .read, .goto, .jump, .rtn, .jeq, .jneq, .jgt,
    .jgte, .jlt, .jlte, .btn, .btnd, .tick, .pin, .pout, .send, .recv, .clear, .draw,
    .shade, .tile, .spr, .icon, .print, .tone, .sleep, .logr, .logs, .nop]

/-- The byte of an operation. -/
def toByte (op : Opcode) : UInt8 :=
  UInt8.ofNat (op.ctorIdx + 1)

/-- The operation of a byte. -/
def ofByte? (v : UInt8) : Option Opcode :=
  if v = 0 then none else all[v.toNat - 1]?

/-- The word that stands for an operation in source text. -/
def name : Opcode → String
  | const => "CONST"
  | push => "PUSH"
  | pushr => "PUSHR"
  | pop => "POP"
  | copy => "COPY"
  | incr => "INCR"
  | decr => "DECR"
  | add => "ADD"
  | sub => "SUB"
  | mul => "MUL"
  | div => "DIV"
  | mod => "MOD"
  | rand => "RAND"
  | sin => "SIN"
  | cos => "COS"
  | and => "AND"
  | or => "OR"
  | xor => "XOR"
  | not => "NOT"
  | lshft => "LSHFT"
  | rshft => "RSHFT"
  | set => "SET"
  | get => "GET"
  | mov => "MOV"
  | maddr => "MADDR"
  | peek => "PEEK"
  | poke => "POKE"
  | save => "SAVE"
  | load => "LOAD"
  | saddr => "SADDR"
  | read => "READ"
  | goto => "GOTO"
  | jump => "JUMP"
  | rtn => "RTN"
  | jeq => "JEQ"
  | jneq => "JNEQ"
  | jgt => "JGT"
  | jgte => "JGTE"
  | jlt => "JLT"
  | jlte => "JLTE"
  | btn => "BTN"
  | btnd => "BTND"
  | tick => "TICK"
  | pin => "PIN"
  | pout => "POUT"
  | send => "SEND"
  | recv => "RECV"
  | clear => "CLEAR"
  | draw => "DRAW"
  | shade => "SHADE"
  | tile => "TILE"
  | spr => "SPR"
  | icon => "ICON"
  | print => "PRINT"
  | tone => "TONE"
  | sleep => "SLEEP"
  | logr => "LOGR"
  | logs => "LOGS"
  | nop => "NOP"

/-- The operation of a word, in whatever case it is written. -/
def ofName? (word : List Char) : Option Opcode :=
  let wanted := Text.upper word
  all.find? fun op => op.name.toList = wanted

/-- Whether the parameter numbers a label. -/
def isJump : Opcode → Bool
  | jump | jeq | jneq | jgt | jgte | jlt | jlte => true
  | _ => false

theorem ofByte?_toByte (op : Opcode) : ofByte? op.toByte = some op := by
  cases op <;> rfl

theorem toByte_ne_zero (op : Opcode) : op.toByte ≠ 0 := by
  cases op <;> decide

end Opcode

end PocketConsole
