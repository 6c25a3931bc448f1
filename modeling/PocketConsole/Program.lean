import PocketConsole.Address
import PocketConsole.Opcode
import PocketConsole.SortedMap

namespace PocketConsole

/-- One instruction: an opcode byte and a parameter byte. -/
structure Token where
  opcode : UInt8
  parameter : UInt8
deriving DecidableEq, Inhabited, Repr

namespace Token

/-- The token of an operation. -/
def ofOpcode (op : Opcode) (parameter : UInt8) : Token :=
  ⟨op.toByte, parameter⟩

/-- The operation, if the opcode byte is one. -/
def op? (t : Token) : Option Opcode :=
  Opcode.ofByte? t.opcode

/-- The token as it stands in storage. -/
def bytes (t : Token) : List UInt8 :=
  [t.opcode, t.parameter]

theorem op?_ofOpcode (op : Opcode) (parameter : UInt8) : (ofOpcode op parameter).op? = some op :=
  Opcode.ofByte?_toByte op

end Token

/-- Jump targets by label number. -/
abbrev Labels : Type := SortedMap UInt8 Address

/-- Code: tokens, and the targets their jumps name. -/
structure Code where
  tokens : List Token
  labels : Labels

/-- A background picture; the machine never looks at it. -/
structure Cutout where
  width : UInt16
  height : UInt16
  rgba : List UInt8

/-- A program as it is given to a machine. -/
structure Program where
  /-- Also the name its saves are kept under. -/
  name : String
  author : String := ""
  icons : List String := []
  cutout : Option Cutout := none
  /-- Data put into storage before the tokens. -/
  storage : List UInt8 := []
  code : Code := ⟨[], .empty⟩

namespace Program

/-- The program with other code. -/
def install (p : Program) (code : Code) : Program :=
  { p with code := code }

/-- The target of a label. -/
def label? (p : Program) (id : UInt8) : Option Address :=
  p.code.labels.get? id

/-- The bytes of the tokens, in order. -/
def image (p : Program) : List UInt8 :=
  p.code.tokens.flatMap Token.bytes

end Program

end PocketConsole
