import PocketConsole.Text.Letters

namespace PocketConsole

/-- The one-byte registers, numbered from 0 in the order given here. -/
inductive Register
  /-- Where most loads go. -/
  | xa
  /-- A second buffer. -/
  | xb
  /-- Program counter, high byte. -/
  | pch
  /-- Program counter, low byte. -/
  | pcl
  /-- Stack index. -/
  | si
  /-- Memory pointer, high byte. -/
  | mph
  /-- Memory pointer, low byte. -/
  | mpl
  /-- Storage pointer, high byte. -/
  | sph
  /-- Storage pointer, low byte. -/
  | spl
  /-- Return pointer, high byte. -/
  | rph
  /-- Return pointer, low byte. -/
  | rpl
  /-- Cycles still to sleep. -/
  | sc
  /-- Stops the timer while high. -/
  | tp
  /-- Reserved. -/
  | dm
  /-- Wraps results while high. -/
  | wv
deriving DecidableEq, Repr

namespace Register

/-- All registers, in order. -/
def all : Array Register :=
  #[.xa, .xb, .pch, .pcl, .si, .mph, .mpl, .sph, .spl, .rph, .rpl, .sc, .tp, .dm, .wv]

/-- The number of a register. -/
def index (r : Register) : Fin 15 :=
  ⟨r.ctorIdx, by cases r <;> decide⟩

/-- The register of a number. -/
def ofByte? (v : UInt8) : Option Register :=
  all[v.toNat]?

/-- The symbol of a register in source text. -/
def name : Register → String
  | xa => "xa"
  | xb => "xb"
  | pch => "pch"
  | pcl => "pcl"
  | si => "si"
  | mph => "mph"
  | mpl => "mpl"
  | sph => "sph"
  | spl => "spl"
  | rph => "rph"
  | rpl => "rpl"
  | sc => "sc"
  | tp => "tp"
  | dm => "dm"
  | wv => "wv"

/-- The register of a symbol, in whatever case it is written. -/
def ofName? (word : List Char) : Option Register :=
  all.find? fun r => Text.sameLetters r.name.toList word

/-- The number of a register as a byte. -/
def toByte (r : Register) : UInt8 :=
  UInt8.ofNat r.index

theorem index_injective {a b : Register} (same : a.index = b.index) : a = b := by
  revert same
  cases a <;> cases b <;> decide

theorem ofByte?_toByte (r : Register) : ofByte? r.toByte = some r := by
  cases r <;> rfl

end Register

/-- The register file. -/
structure Registers where
  cells : Vector UInt8 15
deriving DecidableEq

namespace Registers

/-- All registers zero. -/
def zero : Registers :=
  ⟨Vector.replicate 15 0⟩

/-- The byte in a register. -/
def get (f : Registers) (r : Register) : UInt8 :=
  f.cells[r.index]

/-- The file with a byte put into a register. -/
def set (f : Registers) (r : Register) (v : UInt8) : Registers :=
  ⟨f.cells.set r.index v⟩

/-- The bytes in order. -/
def toList (f : Registers) : List UInt8 :=
  f.cells.toList

theorem get_zero (r : Register) : zero.get r = 0 := by
  simp [get, zero]

theorem get_set (f : Registers) (r s : Register) (v : UInt8) :
    (f.set r v).get s = if r = s then v else f.get s := by
  have same : r.index = s.index ↔ r = s := ⟨Register.index_injective, congrArg _⟩
  simp only [get, set, Fin.getElem_fin, Vector.getElem_set, ← Fin.ext_iff, same]

end Registers

end PocketConsole
