import PocketConsole.Fault

namespace PocketConsole

/-- A named span of memory. -/
structure Region where
  addr : Nat
  len : Nat
deriving DecidableEq, Repr

namespace Region

/-- One past the last address. -/
def stop (r : Region) : Nat :=
  r.addr + r.len

/-- One past the last address, where it is a 64-bit number. -/
def checkedStop (r : Region) : Except Fault Nat :=
  if r.stop < UInt64.size then .ok r.stop else .error .addOverflow

/-- The ring of the stack. -/
def stack : Region := ⟨0, 256⟩

/-- The state of each button: 0 up, 1 just pressed, 2 held. -/
def buttons : Region := ⟨512, 3⟩

/-- The frequency of the tone, high byte first. -/
def audio : Region := ⟨520, 2⟩

/-- The icons shown, one a bit. -/
def icons : Region := ⟨524, 1⟩

/-- The ticks counted. -/
def timer : Region := ⟨526, 1⟩

/-- The flags of the serial line: sending, then receiving. -/
def serialState : Region := ⟨528, 2⟩

/-- The pins of the serial line. -/
def serialPins : Region := ⟨544, 16⟩

/-- The picture, one byte a pixel, row by row. -/
def video : Region := ⟨640, 512⟩

/-- The bytes kept by a save. -/
def saveData : Region := ⟨1152, 256⟩

/-- Room for images. -/
def imageData : Region := ⟨1408, 512⟩

end Region

end PocketConsole
