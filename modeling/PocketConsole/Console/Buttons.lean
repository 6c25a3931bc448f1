import PocketConsole.Button
import PocketConsole.Machine.Basic

namespace PocketConsole

namespace Machine

/-- The machine after a button is pressed; one that is down already stays as it is. -/
def press (m : Machine) (b : Button) : Machine :=
  if m.button b.index = Button.up then m.writeIn .buttons b.index [Button.justPressed] else m

/-- The machine after a button is let go. -/
def letGo (m : Machine) (b : Button) : Machine :=
  m.writeIn .buttons b.index [Button.up]

/-- The byte of a button after a frame. -/
def aged (v : UInt8) : UInt8 :=
  if v = Button.justPressed then Button.held else v

/-- The machine after a frame has seen its buttons. -/
def ageButtons (m : Machine) : Machine :=
  m.writeIn .buttons 0 ((m.memory.slice .buttons).map aged)

end Machine

end PocketConsole
