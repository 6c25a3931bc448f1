import PocketConsole.Text.Letters

namespace PocketConsole

/-- The buttons, in the order of their bytes. -/
inductive Button
  | left
  | action
  | right
deriving DecidableEq, Repr

namespace Button

/-- All buttons, in order. -/
def all : List Button :=
  [left, action, right]

/-- The offset of a button's byte. -/
def index (b : Button) : Nat :=
  b.ctorIdx

/-- The name of a button. -/
def name : Button → String
  | left => "left"
  | action => "action"
  | right => "right"

/-- The button of a name, in whatever case it is written. -/
def ofName? (word : List Char) : Option Button :=
  all.find? fun b => Text.sameLetters b.name.toList word

/-- The byte of a button that is up. -/
def up : UInt8 :=
  0

/-- The byte of a button that has been pressed since the last frame. -/
def justPressed : UInt8 :=
  1

/-- The byte of a button that has been down for a frame. -/
def held : UInt8 :=
  2

/-- Whether a byte is that of a button that is down. -/
def isDown (v : UInt8) : Bool :=
  v == justPressed || v == held

theorem index_lt (b : Button) : b.index < 3 := by
  cases b <;> decide

theorem index_injective {a b : Button} (same : a.index = b.index) : a = b := by
  revert same
  cases a <;> cases b <;> decide

theorem ofName?_name (b : Button) : ofName? b.name.toList = some b := by
  cases b <;> decide

end Button

end PocketConsole
