namespace PocketConsole

/-- The colours of the shades 1, 2 and 3: red, green and blue, from the highest byte down. -/
def palette : Vector UInt32 3 :=
  #v[0xBBC1CB, 0x606E7C, 0x2F3944]

/-- A colour with full opacity in its highest byte. -/
def solid (colour : UInt32) : UInt32 :=
  0xFF000000 ||| colour

/-- A shade as a colour with its opacity. Shades without a colour are transparent. -/
def argb (colours : Vector UInt32 3) (shade : UInt8) : UInt32 :=
  if shade = 1 then solid colours[0]
  else if shade = 2 then solid colours[1]
  else if shade = 3 then solid colours[2]
  else 0

/-- The screen: its picture, row by row, and how many frames it has shown. -/
structure Screen where
  pixels : Vector UInt32 512
  count : UInt64

namespace Screen

/-- Pixels in a row. -/
def width : Nat :=
  32

/-- Rows. -/
def height : Nat :=
  16

/-- A screen that has shown nothing. -/
def blank : Screen :=
  ⟨Vector.replicate 512 0, 0⟩

/-- How many frames the screen has shown. -/
def frames (s : Screen) : Nat :=
  s.count.toNat

/-- Whether one more frame cannot be counted. -/
def isFull (s : Screen) : Bool :=
  UInt64.size ≤ s.frames + 1

/-- The screen after it has shown a picture of shades. A full count starts again. -/
def draw (s : Screen) (picture : Vector UInt8 512) : Screen :=
  ⟨picture.map (argb palette), s.count + 1⟩

theorem frames_draw {s : Screen} (room : s.isFull = false) (picture : Vector UInt8 512) :
    (s.draw picture).frames = s.frames + 1 := by
  have below : s.frames + 1 < UInt64.size := Nat.lt_of_not_le (of_decide_eq_false room)
  exact (UInt64.toNat_add s.count 1).trans (Nat.mod_eq_of_lt below)

/-- The picture cut into rows. -/
def rows (pixels : Vector UInt32 512) : List (List UInt32) :=
  (List.range height).map fun y => (pixels.toList.drop (width * y)).take width

end Screen

end PocketConsole
