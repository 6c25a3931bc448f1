import PocketConsole.Console.Screen
import PocketConsole.Files.Tree

namespace PocketConsole

/-- The bytes of a pixel: red, green, blue and opacity. -/
def Png.pixelBytes (p : UInt32) : List UInt8 :=
  [(p >>> 16).toUInt8, (p >>> 8).toUInt8, p.toUInt8, (p >>> 24).toUInt8]

/-- A picture as it is handed on to be saved: four bytes for each pixel, row by row. -/
structure Image where
  width : UInt32
  height : UInt32
  bytes : List UInt8
  size : bytes.length = 4 * width.toNat * height.toNat

namespace Image

/-- The picture that bytes make up, if they are enough. -/
def ofRaw? (width height : UInt32) (bytes : List UInt8) : Option Image :=
  if enough : 4 * width.toNat * height.toNat ≤ bytes.length then
    some ⟨width, height, bytes.take (4 * width.toNat * height.toNat), List.length_take_of_le enough⟩
  else none

/-- The bytes of the pixel in a column and a row. -/
def pixel (i : Image) (x y : Nat) : List UInt8 :=
  (i.bytes.drop (4 * (x + i.width.toNat * y))).take 4

end Image

/-- The picture of a screen. -/
def Screen.image? (pixels : Vector UInt32 512) : Option Image :=
  Image.ofRaw? (UInt32.ofNat width) (UInt32.ofNat height) (pixels.toList.flatMap Png.pixelBytes)

/-- What saves pictures in files. It is given the files, a path and a picture, and tells what has become of the files
and whether the picture has been saved. -/
structure ImageWriter where
  save : FileTree → String → Image → FileTree × Bool

end PocketConsole
