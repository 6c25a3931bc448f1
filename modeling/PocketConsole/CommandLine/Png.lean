import PocketConsole.CommandLine.Image
import PocketConsole.Text.Letters

namespace PocketConsole.Png

/-- The four bytes of a word, highest first. -/
def wordBytes (v : UInt32) : List UInt8 :=
  [(v >>> 24).toUInt8, (v >>> 16).toUInt8, (v >>> 8).toUInt8, v.toUInt8]

/-- A number of bits of a cyclic check taken in. -/
def checkBits : Nat → UInt32 → UInt32
  | 0, c => c
  | n + 1, c => checkBits n (if c &&& 1 = 1 then (c >>> 1) ^^^ 0xEDB88320 else c >>> 1)

/-- The cyclic check of a chunk. -/
def cyclicCheck (data : List UInt8) : UInt32 :=
  ~~~ data.foldl (fun c v => checkBits 8 (c ^^^ v.toUInt32)) 0xFFFFFFFF

/-- A chunk: its length, its name and data, and the check of both. -/
def chunk (name : String) (data : List UInt8) : List UInt8 :=
  let body := name.toUTF8.toList ++ data
  wordBytes (UInt32.ofNat data.length) ++ body ++ wordBytes (cyclicCheck body)

/-- The check of compressed data: the sum of the bytes and the sum of all sums on the way. -/
def sumCheck (data : List UInt8) : UInt32 :=
  let (a, b) := data.foldl (fun ((a, b) : Nat × Nat) v =>
    let next := (a + v.toNat) % 65521
    (next, (b + next) % 65521)) (1, 0)
  UInt32.ofNat (b * 65536 + a)

/-- Compressed data that is not in fact compressed: one block, for less than 65536 bytes. -/
def deflated (data : List UInt8) : List UInt8 :=
  let size := UInt16.ofNat data.length
  let low (v : UInt16) : UInt8 := v.toUInt8
  let high (v : UInt16) : UInt8 := (v >>> 8).toUInt8
  [0x78, 0x01, 0x01, low size, high size, low (~~~size), high (~~~size)] ++ data ++
    wordBytes (sumCheck data)

/-- Bytes cut into rows of one length. The zero before a row says that its bytes are no differences. -/
def rowBytes (length : Nat) : Nat → List UInt8 → List UInt8
  | 0, _ => []
  | n + 1, bytes => 0 :: (bytes.take length ++ rowBytes length n (bytes.drop length))

/-- The bytes that a file of this kind starts with. -/
def signature : List UInt8 :=
  [137, 80, 78, 71, 13, 10, 26, 10]

/-- A picture as a file, in a single block that is not compressed. There must be a pixel, and one block must do. -/
def encode? (i : Image) : Option ByteArray :=
  if i.bytes ≠ [] ∧ i.height.toNat * (1 + 4 * i.width.toNat) < 65536 then
    let header := wordBytes i.width ++ wordBytes i.height ++ [8, 6, 0, 0, 0]
    let data := rowBytes (4 * i.width.toNat) i.height.toNat i.bytes
    some ⟨(signature ++ chunk "IHDR" header ++ chunk "IDAT" (deflated data) ++ chunk "IEND" []).toArray⟩
  else none

/-- Whether the name of a file ends as that of a picture must. -/
def isFileName (path : String) : Bool :=
  match ((FileTree.fileName? path).bind fun name => (FileTree.cut name).2) with
  | some suffix =>
    Text.sameLetters suffix.toList "png".toList || Text.sameLetters suffix.toList "apng".toList
  | none => false

/-- Saves pictures without compressing them. -/
def writer : ImageWriter where
  save files path image :=
    if isFileName path then
      match encode? image with
      | none => (files, false)
      | some content =>
        match files.write path content with
        | .ok written => (written, true)
        | .error _ => (files, false)
    else (files, false)

end PocketConsole.Png
