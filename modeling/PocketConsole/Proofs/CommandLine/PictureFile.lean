import PocketConsole.CommandLine.Png
import PocketConsole.Proofs.Files.ReadBack

namespace PocketConsole

namespace Png

/-- Takes a number of bytes off a list. -/
def take? (n : Nat) (bytes : List UInt8) : Option (List UInt8 × List UInt8) :=
  if n ≤ bytes.length then some (bytes.take n, bytes.drop n) else none

theorem take?_append {n : Nat} (front : List UInt8) (length : front.length = n) (rest : List UInt8) :
    take? n (front ++ rest) = some (front, rest) := by
  subst length
  rw [take?, if_pos (by rw [List.length_append]; exact Nat.le_add_right _ _), List.take_left, List.drop_left]

/-- The number that bytes make up, the highest first. -/
def number (bytes : List UInt8) : Nat :=
  bytes.foldl (fun n v => n * 256 + v.toNat) 0

theorem number_wordBytes (v : UInt32) : number (wordBytes v) = v.toNat := by
  have bound := v.toNat_lt
  simp only [number, wordBytes, List.foldl_cons, List.foldl_nil, UInt32.toNat_toUInt8, UInt32.toNat_shiftRight,
    UInt32.reduceToNat, Nat.reduceMod, Nat.shiftRight_eq_div_pow, Nat.reducePow]
  omega

theorem number_halves (v : UInt16) : number [(v >>> 8).toUInt8, v.toUInt8] = v.toNat := by
  have bound := v.toNat_lt
  simp only [number, List.foldl_cons, List.foldl_nil, UInt16.toNat_toUInt8, UInt16.toNat_shiftRight,
    UInt16.reduceToNat, Nat.reduceMod, Nat.shiftRight_eq_div_pow, Nat.reducePow]
  omega

theorem length_wordBytes (v : UInt32) : (wordBytes v).length = 4 := rfl

/-! ### Chunks -/

/-- The data of a chunk of a given name at the start of some bytes, and what stands behind it. -/
def chunk? (name : String) (bytes : List UInt8) : Option (List UInt8 × List UInt8) := do
  let (size, rest) ← take? 4 bytes
  let (body, rest) ← take? (4 + number size) rest
  let (check, rest) ← take? 4 rest
  if body.take 4 = name.toUTF8.toList ∧ check = wordBytes (cyclicCheck body) then some (body.drop 4, rest) else none

theorem chunk?_chunk {name : String} (four : name.toUTF8.toList.length = 4) {data : List UInt8}
    (small : data.length < 4294967296) (rest : List UInt8) :
    chunk? name (chunk name data ++ rest) = some (data, rest) := by
  have size : number (wordBytes (UInt32.ofNat data.length)) = data.length := by
    rw [number_wordBytes, UInt32.toNat_ofNat']
    exact Nat.mod_eq_of_lt small
  have length : (name.toUTF8.toList ++ data).length = 4 + data.length := by
    rw [List.length_append, four]
  simp only [chunk?, chunk, List.append_assoc]
  rw [take?_append _ (length_wordBytes _), ← List.append_assoc name.toUTF8.toList]
  simp only [Option.bind_eq_bind, Option.bind_some]
  rw [size, take?_append _ length]
  simp only [Option.bind_some]
  rw [take?_append _ (length_wordBytes _), ← four]
  simp only [Option.bind_some, List.take_left, List.drop_left, and_self, if_true]

/-! ### Compressed data -/

/-- The data of a single block that is not compressed. -/
def inflate? (bytes : List UInt8) : Option (List UInt8) := do
  let (method, rest) ← take? 3 bytes
  let (size, rest) ← take? 2 rest
  let (complement, rest) ← take? 2 rest
  let (data, rest) ← take? (number size.reverse) rest
  if method = [0x78, 0x01, 0x01] ∧ number size.reverse + number complement.reverse = 65535 ∧
      rest = wordBytes (sumCheck data) then some data
  else none

theorem inflate?_deflated {data : List UInt8} (small : data.length < 65536) : inflate? (deflated data) = some data := by
  have size : (UInt16.ofNat data.length).toNat = data.length := by
    rw [UInt16.toNat_ofNat']
    exact Nat.mod_eq_of_lt small
  simp only [inflate?, deflated]
  generalize UInt16.ofNat data.length = v at size
  have complement : v.toNat + (~~~v).toNat = 65535 := by
    have bound := v.toNat_lt
    rw [UInt16.toNat_not]
    change _ + (65535 - _) = _
    omega
  have halves (w : UInt16) : number [w.toUInt8, (w >>> 8).toUInt8].reverse = w.toNat := number_halves w
  have head (w : UInt16) (rest : List UInt8) :
      take? 2 (w.toUInt8 :: (w >>> 8).toUInt8 :: rest) = some ([w.toUInt8, (w >>> 8).toUInt8], rest) :=
    take?_append [w.toUInt8, (w >>> 8).toUInt8] rfl rest
  have method (rest : List UInt8) : take? 3 (0x78 :: 0x01 :: 0x01 :: rest) = some ([0x78, 0x01, 0x01], rest) :=
    take?_append [0x78, 0x01, 0x01] rfl rest
  simp only [List.cons_append, List.nil_append, Option.bind_eq_bind]
  rw [method]
  simp only [Option.bind_some]
  rw [head]
  simp only [Option.bind_some]
  rw [head]
  simp only [Option.bind_some]
  rw [halves, take?_append _ size.symm]
  simp only [Option.bind_some, halves, complement, and_self, if_true]

/-! ### Rows -/

/-- The bytes of rows of one length. The zero before a row says that its bytes are no differences. -/
def rows? (length : Nat) : Nat → List UInt8 → Option (List UInt8)
  | 0, bytes => if bytes = [] then some [] else none
  | n + 1, bytes => do
    let (filter, rest) ← take? 1 bytes
    let (row, rest) ← take? length rest
    let more ← rows? length n rest
    if filter = [0] then some (row ++ more) else none

theorem rows?_rowBytes {length n : Nat} {bytes : List UInt8} (size : bytes.length = length * n) :
    rows? length n (rowBytes length n bytes) = some bytes := by
  induction n generalizing bytes with
  | zero => rw [List.eq_nil_of_length_eq_zero size, rowBytes, rows?, if_pos rfl]
  | succ n ih =>
    rw [Nat.mul_succ] at size
    have filter (rest : List UInt8) : take? 1 (0 :: rest) = some ([0], rest) := take?_append [0] rfl rest
    have row : (bytes.take length).length = length := List.length_take_of_le (by omega)
    have left : (bytes.drop length).length = length * n := by
      rw [List.length_drop]
      omega
    have more := ih left
    rw [rowBytes, rows?, filter]
    simp only [Option.bind_eq_bind, Option.bind_some]
    rw [take?_append _ row]
    simp only [Option.bind_some]
    rw [more]
    simp only [Option.bind_some, if_true, List.take_append_drop]

theorem length_rowBytes {length n : Nat} {bytes : List UInt8} (size : bytes.length = length * n) :
    (rowBytes length n bytes).length = n * (1 + length) := by
  induction n generalizing bytes with
  | zero => rw [rowBytes, List.length_nil, Nat.zero_mul]
  | succ n ih =>
    rw [Nat.mul_succ] at size
    have left : (bytes.drop length).length = length * n := by
      rw [List.length_drop]
      omega
    have more := ih left
    rw [rowBytes, List.length_cons, List.length_append, more, List.length_take_of_le (by omega), Nat.succ_mul]
    omega

end Png

theorem Image.ofRaw?_bytes (i : Image) : ofRaw? i.width i.height i.bytes = some i := by
  rw [ofRaw?, dif_pos (Nat.le_of_eq i.size.symm)]
  simp only [← i.size, List.take_length]

/-! ### Files -/

/-- The writer stores the bytes that it is given: wherever it tells of success, a reader finds the picture in the file
at the path. -/
def ImageWriter.Stores (writer : ImageWriter) (read? : ByteArray → Option Image) : Prop :=
  ∀ files path image after, writer.save files path image = (after, true) →
    ∃ content, after.read path = .ok content ∧ read? content = some image

namespace Png

/-- The picture of a file. Files that are compressed in earnest or hold other kinds of pixels are not read. -/
def decode? (file : ByteArray) : Option Image := do
  let (front, rest) ← take? 8 file.data.toList
  let (header, rest) ← chunk? "IHDR" rest
  let (packed, rest) ← chunk? "IDAT" rest
  let (trailer, rest) ← chunk? "IEND" rest
  let data ← inflate? packed
  let width := UInt32.ofNat (number (header.take 4))
  let height := UInt32.ofNat (number ((header.drop 4).take 4))
  if front = signature ∧ header.drop 8 = [8, 6, 0, 0, 0] ∧ trailer = [] ∧ rest = [] then
    let bytes ← rows? (4 * width.toNat) height.toNat data
    Image.ofRaw? width height bytes
  else none

/-- What has been written is read back. -/
theorem decode?_of_encode? {i : Image} {file : ByteArray} (written : encode? i = some file) :
    decode? file = some i := by
  rw [encode?, Option.ite_none_right_eq_some] at written
  obtain ⟨⟨-, fits⟩, written⟩ := written
  cases written
  have size := length_rowBytes i.size
  have packed : (deflated (rowBytes (4 * i.width.toNat) i.height.toNat i.bytes)).length < 4294967296 := by
    rw [deflated]
    simp only [List.length_append, size, List.length_cons, List.length_nil, length_wordBytes]
    omega
  have word (v : UInt32) (rest : List UInt8) : (wordBytes v ++ rest).take 4 = wordBytes v := List.take_left' rfl
  have behind (v : UInt32) (rest : List UInt8) : (wordBytes v ++ rest).drop 4 = rest := List.drop_left' rfl
  have last : (wordBytes i.width ++ (wordBytes i.height ++ [8, 6, 0, 0, 0])).drop 8 = [8, 6, 0, 0, 0] := rfl
  have four : ∀ name ∈ ["IHDR", "IDAT", "IEND"], name.toUTF8.toList.length = 4 := by decide +kernel
  simp only [decode?, List.append_assoc]
  rw [take?_append (n := 8) signature rfl]
  simp only [Option.bind_eq_bind, Option.bind_some]
  rw [chunk?_chunk (four _ (by simp)) (by simp [length_wordBytes])]
  simp only [Option.bind_some]
  rw [chunk?_chunk (four _ (by simp)) packed]
  simp only [Option.bind_some]
  rw [← List.append_nil (chunk "IEND" []), chunk?_chunk (four _ (by simp)) (by decide)]
  simp only [Option.bind_some]
  rw [inflate?_deflated (by omega)]
  simp only [Option.bind_some, word, behind, number_wordBytes, UInt32.ofNat_toNat, last, and_self, if_true]
  rw [rows?_rowBytes i.size, Option.bind_some, Image.ofRaw?_bytes]

/-- The writer of pictures that are not compressed is one that stores them. -/
theorem stores : writer.Stores decode? := by
  intro files path image after saved
  unfold writer at saved
  dsimp only at saved
  split at saved
  · split at saved
    · cases saved
    · rename_i content encoded
      split at saved
      · rename_i u written
        cases saved
        exact ⟨content, FileTree.read_of_write written, decode?_of_encode? encoded⟩
      · cases saved
  · cases saved

end Png

end PocketConsole
