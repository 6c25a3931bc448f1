import PocketConsole.Text.Hex

namespace PocketConsole.JsonText

/-- The character that a letter after a backslash stands for. -/
def plain? : Char → Option Char
  | '"' => some '"'
  | '\\' => some '\\'
  | '/' => some '/'
  | 'b' => some '\x08'
  | 'f' => some '\x0c'
  | 'n' => some '\n'
  | 'r' => some '\r'
  | 't' => some '\t'
  | _ => none

/-- The value of a digit in radix 16. -/
def hexDigit? (c : Char) : Option Nat :=
  if '0' ≤ c ∧ c ≤ '9' then some (c.toNat - '0'.toNat)
  else if 'a' ≤ c ∧ c ≤ 'f' then some (c.toNat - 'a'.toNat + 10)
  else if 'A' ≤ c ∧ c ≤ 'F' then some (c.toNat - 'A'.toNat + 10)
  else none

/-- The 16-bit unit of four digits. -/
def unit? (a b c d : Char) : Option Nat := do
  return (((← hexDigit? a) * 16 + (← hexDigit? b)) * 16 + (← hexDigit? c)) * 16 + (← hexDigit? d)

/-- Whether a unit is the first half of a pair. -/
def isLeading (u : Nat) : Bool :=
  0xD800 ≤ u && u < 0xDC00

/-- Whether a unit is the second half of a pair. -/
def isTrailing (u : Nat) : Bool :=
  0xDC00 ≤ u && u < 0xE000

/-- The character of a pair of units. -/
def joined (u v : Nat) : Char :=
  Char.ofNat (0x10000 + (u - 0xD800) * 0x400 + (v - 0xDC00))

/-- Reads a string up to its closing quote, behind characters already read, latest first. Controls
must be escaped, and units that are halves must come in pairs. -/
def read? (done : List Char) : List Char → Option (List Char × List Char)
  | [] => none
  | '"' :: r => some (done.reverse, r)
  | '\\' :: 'u' :: a :: b :: c :: d :: '\\' :: 'u' :: e :: f :: g :: h :: r =>
    match unit? a b c d with
    | none => none
    | some u =>
      if isLeading u then
        match unit? e f g h with
        | none => none
        | some v => if isTrailing v then read? (joined u v :: done) r else none
      else if isTrailing u then none
      else read? (Char.ofNat u :: done) ('\\' :: 'u' :: e :: f :: g :: h :: r)
  | '\\' :: 'u' :: a :: b :: c :: d :: r =>
    match unit? a b c d with
    | none => none
    | some u => if isLeading u || isTrailing u then none else read? (Char.ofNat u :: done) r
  | '\\' :: mark :: r =>
    match plain? mark with
    | none => none
    | some c => read? (c :: done) r
  | c :: r => if c < ' ' ∨ c = '\\' then none else read? (c :: done) r

/-- A character within a string as it is written. -/
def writeChar (c : Char) : List Char :=
  if c = '"' then ['\\', '"']
  else if c = '\\' then ['\\', '\\']
  else if c = '\x08' then ['\\', 'b']
  else if c = '\x0c' then ['\\', 'f']
  else if c = '\n' then ['\\', 'n']
  else if c = '\r' then ['\\', 'r']
  else if c = '\t' then ['\\', 't']
  else if c < ' ' then ['\\', 'u'] ++ Text.hexPadded 4 c.toNat
  else [c]

/-- A string as it is written, quotes included. -/
def write (s : List Char) : List Char :=
  ['"'] ++ s.flatMap writeChar ++ ['"']

/-- Reading a string takes its closing quote off the text. -/
theorem length_read? {done cs s r : List Char} (read : read? done cs = some (s, r)) :
    r.length < cs.length := by
  fun_induction read? done cs <;> simp_all <;> omega

end PocketConsole.JsonText
