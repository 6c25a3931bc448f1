namespace PocketConsole.Text

/-- The characters with the Unicode property White_Space. -/
def isBlank (c : Char) : Bool :=
  let n := c.toNat
  (9 ≤ n && n ≤ 13) || n == 0x20 || n == 0x85 || n == 0xA0 || n == 0x1680 ||
    (0x2000 ≤ n && n ≤ 0x200A) || n == 0x2028 || n == 0x2029 || n == 0x202F || n == 0x205F ||
    n == 0x3000

/-- The text without the blanks it starts with. -/
def trimLeft (cs : List Char) : List Char :=
  cs.dropWhile isBlank

/-- The first word of a text, if any, and what stands after it. -/
def firstWord (cs : List Char) : List Char × List Char :=
  let rest := trimLeft cs
  (rest.takeWhile fun c => !isBlank c, rest.dropWhile fun c => !isBlank c)

end PocketConsole.Text
