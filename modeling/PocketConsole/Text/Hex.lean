namespace PocketConsole.Text

/-- The digits of a number in radix 16, in lower case and without leading zeros. -/
def hexDigits (n : Nat) : List Char :=
  Nat.toDigits 16 n

/-- The digits of a number in radix 16, filled up with zeros to a width. -/
def hexPadded (width n : Nat) : List Char :=
  let ds := hexDigits n
  List.replicate (width - ds.length) '0' ++ ds

/-- A list of bytes as two digits each, in brackets. -/
def hexList (vs : List UInt8) : String :=
  let shown := vs.map fun v => String.ofList (hexPadded 2 v.toNat)
  "[" ++ ", ".intercalate shown ++ "]"

end PocketConsole.Text
