namespace PocketConsole.Literal

/-- The value of a digit in a radix up to 36. -/
def digit? (radix : Nat) (c : Char) : Option Nat :=
  let value :=
    if '0' ≤ c ∧ c ≤ '9' then c.toNat - '0'.toNat
    else if 'a' ≤ c ∧ c ≤ 'z' then c.toNat - 'a'.toNat + 10
    else if 'A' ≤ c ∧ c ≤ 'Z' then c.toNat - 'A'.toNat + 10
    else 36
  if value < radix then some value else none

/-- The number written by one or more digits. -/
def digits? (radix : Nat) (ds : List Char) : Option Nat :=
  if ds = [] then none
  else ds.foldlM (fun n c => (digit? radix c).map fun d => n * radix + d) 0

/-- A number, if it fits a signed 64-bit word. -/
def narrow? (v : Int) : Option Int :=
  if -9223372036854775808 ≤ v ∧ v ≤ 9223372036854775807 then some v else none

/-- The number written by digits after at most one sign. -/
def signed? (radix : Nat) : List Char → Option Int
  | '+' :: ds => (digits? radix ds).bind fun n => narrow? n
  | '-' :: ds => (digits? radix ds).bind fun n => narrow? (-n)
  | ds => (digits? radix ds).bind fun n => narrow? n

/-- The radix that the letter after a leading zero announces. -/
def radix? : Char → Option Nat
  | 'x' | 'X' => some 16
  | 'o' | 'O' => some 8
  | 'b' | 'B' => some 2
  | _ => none

/-- The number of a literal from which its sign has been taken. -/
def unsigned? : List Char → Option Int
  | '+' :: _ => none
  | '-' :: _ => none
  | '0' :: mark :: ds =>
    match radix? mark with
    | some radix => signed? radix ds
    | none => signed? 10 ('0' :: mark :: ds)
  | ds => signed? 10 ds

/-- The number of a literal: an optional sign, then decimal digits or digits announced by `0x`, `0o`
or `0b`. A number that does not fit a signed 64-bit word is no literal. -/
def parse? : List Char → Option Int
  | '-' :: ds => (unsigned? ds).bind fun v => narrow? (-v)
  | '+' :: ds => unsigned? ds
  | ds => unsigned? ds

/-- A number reduced to a parameter byte. -/
def toByte (v : Int) : UInt8 :=
  UInt8.ofNat (v % 256).toNat

end PocketConsole.Literal
