import PocketConsole.Binary64

namespace PocketConsole

/-- A JSON number as it is written. -/
structure Numeral where
  negative : Bool
  /-- The digits before the point. -/
  whole : List Char
  /-- The digits after the point; none without a point. -/
  fraction : List Char
  /-- Whether the exponent is negative, and its digits. -/
  exponent : Option (Bool × List Char)
deriving DecidableEq, Repr

namespace Numeral

/-- The number written by decimal digits. -/
def value (ds : List Char) : Nat :=
  Nat.ofDigitChars 10 ds 0

/-- Reads a sign. -/
def readMinus : List Char → Bool × List Char
  | '-' :: r => (true, r)
  | cs => (false, cs)

/-- Reads the digits before the point: a zero, or digits that do not start with one. -/
def readWhole : List Char → Option (List Char × List Char)
  | '0' :: r => some (['0'], r)
  | c :: r =>
    if c.isDigit then some (c :: r.takeWhile Char.isDigit, r.dropWhile Char.isDigit) else none
  | [] => none

/-- Reads at least one digit. -/
def readDigits (cs : List Char) : Option (List Char × List Char) :=
  match cs.takeWhile Char.isDigit with
  | [] => none
  | ds => some (ds, cs.dropWhile Char.isDigit)

/-- Reads a point and the digits after it, where there is a point. -/
def readFraction : List Char → Option (List Char × List Char)
  | '.' :: r => readDigits r
  | cs => some ([], cs)

/-- Reads a sign of an exponent. -/
def readSign : List Char → Bool × List Char
  | '-' :: r => (true, r)
  | '+' :: r => (false, r)
  | cs => (false, cs)

/-- Reads an exponent, where there is one. -/
def readExponent : List Char → Option (Option (Bool × List Char) × List Char)
  | c :: r =>
    if c = 'e' ∨ c = 'E' then
      (readDigits (readSign r).2).map fun (ds, rest) => (some ((readSign r).1, ds), rest)
    else some (none, c :: r)
  | [] => some (none, [])

/-- Reads the number that a text starts with. -/
def read? (cs : List Char) : Option (Numeral × List Char) := do
  let (negative, r) := readMinus cs
  let (whole, r) ← readWhole r
  let (fraction, r) ← readFraction r
  let (exponent, r) ← readExponent r
  return (⟨negative, whole, fraction, exponent⟩, r)

/-- The byte that a number is, if it is written as plain digits. -/
def toByte? (n : Numeral) : Option UInt8 :=
  if n.negative = false ∧ n.fraction = [] ∧ n.exponent = none ∧ value n.whole ≤ 255 then
    some (UInt8.ofNat (value n.whole))
  else none

/-- A number as a 64-bit significand and a power of ten, while its digits are read. -/
structure Scaled where
  significand : Nat
  power : Int
  /-- Whether a digit has been left out because the significand was full. -/
  full : Bool
deriving Repr

/-- The significand with one more digit, if it has room. -/
def Scaled.room? (s : Scaled) (c : Char) : Option Nat :=
  let next := s.significand * 10 + (c.toNat - '0'.toNat)
  if s.full ∨ UInt64.size ≤ next then none else some next

/-- A digit before the point; one that is left out still counts for the power. -/
def Scaled.addWhole (s : Scaled) (c : Char) : Scaled :=
  match s.room? c with
  | some next => { s with significand := next }
  | none => { s with full := true, power := s.power + 1 }

/-- A digit after the point; one that is left out does not count. -/
def Scaled.addFraction (s : Scaled) (c : Char) : Scaled :=
  match s.room? c with
  | some next => { s with significand := next, power := s.power - 1 }
  | none => { s with full := true }

/-- The significand and the power of a number. -/
def scaled (n : Numeral) : Scaled :=
  let whole := n.whole.foldl Scaled.addWhole ⟨0, 0, false⟩
  let digits := n.fraction.foldl Scaled.addFraction { whole with full := false }
  match n.exponent with
  | none => digits
  | some (negative, ds) =>
    let e : Int := value ds
    { digits with power := if negative then digits.power - e else digits.power + e }

/-- Whether the number is in the range of binary64: its significand and its power of ten are rounded
and multiplied, and the product must be finite. -/
def inRange (n : Numeral) : Bool :=
  let s := n.scaled
  if s.significand = 0 ∨ s.power < 0 then true
  else if 308 < s.power then false
  else (Binary64.ofNat s.significand * Binary64.ofNat (Nat.pow 10 s.power.toNat)).isFinite

theorem length_readMinus (cs : List Char) : (readMinus cs).2.length ≤ cs.length := by
  unfold readMinus
  split <;> simp

theorem length_dropWhile (p : Char → Bool) (cs : List Char) :
    (cs.dropWhile p).length ≤ cs.length :=
  (List.dropWhile_suffix p).length_le

theorem length_readWhole {cs ds r : List Char} (read : readWhole cs = some (ds, r)) :
    r.length < cs.length := by
  unfold readWhole at read
  split at read
  · simp_all
  · rename_i c rest _
    split at read
    · have shorter := length_dropWhile Char.isDigit rest
      simp only [Option.some.injEq, Prod.mk.injEq] at read
      rw [← read.2, List.length_cons]
      omega
    · simp at read
  · simp at read

theorem length_readDigits {cs ds r : List Char} (read : readDigits cs = some (ds, r)) :
    r.length ≤ cs.length := by
  unfold readDigits at read
  split at read
  · simp at read
  · simp only [Option.some.injEq, Prod.mk.injEq] at read
    exact read.2 ▸ length_dropWhile Char.isDigit cs

theorem length_readFraction {cs ds r : List Char} (read : readFraction cs = some (ds, r)) :
    r.length ≤ cs.length := by
  unfold readFraction at read
  split at read
  · exact Nat.le_succ_of_le (length_readDigits read)
  · simp_all

theorem length_readSign (cs : List Char) : (readSign cs).2.length ≤ cs.length := by
  unfold readSign
  split <;> simp

theorem length_readExponent {cs r : List Char} {e : Option (Bool × List Char)}
    (read : readExponent cs = some (e, r)) : r.length ≤ cs.length := by
  unfold readExponent at read
  split at read
  · rename_i c rest
    split at read
    · obtain ⟨⟨ds, after⟩, digits, same⟩ := Option.map_eq_some_iff.1 read
      have first := length_readDigits digits
      have second := length_readSign rest
      simp only [Prod.mk.injEq] at same
      rw [← same.2, List.length_cons]
      omega
    · simp_all
  · simp_all

/-- Reading a number takes something off the text. -/
theorem length_read? {cs r : List Char} {n : Numeral} (read : read? cs = some (n, r)) :
    r.length < cs.length := by
  simp only [read?, Option.bind_eq_bind, Option.bind_eq_some_iff, Option.pure_def,
    Option.some.injEq, Prod.mk.injEq, Prod.exists] at read
  obtain ⟨whole, r₁, readW, fraction, r₂, readF, exponent, r₃, readE, _, rfl⟩ := read
  have a := length_readMinus cs
  have b := length_readWhole readW
  have c := length_readFraction readF
  have d := length_readExponent readE
  omega

end Numeral

end PocketConsole
