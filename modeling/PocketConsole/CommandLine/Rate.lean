import PocketConsole.Duration
import PocketConsole.Text.Letters

namespace PocketConsole

/-- A number of frames a second as it is given: any number of binary64. -/
inductive Rate
  | finite (negative : Bool) (size : Binary64)
  | infinite (negative : Bool)
  | notANumber
deriving DecidableEq, Repr

namespace Rate

/-- A decimal number rounded to binary64. Powers far outside its range are not worked out. -/
def rounded (digits : Nat) (power : Int) (negative : Bool) : Rate :=
  let length : Int := (Nat.toDigits 10 digits).length
  if digits = 0 ∨ length + power < -400 then .finite negative .zero
  else if 400 < length + power then .infinite negative
  else
    let size :=
      if 0 ≤ power then Binary64.ofNat (digits * Nat.pow 10 power.toNat)
      else Binary64.ofFraction digits (Nat.pow 10 (-power).toNat)
    if size.isFinite then .finite negative size else .infinite negative

/-- Takes a sign off a text. -/
def sign : List Char → Bool × List Char
  | '-' :: r => (true, r)
  | '+' :: r => (false, r)
  | cs => (false, cs)

/-- Reads a whole number, all of whose characters are digits. -/
def natural? (ds : List Char) : Option Nat :=
  if ds ≠ [] ∧ ds.all Char.isDigit then some (Nat.ofDigitChars 10 ds 0) else none

/-- Reads the power of ten at the end of a number, if there is one. -/
def power? : List Char → Option Int
  | [] => some 0
  | c :: r =>
    if c = 'e' ∨ c = 'E' then
      (natural? (sign r).2).map fun n => if (sign r).1 then -(n : Int) else n
    else none

/-- Reads digits, at least one, around at most one point, and a power of ten. -/
def decimal? (negative : Bool) (cs : List Char) : Option Rate :=
  let whole := cs.takeWhile Char.isDigit
  let rest := cs.drop whole.length
  let fraction :=
    match rest with
    | '.' :: r => r.takeWhile Char.isDigit
    | _ => []
  let tail :=
    match rest with
    | '.' :: r => r.drop fraction.length
    | r => r
  if whole ++ fraction = [] then none
  else
    (power? tail).map fun power =>
      rounded (Nat.ofDigitChars 10 (whole ++ fraction) 0) (power - fraction.length) negative

/-- Reads a number, or one of the words for infinity and for no number in any case. -/
def parse? (text : String) : Option Rate :=
  let (negative, cs) := sign text.toList
  let word := Text.caseless cs
  if word = "INF" ∨ word = "INFINITY" then some (.infinite negative)
  else if word = "NAN" then some .notANumber
  else decimal? negative cs

/-- Whether the rate is above zero. -/
def isPositive : Rate → Bool
  | finite negative size => !negative && decide (0 < size.units)
  | infinite negative => !negative
  | notANumber => false

/-- The time from one frame to the next, unless it is too long. -/
def period? : Rate → Option Duration
  | finite _ size => Duration.ofSeconds? (.ofNat 1 / size)
  | infinite _ => some .zero
  | notANumber => none

end Rate

end PocketConsole
