namespace PocketConsole

/-- The integer nearest to a fraction, the even one of two. -/
def nearestNat (num den : Nat) : Nat :=
  let q := num / den
  let r := num % den
  if 2 * r < den then q else if den < 2 * r then q + 1 else q + q % 2

/-- A non-negative number of the binary64 format, counted in units of its least positive number,
2 ^ -1074. Numbers from 2 ^ 1024 on stand for infinity. -/
structure Binary64 where
  units : Nat
deriving DecidableEq, Repr, Inhabited

namespace Binary64

/-- How many units make one. -/
def oneUnits : Nat :=
  1 <<< 1074

/-- The distance of the numbers around a number of units: a number has 53 significant bits. -/
def spacing (units : Nat) : Nat :=
  1 <<< (units.log2 - 52)

/-- The number nearest to a fraction of units, of two the one whose last bit is 0. -/
def round (num den : Nat) : Binary64 :=
  let gap := spacing (num / den)
  ⟨nearestNat num (den * gap) * gap⟩

/-- The number nearest to an integer. -/
def ofNat (n : Nat) : Binary64 :=
  round (n * oneUnits) 1

/-- The number nearest to a fraction. -/
def ofFraction (num den : Nat) : Binary64 :=
  round (num * oneUnits) den

def add (x y : Binary64) : Binary64 :=
  round (x.units + y.units) 1

/-- The number nearest to a difference, for `y ≤ x`. -/
def sub (x y : Binary64) : Binary64 :=
  round (x.units - y.units) 1

def mul (x y : Binary64) : Binary64 :=
  round (x.units * y.units) oneUnits

/-- The number nearest to a quotient, for a divisor other than 0. -/
def div (x y : Binary64) : Binary64 :=
  round (x.units * oneUnits) y.units

instance : Add Binary64 := ⟨add⟩

instance : Sub Binary64 := ⟨sub⟩

instance : Mul Binary64 := ⟨mul⟩

instance : Div Binary64 := ⟨div⟩

instance : LT Binary64 := ⟨fun x y => x.units < y.units⟩

instance (x y : Binary64) : Decidable (x < y) :=
  inferInstanceAs (Decidable (x.units < y.units))

def zero : Binary64 :=
  ⟨0⟩

/-- Whether the number is below 2 ^ 1024. -/
def isFinite (x : Binary64) : Bool :=
  x.units < (1 <<< 1024) * oneUnits

end Binary64

end PocketConsole
