namespace PocketConsole

/-- How an exact result becomes a byte: the remainder by 255 where results wrap, else the nearest
byte. -/
def fit (wraps : Bool) (v : Int) : UInt8 :=
  if wraps then UInt8.ofNat (v % 255).toNat else UInt8.ofNat (min v.toNat 255)

/-- The operations on the two topmost cells of the stack. -/
inductive Operator
  | add
  | sub
  | mul
  | div
  | mod
  | and
  | or
  | xor
  | lshft
  | rshft
deriving DecidableEq, Repr

/-- The exact result of an operation on the second cell `b` and the top cell `a`. Shifts are those of
32-bit words, with a count below 32. -/
def Operator.eval (o : Operator) (b a : UInt8) : Int :=
  match o with
  | add => b.toNat + a.toNat
  | sub => b.toNat - a.toNat
  | mul => b.toNat * a.toNat
  | div => if a = 0 then 255 else (2 * b.toNat + a.toNat) / (2 * a.toNat)
  | mod => if a = 0 then 0 else b.toNat % a.toNat
  | and => (b &&& a).toNat
  | or => (b ||| a).toNat
  | xor => (b ^^^ a).toNat
  | lshft => Int.bmod (b.toNat <<< (a.toNat % 32) : Nat) UInt32.size
  | rshft => (b.toNat >>> (a.toNat % 32) : Nat)

/-- The exact negation of a byte. -/
def complement (a : UInt8) : Int :=
  -1 - a.toNat

/-- The conditions of jumps. -/
inductive Comparison
  | eq
  | ne
  | gt
  | ge
  | lt
  | le
deriving DecidableEq, Repr

/-- Whether a condition holds of the second cell `b` and the top cell `a`. -/
def Comparison.holds (c : Comparison) (b a : UInt8) : Bool :=
  match c with
  | eq => b == a
  | ne => b != a
  | gt => a < b
  | ge => a ≤ b
  | lt => b < a
  | le => b ≤ a

theorem toNat_fit_of_wraps (v : Int) : ((fit true v).toNat : Int) = v % 255 := by
  have lower := Int.emod_nonneg v (show (255 : Int) ≠ 0 by decide)
  have upper := Int.emod_lt_of_pos v (show (0 : Int) < 255 by decide)
  simp only [fit, if_true, UInt8.toNat_ofNat', Nat.reducePow]
  omega

theorem toNat_fit_of_clamps (v : Int) : ((fit false v).toNat : Int) = max 0 (min v 255) := by
  simp only [fit, Bool.false_eq_true, if_false, UInt8.toNat_ofNat', Nat.reducePow]
  omega

end PocketConsole
