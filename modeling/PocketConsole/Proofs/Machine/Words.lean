import Mathlib.Data.Rat.Floor
import PocketConsole.Machine.Arithmetic

namespace PocketConsole

/-- The byte that an integer is kept as: its remainder by 255 where results wrap, else the nearest
byte. -/
def limit (wraps : Bool) (v : Int) : Int :=
  if wraps then v % 255 else max 0 (min v 255)

theorem toNat_fit (wraps : Bool) (v : Int) : ((fit wraps v).toNat : Int) = limit wraps v := by
  cases wraps
  · exact toNat_fit_of_clamps v
  · exact toNat_fit_of_wraps v

/-- A byte is kept as it is, but for the last one where results wrap. -/
theorem fit_byte (wraps : Bool) (v : UInt8) : fit wraps v.toNat = if wraps = true ∧ v = 255 then 0 else v := by
  have bound := v.toNat_lt
  have kept := toNat_fit wraps v.toNat
  apply UInt8.toNat_inj.1
  cases wraps with
  | false =>
    simp only [limit, Bool.false_eq_true, false_and, if_false] at kept ⊢
    omega
  | true =>
    simp only [limit, if_true, true_and] at kept ⊢
    split
    · rename_i last
      subst last
      exact Int.ofNat.inj kept
    · rename_i other
      have below : v.toNat ≠ 255 := fun last => other (UInt8.toNat_inj.1 last)
      omega

/-- The bits of an integer as a 32-bit word in two's complement. -/
def word (v : Int) : BitVec 32 :=
  BitVec.ofInt 32 v

/-- What an operation is to compute from two integers: quotients are rounded to the nearest integer,
halves up, bits are those of 32-bit words, and only five bits of a count of places matter. -/
def Operator.exact : Operator → Int → Int → Int
  | add, b, a => b + a
  | sub, b, a => b - a
  | mul, b, a => b * a
  | div, b, a => if a = 0 then 255 else ⌊(b / a + 1 / 2 : ℚ)⌋
  | mod, b, a => if a = 0 then 0 else b % a
  | and, b, a => (word b &&& word a).toInt
  | or, b, a => (word b ||| word a).toInt
  | xor, b, a => (word b ^^^ word a).toInt
  | lshft, b, a => (word b <<< (word a &&& 31#32)).toInt
  | rshft, b, a => ((word b).sshiftRight' (word a &&& 31#32)).toInt

theorem word_byte (a : UInt8) : word a.toNat = BitVec.ofNat 32 a.toNat := by
  rw [word, BitVec.ofInt_natCast]

theorem toNat_word_byte (a : UInt8) : (word a.toNat).toNat = a.toNat := by
  have bound := a.toNat_lt
  rw [word_byte, BitVec.toNat_ofNat]
  omega

theorem toInt_of_byte {x : BitVec 32} {n : Nat} (same : x.toNat = n) (bound : n < 256) :
    x.toInt = n := by
  rw [BitVec.toInt_eq_toNat_of_lt (by omega), same]

theorem toNat_count (a : UInt8) : (word a.toNat &&& 31#32).toNat = a.toNat % 32 := by
  rw [BitVec.toNat_and, toNat_word_byte]
  exact Nat.and_two_pow_sub_one_eq_mod a.toNat 5

theorem floor_half_up (b : Nat) {a : Nat} (positive : 0 < a) :
    ⌊((b : Int) / (a : Int) + 1 / 2 : ℚ)⌋ = ((2 * b + a) / (2 * a) : Nat) := by
  have same : ((b : Int) / (a : Int) + 1 / 2 : ℚ) = ((2 * b + a : Nat) : ℚ) / ((2 * a : Nat) : ℚ) := by
    have nonzero : (a : ℚ) ≠ 0 := by exact_mod_cast positive.ne'
    push_cast
    field_simp
  rw [same, Rat.floor_natCast_div_natCast]
  norm_cast

theorem Operator.eval_eq_exact (o : Operator) (b a : UInt8) : o.eval b a = o.exact b.toNat a.toNat := by
  have boundB := b.toNat_lt
  have boundA := a.toNat_lt
  have zero : a = 0 ↔ ((a.toNat : Int) = 0) := by
    rw [← UInt8.toNat_inj]
    simp
  cases o
  case add | sub | mul => rfl
  case div =>
    by_cases zeroDivisor : a = 0
    · have left : Operator.eval .div b a = 255 := if_pos zeroDivisor
      have right : Operator.exact .div b.toNat a.toNat = 255 := if_pos (zero.1 zeroDivisor)
      rw [left, right]
    · have positive : 0 < a.toNat := by
        have nonzero := mt zero.2 zeroDivisor
        omega
      have left : Operator.eval .div b a = ((2 * b.toNat + a.toNat) / (2 * a.toNat) : Nat) :=
        if_neg zeroDivisor
      have right : Operator.exact .div b.toNat a.toNat =
          ⌊((b.toNat : Int) / (a.toNat : Int) + 1 / 2 : ℚ)⌋ :=
        if_neg (mt zero.2 zeroDivisor)
      rw [left, right, floor_half_up b.toNat positive]
  case mod =>
    by_cases zeroDivisor : a = 0
    · have left : Operator.eval .mod b a = 0 := if_pos zeroDivisor
      have right : Operator.exact .mod b.toNat a.toNat = 0 := if_pos (zero.1 zeroDivisor)
      rw [left, right]
    · have left : Operator.eval .mod b a = b.toNat % a.toNat := if_neg zeroDivisor
      have right : Operator.exact .mod b.toNat a.toNat = b.toNat % a.toNat :=
        if_neg (mt zero.2 zeroDivisor)
      rw [left, right]
  case and =>
    have bits : (word b.toNat &&& word a.toNat).toNat = (b &&& a).toNat := by
      rw [BitVec.toNat_and, toNat_word_byte, toNat_word_byte, UInt8.toNat_and]
    exact (toInt_of_byte bits (b &&& a).toNat_lt).symm
  case or =>
    have bits : (word b.toNat ||| word a.toNat).toNat = (b ||| a).toNat := by
      rw [BitVec.toNat_or, toNat_word_byte, toNat_word_byte, UInt8.toNat_or]
    exact (toInt_of_byte bits (b ||| a).toNat_lt).symm
  case xor =>
    have bits : (word b.toNat ^^^ word a.toNat).toNat = (b ^^^ a).toNat := by
      rw [BitVec.toNat_xor, toNat_word_byte, toNat_word_byte, UInt8.toNat_xor]
    exact (toInt_of_byte bits (b ^^^ a).toNat_lt).symm
  case lshft =>
    have shifted : (word b.toNat <<< (word a.toNat &&& 31#32)).toInt =
        Int.bmod (b.toNat <<< (a.toNat % 32) : Nat) (2 ^ 32) := by
      rw [BitVec.shiftLeft_eq', BitVec.toInt_shiftLeft, toNat_word_byte, toNat_count]
    exact shifted.symm
  case rshft =>
    have shifted : ((word b.toNat).sshiftRight' (word a.toNat &&& 31#32)).toInt =
        (b.toNat : Int) >>> (a.toNat % 32) := by
      rw [BitVec.toInt_sshiftRight', toInt_of_byte (toNat_word_byte b) boundB, toNat_count]
    exact shifted.symm

theorem complement_eq_not (a : UInt8) : complement a = (~~~ word a.toNat).toInt := by
  have bound := a.toNat_lt
  rw [BitVec.toInt_not, toNat_word_byte, complement]
  have wrapped : (2 ^ 32 - 1 - (a.toNat : Int)) = -1 - a.toNat + (2 ^ 32 : Nat) := by omega
  rw [wrapped, Int.add_bmod_right]
  exact (Int.bmod_eq_of_le (by omega) (by omega)).symm
end PocketConsole
