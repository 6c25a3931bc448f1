import Mathlib.Tactic.Ring
import PocketConsole.Proofs.Json.Grammar

namespace PocketConsole

namespace Binary64

theorem nearestNat_le (num den : Nat) : nearestNat num den ≤ num / den + 1 := by
  have parity := Nat.mod_lt (num / den) (show 0 < 2 by decide)
  unfold nearestNat
  dsimp only
  split
  · omega
  · split <;> omega

theorem spacing_le (units : Nat) : spacing units ≤ units + 1 := by
  rw [spacing, Nat.one_shiftLeft]
  by_cases none : units = 0
  · subst none
    decide
  · calc 2 ^ (units.log2 - 52) ≤ 2 ^ units.log2 := Nat.pow_le_pow_right (by decide) (Nat.sub_le _ _)
      _ ≤ units := Nat.log2_self_le none
      _ ≤ units + 1 := Nat.le_succ units

/-- Rounding at most doubles a number, apart from one unit. -/
theorem units_round_le (num den : Nat) : (round num den).units ≤ 2 * (num / den) + 1 := by
  have whole : num / (den * spacing (num / den)) * spacing (num / den) ≤ num / den := by
    rw [← Nat.div_div_eq_div_mul]
    exact Nat.div_mul_le_self _ _
  calc (round num den).units
      = nearestNat num (den * spacing (num / den)) * spacing (num / den) := rfl
    _ ≤ (num / (den * spacing (num / den)) + 1) * spacing (num / den) :=
        Nat.mul_le_mul_right _ (nearestNat_le _ _)
    _ = num / (den * spacing (num / den)) * spacing (num / den) + spacing (num / den) :=
        Nat.succ_mul _ _
    _ ≤ num / den + (num / den + 1) := Nat.add_le_add whole (spacing_le _)
    _ = 2 * (num / den) + 1 := by omega

theorem units_ofNat_le (n : Nat) : (ofNat n).units ≤ (2 * n + 1) * oneUnits := by
  have bound := units_round_le (n * oneUnits) 1
  have positive : 1 ≤ oneUnits := by decide
  rw [Nat.div_one] at bound
  calc (ofNat n).units ≤ 2 * (n * oneUnits) + 1 := bound
    _ ≤ 2 * (n * oneUnits) + oneUnits := Nat.add_le_add_left positive _
    _ = (2 * n + 1) * oneUnits := by rw [Nat.add_mul, Nat.one_mul, Nat.mul_assoc]

theorem isFinite_ofNat_mul_one {n : Nat} (small : n < 2 ^ 64) : (ofNat n * ofNat 1).isFinite = true := by
  have positive : 0 < oneUnits := by decide
  have product : (ofNat n).units * (ofNat 1).units / oneUnits ≤ (6 * n + 3) * oneUnits := by
    refine Nat.div_le_of_le_mul ?_
    calc (ofNat n).units * (ofNat 1).units
        ≤ (2 * n + 1) * oneUnits * (3 * oneUnits) :=
          Nat.mul_le_mul (units_ofNat_le n) (units_ofNat_le 1)
      _ = oneUnits * ((6 * n + 3) * oneUnits) := by ring
  have bound := units_round_le ((ofNat n).units * (ofNat 1).units) oneUnits
  have narrow : 12 * n + 7 < 2 ^ 68 := by omega
  have wide : ∀ k, 68 ≤ k → 12 * n + 7 < 1 <<< k := by
    intro k large
    rw [Nat.one_shiftLeft]
    exact Nat.lt_of_lt_of_le narrow (Nat.pow_le_pow_right (by decide) large)
  have total : (12 * n + 7) * oneUnits < (1 <<< 1024) * oneUnits :=
    Nat.mul_lt_mul_of_pos_right (wide 1024 (by decide)) positive
  have double : 2 * ((6 * n + 3) * oneUnits) + oneUnits = (12 * n + 7) * oneUnits := by ring
  have bound := units_round_le ((ofNat n).units * (ofNat 1).units) oneUnits
  exact decide_eq_true (by
    calc (ofNat n * ofNat 1).units
        ≤ 2 * ((ofNat n).units * (ofNat 1).units / oneUnits) + 1 := bound
      _ ≤ 2 * ((6 * n + 3) * oneUnits) + oneUnits :=
          Nat.add_le_add (Nat.mul_le_mul_left 2 product) positive
      _ = (12 * n + 7) * oneUnits := double
      _ < (1 <<< 1024) * oneUnits := total)

end Binary64

namespace Numeral

theorem le_ofDigitChars (ds : List Char) (v : Nat) : v ≤ Nat.ofDigitChars 10 ds v := by
  induction ds generalizing v with
  | nil => exact Nat.le_refl v
  | cons d more ih =>
    rw [Nat.ofDigitChars_cons]
    have more := ih (10 * v + (d.toNat - '0'.toNat))
    omega

/-- Digits are added to a significand as long as it stays below 2 ^ 64. -/
theorem foldl_addWhole (ds : List Char) (v : Nat) (room : Nat.ofDigitChars 10 ds v < UInt64.size) :
    ds.foldl Scaled.addWhole ⟨v, 0, false⟩ = ⟨Nat.ofDigitChars 10 ds v, 0, false⟩ := by
  induction ds generalizing v with
  | nil => rfl
  | cons d more ih =>
    rw [Nat.ofDigitChars_cons] at room ⊢
    have next := Nat.lt_of_le_of_lt (le_ofDigitChars more _) room
    have added : Scaled.addWhole ⟨v, 0, false⟩ d = ⟨10 * v + (d.toNat - '0'.toNat), 0, false⟩ := by
      have some : Scaled.room? ⟨v, 0, false⟩ d = some (10 * v + (d.toNat - '0'.toNat)) := by
        rw [Scaled.room?, Nat.mul_comm v 10, if_neg]
        rintro (full | large)
        · cases full
        · exact absurd next (Nat.not_lt.2 large)
      rw [Scaled.addWhole, some]
    rw [List.foldl_cons, added, ih _ room]

/-- A natural number as it is written. -/
def ofNat (n : Nat) : Numeral :=
  ⟨false, Nat.toDigits 10 n, [], none⟩

/-- Only zero is written with a leading zero. -/
theorem toDigits_eq_cons (n : Nat) :
    ∃ d more, Nat.toDigits 10 n = d :: more ∧ (d = '0' → more = []) := by
  induction n using Nat.strongRecOn with
  | ind n ih =>
    by_cases single : n < 10
    · exact ⟨_, [], Nat.toDigits_of_lt_base single, fun _ => rfl⟩
    · obtain ⟨d, more, digits, zero⟩ := ih (n / 10) (by omega)
      have longer := Nat.toDigits_of_base_le (b := 10) (n := n) (by decide) (by omega)
      rw [digits, List.cons_append] at longer
      refine ⟨d, _, longer, fun leading => ?_⟩
      have value := Nat.ofDigitChars_ten_toDigits (n := n / 10)
      rw [digits, zero leading, leading] at value
      have none : Nat.ofDigitChars 10 ['0'] 0 = 0 := by decide
      omega

/-- Whether a character ends a number that it follows. -/
def Ends (c : Char) : Prop :=
  c.isDigit = false ∧ c ≠ '.' ∧ c ≠ 'e' ∧ c ≠ 'E'

/-- Whether a number ends before a text. -/
def EndsBefore (r : List Char) : Prop :=
  ∀ c ∈ r.head?, Ends c

theorem ne_of_isDigit {d c : Char} (digit : d.isDigit = true) (other : c.isDigit = false) : d ≠ c := by
  rintro rfl
  rw [digit] at other
  cases other

theorem takeWhile_append_of_digits {ds r : List Char} (digits : ∀ d ∈ ds, d.isDigit = true)
    (ends : ∀ c ∈ r.head?, c.isDigit = false) : (ds ++ r).takeWhile Char.isDigit = ds := by
  rw [List.takeWhile_append_of_pos digits]
  cases r with
  | nil => exact List.append_nil ds
  | cons c r => rw [List.takeWhile_cons_of_neg (by simp [ends c rfl]), List.append_nil]

theorem dropWhile_append_of_digits {ds r : List Char} (digits : ∀ d ∈ ds, d.isDigit = true)
    (ends : ∀ c ∈ r.head?, c.isDigit = false) : (ds ++ r).dropWhile Char.isDigit = r := by
  rw [List.dropWhile_append_of_pos digits]
  cases r with
  | nil => rfl
  | cons c r => rw [List.dropWhile_cons_of_neg (by simp [ends c rfl])]

theorem Digits.exists_cons {ds : List Char} (digits : Digits ds) :
    ∃ d more, ds = d :: more ∧ d.isDigit = true := by
  obtain ⟨d, more, rfl⟩ := List.exists_cons_of_ne_nil digits.1
  exact ⟨d, more, rfl, digits.2 d List.mem_cons_self⟩

theorem Whole.exists_cons {ds : List Char} (whole : Whole ds) :
    ∃ d more, ds = d :: more ∧ d.isDigit = true := by
  rcases whole with rfl | ⟨digits, -⟩
  · exact ⟨'0', [], rfl, rfl⟩
  · exact digits.exists_cons

theorem readMinus_append {whole : List Char} (spelled : Whole whole) (negative : Bool) (r : List Char) :
    readMinus ((if negative then ['-'] else []) ++ (whole ++ r)) = (negative, whole ++ r) := by
  cases negative with
  | true => rfl
  | false =>
    obtain ⟨d, more, rfl, digit⟩ := spelled.exists_cons
    rw [if_neg Bool.false_ne_true, List.nil_append, List.cons_append, readMinus]
    exact fun _ same => ne_of_isDigit digit rfl (List.cons.inj same).1

theorem readWhole_append {ds r : List Char} (whole : Whole ds)
    (ends : ∀ c ∈ r.head?, c.isDigit = false) : readWhole (ds ++ r) = some (ds, r) := by
  rcases whole with rfl | ⟨digits, leading⟩
  · rfl
  · obtain ⟨d, more, rfl, digit⟩ := digits.exists_cons
    have rest : ∀ c ∈ more, c.isDigit = true := fun c member => digits.2 c (List.mem_cons_of_mem d member)
    rw [List.cons_append, readWhole]
    · rw [if_pos digit, takeWhile_append_of_digits rest ends, dropWhile_append_of_digits rest ends]
    · exact fun zero => leading (congrArg some zero)

theorem readDigits_append {ds r : List Char} (digits : Digits ds)
    (ends : ∀ c ∈ r.head?, c.isDigit = false) : readDigits (ds ++ r) = some (ds, r) := by
  rw [readDigits, takeWhile_append_of_digits digits.2 ends, dropWhile_append_of_digits digits.2 ends]
  split
  · exact absurd rfl digits.1
  · rfl

theorem readFraction_append {ds point r : List Char} (spelled : FractionSpelled ds point)
    (ends : ∀ c ∈ r.head?, c.isDigit = false ∧ c ≠ '.') :
    readFraction (point ++ r) = some (ds, r) := by
  cases spelled with
  | absent =>
    cases r with
    | nil => rfl
    | cons c r =>
      rw [List.nil_append, readFraction]
      exact fun _ same => (ends c rfl).2 (List.cons.inj same).1
  | present digits => exact readDigits_append digits fun c first => (ends c first).1

theorem readSign_append {negative : Bool} {sign ds : List Char} (spelled : SignSpelled negative sign)
    (digits : Digits ds) (r : List Char) : readSign (sign ++ (ds ++ r)) = (negative, ds ++ r) := by
  cases spelled with
  | minus => rfl
  | plus => rfl
  | absent =>
    obtain ⟨d, more, rfl, digit⟩ := digits.exists_cons
    rw [List.nil_append, List.cons_append, readSign]
    · exact fun _ same => ne_of_isDigit digit rfl (List.cons.inj same).1
    · exact fun _ same => ne_of_isDigit digit rfl (List.cons.inj same).1

theorem readExponent_append {e : Option (Bool × List Char)} {power r : List Char}
    (spelled : ExponentSpelled e power) (ends : EndsBefore r) :
    readExponent (power ++ r) = some (e, r) := by
  cases spelled with
  | absent =>
    cases r with
    | nil => rfl
    | cons c r =>
      obtain ⟨-, -, lower, upper⟩ := ends c rfl
      rw [List.nil_append, readExponent, if_neg (not_or.2 ⟨lower, upper⟩)]
  | @present letter negative sign ds marks signed digits =>
    rw [List.cons_append, readExponent, if_pos marks, List.append_assoc, readSign_append signed digits,
      readDigits_append digits fun c first => (ends c first).1]
    rfl

/-- A number is read from each of its spellings, up to a character that cannot belong to it. -/
theorem read?_append {n : Numeral} {cs r : List Char} (spelled : Spelled n cs) (ends : EndsBefore r) :
    read? (cs ++ r) = some (n, r) := by
  obtain @⟨negative, whole, fraction, point, power, exponent, wholes, fractions, exponents⟩ := spelled
  have afterPoint : ∀ c ∈ (power ++ r).head?, c.isDigit = false ∧ c ≠ '.' := by
    cases exponents with
    | absent => exact fun c first => ⟨(ends c first).1, (ends c first).2.1⟩
    | present letter =>
      rintro c ⟨⟩
      rcases letter with rfl | rfl <;> decide
  have afterWhole : ∀ c ∈ (point ++ (power ++ r)).head?, c.isDigit = false := by
    cases fractions with
    | absent => exact fun c first => (afterPoint c first).1
    | present digits =>
      rintro c ⟨⟩
      rfl
  simp only [List.append_assoc, read?, readMinus_append wholes, readWhole_append wholes afterWhole,
    readFraction_append fractions afterPoint, readExponent_append exponents ends, Option.bind_eq_bind,
    Option.bind_some]
  rfl

theorem spelled_ofNat (n : Nat) : Spelled (ofNat n) (Nat.toDigits 10 n) := by
  have digit : ∀ d ∈ Nat.toDigits 10 n, d.isDigit = true := fun d member =>
    Nat.isDigit_of_mem_toDigits (by decide) (by decide) member
  have whole : Whole (Nat.toDigits 10 n) := by
    obtain ⟨d, more, digits, zero⟩ := toDigits_eq_cons n
    rw [digits] at digit ⊢
    by_cases leading : d = '0'
    · exact .inl (by rw [leading, zero leading])
    · exact .inr ⟨⟨List.cons_ne_nil d more, digit⟩, fun same => leading (Option.some.inj same)⟩
  have spelled : Spelled (ofNat n) ((if false then ['-'] else []) ++ (Nat.toDigits 10 n ++ ([] ++ []))) :=
    .parts whole .absent .absent
  rwa [if_neg Bool.false_ne_true, List.nil_append, List.append_nil, List.append_nil] at spelled

theorem toByte?_ofNat (v : UInt8) : (ofNat v.toNat).toByte? = some v := by
  have bound := v.toNat_lt
  have same : value (Nat.toDigits 10 v.toNat) = v.toNat := Nat.ofDigitChars_ten_toDigits
  simp only [toByte?, ofNat, same, true_and]
  rw [if_pos (by omega), UInt8.ofNat_toNat]

/-- Natural numbers that take 64 bits are in range. -/
theorem inRange_ofNat {n : Nat} (small : n < UInt64.size) : (ofNat n).inRange = true := by
  have digits : (ofNat n).scaled = ⟨n, 0, false⟩ := by
    have value := Nat.ofDigitChars_ten_toDigits (n := n)
    have added := foldl_addWhole (Nat.toDigits 10 n) 0 (by rwa [value])
    rw [value] at added
    simp only [scaled, ofNat, added]
    rfl
  have finite := Binary64.isFinite_ofNat_mul_one small
  have power : Binary64.ofNat (Nat.pow 10 (0 : Int).toNat) = Binary64.ofNat 1 :=
    congrArg Binary64.ofNat rfl
  rw [inRange, digits]
  dsimp only
  split
  · rfl
  · rw [if_neg (by decide), power]
    exact finite

end Numeral

end PocketConsole
