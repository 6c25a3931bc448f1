import Mathlib.Tactic.Ring
import PocketConsole.Binary64

namespace PocketConsole

/-! ### The nearest integer -/

/-- The nearest integer is the whole part of the fraction, or one more where at least half is left. -/
theorem nearestNat_eq (num den : Nat) :
    (nearestNat num den = num / den ∧ 2 * (num % den) ≤ den) ∨
      (nearestNat num den = num / den + 1 ∧ den ≤ 2 * (num % den)) := by
  have parity := Nat.mod_two_eq_zero_or_one (num / den)
  unfold nearestNat
  dsimp only
  split
  · exact .inl ⟨rfl, by omega⟩
  · split
    · exact .inr ⟨rfl, by omega⟩
    · rcases parity with even | odd
      · exact .inl ⟨by rw [even, Nat.add_zero], by omega⟩
      · exact .inr ⟨by rw [odd], by omega⟩

/-- The error is half of the denominator at most. -/
theorem nearestNat_error {den : Nat} (positive : 0 < den) (num : Nat) :
    2 * (nearestNat num den * den) ≤ 2 * num + den ∧ 2 * num ≤ 2 * (nearestNat num den * den) + den := by
  have whole := Nat.div_add_mod' num den
  have below := Nat.mod_lt num positive
  rcases nearestNat_eq num den with ⟨nearest, small⟩ | ⟨nearest, large⟩
  · rw [nearest]
    omega
  · rw [nearest, Nat.add_mul, Nat.one_mul]
    omega

/-- An integer is the nearest one if it is closer than half of the denominator. -/
theorem nearestNat_of_near {num den k : Nat} (below : 2 * num < 2 * (k * den) + den)
    (above : 2 * (k * den) < 2 * num + den) : nearestNat num den = k := by
  have positive : 0 < den := by omega
  obtain ⟨upper, lower⟩ := nearestNat_error positive num
  have notLess : nearestNat num den < k + 1 := by
    refine Nat.lt_of_mul_lt_mul_right (a := den) ?_
    rw [Nat.add_mul, Nat.one_mul]
    omega
  have notMore : k < nearestNat num den + 1 := by
    refine Nat.lt_of_mul_lt_mul_right (a := den) ?_
    rw [Nat.add_mul, Nat.one_mul]
    omega
  omega

theorem nearestNat_le_of_le {num den k : Nat} (positive : 0 < den) (bound : num ≤ k * den) :
    nearestNat num den ≤ k := by
  obtain ⟨upper, -⟩ := nearestNat_error positive num
  refine Nat.lt_add_one_iff.1 (Nat.lt_of_mul_lt_mul_right (a := den) ?_)
  rw [Nat.add_mul, Nat.one_mul]
  omega

theorem le_nearestNat_of_le {num den k : Nat} (positive : 0 < den) (bound : k * den ≤ num) :
    k ≤ nearestNat num den := by
  obtain ⟨-, lower⟩ := nearestNat_error positive num
  refine Nat.lt_add_one_iff.1 (Nat.lt_of_mul_lt_mul_right (a := den) ?_)
  rw [Nat.add_mul, Nat.one_mul]
  omega

namespace Binary64

/-! ### The numbers of the format -/

theorem spacing_eq (units : Nat) : spacing units = 2 ^ (units.log2 - 52) :=
  Nat.one_shiftLeft _

theorem spacing_pos (units : Nat) : 0 < spacing units := by
  rw [spacing_eq]
  exact Nat.two_pow_pos _

theorem log2_mono {a b : Nat} (le : a ≤ b) : a.log2 ≤ b.log2 := by
  by_cases none : a = 0
  · subst none
    exact Nat.zero_le _
  · exact (Nat.le_log2 (by omega)).2 ((Nat.log2_self_le none).trans le)

/-- Numbers further up are further apart, by whole powers of two. -/
theorem spacing_dvd_spacing {a b : Nat} (le : a ≤ b) : spacing a ∣ spacing b := by
  rw [spacing_eq, spacing_eq]
  exact Nat.pow_dvd_pow 2 (Nat.sub_le_sub_right (log2_mono le) 52)

theorem spacing_dvd_two_pow {units k : Nat} (bound : units.log2 ≤ k) : spacing units ∣ 2 ^ k := by
  rw [spacing_eq]
  exact Nat.pow_dvd_pow 2 (by omega)

/-- The number is one of the format: a multiple of the spacing around it. -/
def OnGrid (x : Binary64) : Prop :=
  spacing x.units ∣ x.units

theorem onGrid_zero : OnGrid zero :=
  ⟨0, rfl⟩

theorem onGrid_two_pow (k : Nat) : OnGrid ⟨2 ^ k⟩ := by
  refine spacing_dvd_two_pow ?_
  rw [Nat.log2_two_pow]

/-- Every multiple of a power of two is a number of the format, as long as the multiple has 53 bits. -/
theorem onGrid_of_factors {m k units : Nat} (factors : units = m * 2 ^ k) (bits : m < 2 ^ 53) : OnGrid ⟨units⟩ := by
  subst factors
  by_cases none : m = 0
  · subst none
    rw [Nat.zero_mul]
    exact onGrid_zero
  have length : m.log2 < 53 := (Nat.log2_lt none).2 bits
  have exponent : (m * 2 ^ k).log2 < m.log2 + k + 1 := by
    refine (Nat.log2_lt (Nat.mul_ne_zero none (Nat.two_pow_pos k).ne')).2 ?_
    rw [Nat.add_right_comm, Nat.pow_add]
    exact Nat.mul_lt_mul_of_pos_right Nat.lt_log2_self (Nat.two_pow_pos k)
  have spaced : spacing (m * 2 ^ k) ∣ 2 ^ k := by
    rw [spacing_eq]
    exact Nat.pow_dvd_pow 2 (by omega)
  exact spaced.trans (Nat.dvd_mul_left _ _)

/-! ### Rounding -/

theorem units_round (num den : Nat) :
    (round num den).units = nearestNat num (den * spacing (num / den)) * spacing (num / den) := rfl

/-- Rounding never goes past a number of the format. -/
theorem units_round_le_of_le {num den : Nat} (positive : 0 < den) {y : Binary64} (grid : y.OnGrid)
    (bound : num ≤ y.units * den) : (round num den).units ≤ y.units := by
  have whole : num / den ≤ y.units := Nat.div_le_of_le_mul (by rwa [Nat.mul_comm] at bound)
  obtain ⟨k, multiple⟩ := (spacing_dvd_spacing whole).trans grid
  have near : nearestNat num (den * spacing (num / den)) ≤ k := by
    refine nearestNat_le_of_le (Nat.mul_pos positive (spacing_pos _)) ?_
    calc num ≤ y.units * den := bound
      _ = k * (den * spacing (num / den)) := by rw [multiple]; ring
  calc (round num den).units
      ≤ k * spacing (num / den) := Nat.mul_le_mul_right _ near
    _ = y.units := by rw [multiple, Nat.mul_comm]

/-- What rounding gives is a number of the format. -/
theorem onGrid_round (num : Nat) {den : Nat} (positive : 0 < den) : (round num den).OnGrid := by
  have power : (round num den).units ≤ 2 ^ ((num / den).log2 + 1) := by
    refine units_round_le_of_le positive (onGrid_two_pow _) ?_
    have whole : num / den < 2 ^ ((num / den).log2 + 1) := Nat.lt_log2_self
    exact Nat.le_of_lt ((Nat.div_lt_iff_lt_mul positive).1 whole)
  rcases Nat.lt_or_eq_of_le power with below | same
  · have spaced : spacing (round num den).units ∣ spacing (num / den) := by
      have length : (round num den).units.log2 ≤ (num / den).log2 := by
        by_cases none : (round num den).units = 0
        · rw [none]
          exact Nat.zero_le _
        · exact Nat.le_of_lt_succ ((Nat.log2_lt none).2 below)
      rw [spacing_eq, spacing_eq]
      exact Nat.pow_dvd_pow 2 (Nat.sub_le_sub_right length 52)
    exact spaced.trans (Nat.dvd_mul_left _ _)
  · have round_eq : round num den = ⟨2 ^ ((num / den).log2 + 1)⟩ := congrArg mk same
    rw [round_eq]
    exact onGrid_two_pow _

/-- Rounding never goes below a number of the format. -/
theorem le_units_round_of_le {num den : Nat} (positive : 0 < den) {y : Binary64} (grid : y.OnGrid)
    (bound : y.units * den ≤ num) : y.units ≤ (round num den).units := by
  have whole : y.units ≤ num / den := (Nat.le_div_iff_mul_le positive).2 bound
  have multiple : ∀ z, z ≤ num / den → spacing (num / den) ∣ z → z ≤ (round num den).units := by
    rintro z le ⟨k, rfl⟩
    rw [units_round, Nat.mul_comm]
    refine Nat.mul_le_mul_right _ (le_nearestNat_of_le (Nat.mul_pos positive (spacing_pos _)) ?_)
    calc k * (den * spacing (num / den)) = spacing (num / den) * k * den := by ring
      _ ≤ num := (Nat.le_div_iff_mul_le positive).1 le
  -- a number of the same length lies on the spacing used, a shorter one below a power of two that does
  rcases Nat.lt_or_eq_of_le (log2_mono whole) with shorter | same
  · have nonzero : num / den ≠ 0 := by
      intro none
      rw [none] at shorter
      exact Nat.not_lt_zero _ shorter
    have power := multiple (2 ^ (num / den).log2) (Nat.log2_self_le nonzero) (spacing_dvd_two_pow (Nat.le_refl _))
    have less : y.units < 2 ^ (num / den).log2 := by
      by_cases none : y.units = 0
      · rw [none]
        exact Nat.two_pow_pos _
      · exact (Nat.log2_lt none).1 shorter
    exact less.le.trans power
  · refine multiple y.units whole ?_
    rw [spacing_eq, ← same, ← spacing_eq]
    exact grid

theorem round_units_mul {x : Binary64} (grid : x.OnGrid) {den : Nat} (positive : 0 < den) :
    round (x.units * den) den = x :=
  congrArg mk (Nat.le_antisymm (units_round_le_of_le positive grid (Nat.le_refl _))
    (le_units_round_of_le positive grid (Nat.le_refl _)))

/-- Rounding to the integers between which a number lies in units does nothing to a number of the format. -/
theorem round_units {x : Binary64} (grid : x.OnGrid) : round x.units 1 = x := by
  have rounded := round_units_mul grid Nat.one_pos
  rwa [Nat.mul_one] at rounded

theorem round_error (num : Nat) :
    2 * (round num 1).units ≤ 2 * num + spacing num ∧ 2 * num ≤ 2 * (round num 1).units + spacing num := by
  have error := nearestNat_error (spacing_pos num) num
  rw [units_round, Nat.div_one, Nat.one_mul]
  exact error

/-! ### Integers -/

theorem exists_oneUnits : ∃ k, oneUnits = 2 ^ k := by
  obtain ⟨k, shifted⟩ : ∃ k, oneUnits = 1 <<< k := ⟨_, rfl⟩
  exact ⟨k, shifted.trans (Nat.one_shiftLeft k)⟩

theorem oneUnits_pos : 0 < oneUnits := by
  obtain ⟨k, power⟩ := exists_oneUnits
  rw [power]
  exact Nat.two_pow_pos k

/-- An integer of 53 bits times a power of two is a number of the format. -/
theorem onGrid_mul_oneUnits {n m e : Nat} (factors : n = m * 2 ^ e) (bits : m < 2 ^ 53) :
    OnGrid ⟨n * oneUnits⟩ := by
  obtain ⟨k, power⟩ := exists_oneUnits
  refine onGrid_of_factors (m := m) (k := e + k) ?_ bits
  rw [factors, power, Nat.mul_assoc, ← Nat.pow_add]

theorem onGrid_integer {n : Nat} (bits : n < 2 ^ 53) : OnGrid ⟨n * oneUnits⟩ :=
  onGrid_mul_oneUnits (e := 0) (Nat.mul_one n).symm bits

theorem units_ofNat {n : Nat} (bits : n < 2 ^ 53) : (ofNat n).units = n * oneUnits :=
  congrArg units (round_units (onGrid_integer bits))

theorem spacing_le_of_lt {units e : Nat} (bound : units < 2 ^ (e + 53) * oneUnits) :
    spacing units ≤ 2 ^ e * oneUnits := by
  obtain ⟨k, power⟩ := exists_oneUnits
  rw [power, ← Nat.pow_add] at bound ⊢
  have length : units.log2 < e + 53 + k := by
    by_cases none : units = 0
    · rw [none, Nat.log2_zero]
      omega
    · exact (Nat.log2_lt none).2 bound
  rw [spacing_eq]
  exact Nat.pow_le_pow_right (by decide) (by omega)

theorem dvd_spacing_of_le {units e : Nat} (bound : 2 ^ (e + 52) * oneUnits ≤ units) :
    2 ^ e * oneUnits ∣ spacing units := by
  obtain ⟨k, power⟩ := exists_oneUnits
  rw [power, ← Nat.pow_add] at bound ⊢
  have nonzero : units ≠ 0 := Nat.ne_of_gt (Nat.lt_of_lt_of_le (Nat.two_pow_pos _) bound)
  have length := (Nat.le_log2 nonzero).2 bound
  rw [spacing_eq]
  exact Nat.pow_dvd_pow 2 (by omega)

end Binary64

end PocketConsole
