import PocketConsole.Duration
import PocketConsole.Proofs.Time.Rounding

namespace PocketConsole

namespace Duration

open Binary64

/-- A span in milliseconds, as a scheduler reckons it. -/
def toMilliseconds (d : Duration) : Binary64 :=
  d.toSeconds * .ofNat 1000

theorem units_ofNat_thousand : (ofNat 1000).units = 1000 * oneUnits :=
  units_ofNat (by decide)

theorem units_ofNat_billion : (ofNat 1000000000).units = 1000000000 * oneUnits :=
  units_ofNat (by decide)

/-- The nanoseconds of a span are a second at most. -/
theorem units_nanoseconds_le (d : Duration) :
    (ofNat d.nanoseconds / ofNat 1000000000).units ≤ oneUnits := by
  have grid : OnGrid ⟨1 * oneUnits⟩ := onGrid_integer (by decide)
  have billion : OnGrid ⟨1000000000 * oneUnits⟩ := onGrid_integer (by decide)
  have numerator : (ofNat d.nanoseconds).units ≤ 1000000000 * oneUnits := by
    refine units_round_le_of_le Nat.one_pos billion ?_
    rw [Nat.mul_one]
    exact Nat.mul_le_mul_right _ (Nat.le_of_lt d.nanoseconds.isLt)
  rw [Nat.one_mul] at grid
  refine units_round_le_of_le (y := ⟨oneUnits⟩) ?_ grid ?_
  · rw [units_ofNat_billion]
    exact Nat.mul_pos (by decide) oneUnits_pos
  · rw [units_ofNat_billion, Nat.mul_comm]
    exact Nat.mul_le_mul_left _ numerator

theorem units_toSeconds_le {d : Duration} {n k : Nat} (grid : OnGrid ⟨n * oneUnits⟩) (next : OnGrid ⟨k * oneUnits⟩)
    (bound : d.seconds.toNat ≤ n) (more : n + 1 ≤ k) : d.toSeconds.units ≤ k * oneUnits := by
  have whole : (ofNat d.seconds.toNat).units ≤ n * oneUnits := by
    refine units_round_le_of_le Nat.one_pos grid ?_
    rw [Nat.mul_one]
    exact Nat.mul_le_mul_right _ bound
  have part := d.units_nanoseconds_le
  refine units_round_le_of_le Nat.one_pos next ?_
  rw [Nat.mul_one]
  calc (ofNat d.seconds.toNat).units + (ofNat d.nanoseconds / ofNat 1000000000).units
      ≤ n * oneUnits + oneUnits := Nat.add_le_add whole part
    _ = (n + 1) * oneUnits := (Nat.succ_mul n oneUnits).symm
    _ ≤ k * oneUnits := Nat.mul_le_mul_right _ more

theorem le_units_toSeconds {d : Duration} {n : Nat} (grid : OnGrid ⟨n * oneUnits⟩) (bound : n ≤ d.seconds.toNat) :
    n * oneUnits ≤ d.toSeconds.units := by
  have whole : n * oneUnits ≤ (ofNat d.seconds.toNat).units := by
    refine le_units_round_of_le Nat.one_pos grid ?_
    rw [Nat.mul_one]
    exact Nat.mul_le_mul_right _ bound
  refine le_units_round_of_le Nat.one_pos grid ?_
  rw [Nat.mul_one]
  exact whole.trans (Nat.le_add_right _ _)

theorem units_toMilliseconds_le {d : Duration} {n k : Nat} (grid : OnGrid ⟨k * oneUnits⟩)
    (seconds : d.toSeconds.units ≤ n * oneUnits) (bound : n * 1000 ≤ k) :
    d.toMilliseconds.units ≤ k * oneUnits := by
  refine units_round_le_of_le oneUnits_pos grid ?_
  rw [units_ofNat_thousand]
  calc d.toSeconds.units * (1000 * oneUnits)
      ≤ n * oneUnits * (1000 * oneUnits) := Nat.mul_le_mul_right _ seconds
    _ = n * 1000 * (oneUnits * oneUnits) := by ring
    _ ≤ k * (oneUnits * oneUnits) := Nat.mul_le_mul_right _ bound
    _ = k * oneUnits * oneUnits := (Nat.mul_assoc _ _ _).symm

theorem le_units_toMilliseconds {d : Duration} {n k : Nat} (grid : OnGrid ⟨k * oneUnits⟩)
    (seconds : n * oneUnits ≤ d.toSeconds.units) (bound : k ≤ n * 1000) :
    k * oneUnits ≤ d.toMilliseconds.units := by
  refine le_units_round_of_le oneUnits_pos grid ?_
  rw [units_ofNat_thousand]
  calc k * oneUnits * oneUnits = k * (oneUnits * oneUnits) := Nat.mul_assoc _ _ _
    _ ≤ n * 1000 * (oneUnits * oneUnits) := Nat.mul_le_mul_right _ bound
    _ = n * oneUnits * (1000 * oneUnits) := by ring
    _ ≤ d.toSeconds.units * (1000 * oneUnits) := Nat.mul_le_mul_right _ seconds

end Duration

end PocketConsole
