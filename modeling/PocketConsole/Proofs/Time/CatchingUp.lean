import PocketConsole.Proofs.Machine.Time
import PocketConsole.Proofs.Time.Spans

namespace PocketConsole

namespace Scheduler

open Binary64

theorem units_tickLength : 33 * oneUnits < tickLength.units ∧ tickLength.units < 34 * oneUnits := by
  decide +kernel

/-! ### One tick -/

/-- 2 ^ 59 milliseconds, some 18 million years: from there on numbers of the format are more than three ticks apart. -/
def horizon : Binary64 :=
  ⟨2 ^ 59 * oneUnits⟩

theorem tickLength_lt_of_beyond {x : Binary64} (beyond : horizon < x) : tickLength < x := by
  refine Nat.lt_trans ?_ beyond
  have tick := units_tickLength.2
  have limit : horizon.units = 2 ^ 59 * oneUnits := rfl
  omega

/-- Up to the horizon a tick takes more than a millisecond off a time, although the difference is rounded. -/
theorem units_sub_tickLength {x : Binary64} (longer : tickLength < x) (within : x.units ≤ horizon.units) :
    (x - tickLength).units + oneUnits ≤ x.units := by
  have tick := units_tickLength
  have positive := oneUnits_pos
  have longer : tickLength.units < x.units := longer
  have within : x.units ≤ 2 ^ 59 * oneUnits := within
  have spaced : spacing (x.units - tickLength.units) ≤ 2 ^ 6 * oneUnits := spacing_le_of_lt (by omega)
  have error := (round_error (x.units - tickLength.units)).1
  have difference : (x - tickLength).units = (round (x.units - tickLength.units) 1).units := rfl
  omega

/-- Beyond the horizon a tick is less than half of the spacing, so the difference is rounded back. -/
theorem sub_tickLength_of_beyond {x : Binary64} (grid : x.OnGrid) (beyond : horizon < x) : x - tickLength = x := by
  have tick := units_tickLength
  have positive := oneUnits_pos
  have beyond : 2 ^ 59 * oneUnits < x.units := beyond
  -- the next number after the horizon is 128 milliseconds further up
  have next : (2 ^ 59 + 128) * oneUnits ≤ x.units := by
    obtain ⟨a, multiple⟩ := (dvd_spacing_of_le (e := 7) beyond.le).trans grid
    have steps : 2 ^ 52 < a := by
      refine Nat.lt_of_mul_lt_mul_left (a := 2 ^ 7 * oneUnits) ?_
      calc 2 ^ 7 * oneUnits * 2 ^ 52 = 2 ^ 59 * oneUnits := by ring
        _ < x.units := beyond
        _ = 2 ^ 7 * oneUnits * a := multiple
    calc (2 ^ 59 + 128) * oneUnits = 2 ^ 7 * oneUnits * (2 ^ 52 + 1) := by ring
      _ ≤ 2 ^ 7 * oneUnits * a := Nat.mul_le_mul_left _ steps
      _ = x.units := multiple.symm
  obtain ⟨k, multiple⟩ := (spacing_dvd_spacing (Nat.sub_le x.units tickLength.units)).trans grid
  have coarse : 128 * oneUnits ≤ spacing (x.units - tickLength.units) :=
    Nat.le_of_dvd (spacing_pos _) (dvd_spacing_of_le (e := 7) (by omega))
  have nearest : nearestNat (x.units - tickLength.units) (spacing (x.units - tickLength.units)) = k := by
    rw [Nat.mul_comm] at multiple
    exact nearestNat_of_near (by omega) (by omega)
  refine congrArg Binary64.mk ?_
  rw [Nat.div_one, Nat.one_mul, nearest, Nat.mul_comm]
  exact multiple.symm

/-! ### Ticks one after another -/

/-- What is left of a time after a number of ticks have been taken off it. -/
def left (pending : Binary64) (n : Nat) : Binary64 :=
  (fun x => x - tickLength)^[n] pending

theorem left_zero (pending : Binary64) : left pending 0 = pending := rfl

theorem left_succ (pending : Binary64) (n : Nat) : left pending (n + 1) = left (pending - tickLength) n :=
  Function.iterate_succ_apply _ n pending

theorem left_succ' (pending : Binary64) (n : Nat) : left pending (n + 1) = left pending n - tickLength :=
  Function.iterate_succ_apply' _ n pending

/-- Ticks are taken off exactly as long as more than one is left. -/
theorem drain_eq_some_iff {pending rest : Binary64} {done n : Nat} :
    drain pending done = some (n, rest) ↔
      ∃ k, n = done + k ∧ rest = left pending k ∧ (∀ j < k, tickLength < left pending j) ∧
        ¬ tickLength < left pending k := by
  constructor
  · refine drain.partial_correctness (fun pending done result => ∃ k, result.1 = done + k ∧
      result.2 = left pending k ∧ (∀ j < k, tickLength < left pending j) ∧ ¬ tickLength < left pending k)
      (fun loop ih pending done result turn => ?_) pending done (n, rest)
    by_cases longer : tickLength < pending
    · rw [if_pos longer] at turn
      obtain ⟨k, count, rest, before, last⟩ := ih _ _ _ turn
      rw [← left_succ] at rest last
      refine ⟨k + 1, by omega, rest, fun j earlier => ?_, last⟩
      cases j with
      | zero =>
        rw [left_zero]
        exact longer
      | succ j =>
        rw [left_succ]
        exact before j (Nat.lt_of_succ_lt_succ earlier)
    · rw [if_neg longer] at turn
      cases turn
      refine ⟨0, rfl, (left_zero pending).symm, fun j earlier => absurd earlier (Nat.not_lt_zero j), ?_⟩
      rw [left_zero]
      exact longer
  · rintro ⟨k, rfl, rfl, before, last⟩
    induction k generalizing pending done with
    | zero =>
      rw [left_zero] at last ⊢
      exact drain_of_not_lt last done
    | succ k ih =>
      have longer := before 0 (Nat.succ_pos k)
      rw [left_zero] at longer
      rw [left_succ] at last ⊢
      have rest : ∀ j < k, tickLength < left (pending - tickLength) j := by
        intro j earlier
        rw [← left_succ]
        exact before (j + 1) (Nat.succ_lt_succ earlier)
      rw [drain_of_lt longer, ih rest last, Nat.add_right_comm, Nat.add_assoc]

theorem drain_eq_none_iff {pending : Binary64} {done : Nat} :
    drain pending done = none ↔ ∀ k, tickLength < left pending k := by
  constructor
  · intro endless
    by_contra ends
    have ends : ∃ k, ¬ tickLength < left pending k := not_forall.1 ends
    have first : drain pending done = some (done + Nat.find ends, left pending (Nat.find ends)) :=
      drain_eq_some_iff.2
        ⟨Nat.find ends, rfl, rfl, fun j earlier => not_not.1 (Nat.find_min ends earlier), Nat.find_spec ends⟩
    rw [endless] at first
    cases first
  · intro longer
    cases drained : drain pending done with
    | none => rfl
    | some result =>
      obtain ⟨k, -, -, -, last⟩ := drain_eq_some_iff.1 drained
      exact absurd (longer k) last

/-- Up to the horizon every tick takes off a millisecond. -/
theorem units_left_le {pending : Binary64} (within : pending.units ≤ horizon.units) {n : Nat}
    (longer : ∀ k < n, tickLength < left pending k) :
    (left pending n).units + n * oneUnits ≤ pending.units := by
  induction n with
  | zero =>
    rw [Nat.zero_mul]
    exact Nat.le_refl _
  | succ n ih =>
    have before := ih fun k earlier => longer k (Nat.lt_succ_of_lt earlier)
    have tick := units_sub_tickLength (longer n (Nat.lt_succ_self n)) (by omega)
    rw [left_succ', Nat.add_mul, Nat.one_mul]
    omega

theorem left_of_beyond {pending : Binary64} (grid : pending.OnGrid) (beyond : horizon < pending) (n : Nat) :
    left pending n = pending := by
  induction n with
  | zero => rfl
  | succ n ih => rw [left_succ', ih, sub_tickLength_of_beyond grid beyond]

/-- Ticks can be taken off a time to the end exactly up to the horizon. -/
theorem drain_eq_none_iff_beyond {pending : Binary64} (grid : pending.OnGrid) {done : Nat} :
    drain pending done = none ↔ horizon < pending := by
  rw [drain_eq_none_iff]
  constructor
  · intro longer
    by_contra within
    have counted := units_left_le (Nat.le_of_not_lt within) (n := pending.units + 1) fun k _ => longer k
    have positive := Nat.mul_le_mul_left (pending.units + 1) oneUnits_pos
    omega
  · intro beyond k
    rw [left_of_beyond grid beyond]
    exact tickLength_lt_of_beyond beyond

/-! ### Spans of time one after another -/

/-- The time that ticks are taken off when a span has passed: what was left before, and the span. -/
def total (s : Scheduler) (elapsed : Duration) : Binary64 :=
  s.pending + elapsed.toMilliseconds

/-- The schedulers that come about as time passes and is discarded, after which a scheduler is fresh again. -/
inductive Reached : Scheduler → Prop
  | fresh : Reached fresh
  | advance {s t : Scheduler} {elapsed : Duration} {n : Nat} :
    Reached s → s.advance elapsed = some (n, t) → Reached t

theorem advance_eq_some_iff {s t : Scheduler} {elapsed : Duration} {n : Nat} :
    s.advance elapsed = some (n, t) ↔
      t.pending = left (s.total elapsed) n ∧ (∀ k < n, tickLength < left (s.total elapsed) k) ∧
        ¬ tickLength < left (s.total elapsed) n := by
  have drained : s.advance elapsed = some (n, t) ↔ drain (s.total elapsed) 0 = some (n, t.pending) := by
    rw [advance, Option.map_eq_some_iff]
    constructor
    · rintro ⟨⟨k, rest⟩, drained, result⟩
      cases result
      exact drained
    · intro drained
      exact ⟨(n, t.pending), drained, rfl⟩
  rw [drained, drain_eq_some_iff]
  constructor
  · rintro ⟨k, count, rest, before, last⟩
    obtain rfl : n = k := by omega
    exact ⟨rest, before, last⟩
  · rintro ⟨rest, before, last⟩
    exact ⟨n, (Nat.zero_add n).symm, rest, before, last⟩

theorem advance_eq_none_iff {s : Scheduler} {elapsed : Duration} :
    s.advance elapsed = none ↔ drain (s.total elapsed) 0 = none :=
  Option.map_eq_none_iff

theorem onGrid_total (s : Scheduler) (elapsed : Duration) : (s.total elapsed).OnGrid :=
  onGrid_round _ Nat.one_pos

theorem onGrid_left {pending : Binary64} (grid : pending.OnGrid) (n : Nat) : (left pending n).OnGrid := by
  cases n with
  | zero => exact grid
  | succ n =>
    rw [left_succ']
    exact onGrid_round _ Nat.one_pos

theorem advance_eq_none_iff_beyond (s : Scheduler) (elapsed : Duration) :
    s.advance elapsed = none ↔ horizon < s.total elapsed := by
  rw [advance_eq_none_iff, drain_eq_none_iff_beyond (onGrid_total s elapsed)]

/-- From 576460752303424 seconds on a span is beyond the horizon, whatever was left before. -/
theorem advance_eq_none_of_long (s : Scheduler) {elapsed : Duration}
    (long : 576460752303424 ≤ elapsed.seconds.toNat) : s.advance elapsed = none := by
  have seconds := Duration.le_units_toSeconds (onGrid_integer (by decide)) long
  have next : OnGrid ⟨(2 ^ 52 + 1) * 2 ^ 7 * oneUnits⟩ := onGrid_mul_oneUnits rfl (by decide)
  have span := Duration.le_units_toMilliseconds next seconds (by decide)
  have total : (2 ^ 52 + 1) * 2 ^ 7 * oneUnits ≤ (s.total elapsed).units := by
    refine le_units_round_of_le Nat.one_pos next ?_
    rw [Nat.mul_one]
    exact span.trans (Nat.le_add_left _ _)
  refine (advance_eq_none_iff_beyond s elapsed).2 (Nat.lt_of_lt_of_le ?_ total)
  exact Nat.mul_lt_mul_of_pos_right (by decide) oneUnits_pos

namespace Reached

variable {s : Scheduler}

theorem onGrid (reached : s.Reached) : s.pending.OnGrid := by
  cases reached with
  | fresh => exact onGrid_zero
  | advance _ passed =>
    rw [(advance_eq_some_iff.1 passed).1]
    exact onGrid_left (onGrid_total _ _) _

/-- Never is more than a tick left over. -/
theorem not_lt (reached : s.Reached) : ¬ tickLength < s.pending := by
  cases reached with
  | fresh => exact Nat.not_lt_zero _
  | advance _ passed =>
    obtain ⟨rest, -, last⟩ := advance_eq_some_iff.1 passed
    rwa [rest]

theorem total_zero (reached : s.Reached) : s.total .zero = s.pending := by
  have none : Duration.zero.toMilliseconds = zero := by decide +kernel
  rw [total, none]
  exact round_units reached.onGrid

/-- Where no time passes no tick is due. -/
theorem advance_zero (reached : s.Reached) : s.advance .zero = some (0, s) := by
  rw [advance_eq_some_iff, reached.total_zero, left_zero]
  exact ⟨rfl, fun k earlier => absurd earlier (Nat.not_lt_zero k), reached.not_lt⟩

theorem units_lt (reached : s.Reached) : s.pending.units < 34 * oneUnits :=
  Nat.lt_of_le_of_lt (Nat.le_of_not_lt reached.not_lt) units_tickLength.2

theorem units_total_le (reached : s.Reached) {elapsed : Duration} {n k : Nat} (grid : OnGrid ⟨k * oneUnits⟩)
    (span : elapsed.toMilliseconds.units ≤ n * oneUnits) (bound : n + 34 ≤ k) :
    (s.total elapsed).units ≤ k * oneUnits := by
  refine units_round_le_of_le Nat.one_pos grid ?_
  rw [Nat.mul_one]
  calc s.pending.units + elapsed.toMilliseconds.units
      ≤ 34 * oneUnits + n * oneUnits := Nat.add_le_add reached.units_lt.le span
    _ = (n + 34) * oneUnits := by ring
    _ ≤ k * oneUnits := Nat.mul_le_mul_right _ bound

/-- Spans of 64-bit seconds do not reach infinity. -/
theorem isFinite_total (reached : s.Reached) (elapsed : Duration) : (s.total elapsed).isFinite = true := by
  have power : ∀ e, OnGrid ⟨2 ^ e * oneUnits⟩ := fun e =>
    onGrid_mul_oneUnits (m := 1) (Nat.one_mul _).symm (by decide)
  have seconds := Duration.units_toSeconds_le (power 64) (power 65) elapsed.seconds.toNat_lt.le (by decide)
  have span := Duration.units_toMilliseconds_le (power 75) seconds (by decide)
  have bound := reached.units_total_le (power 76) span (by decide)
  have room : ∀ e, 76 < e → 2 ^ 76 * oneUnits < (1 <<< e) * oneUnits := by
    intro e large
    rw [Nat.one_shiftLeft]
    exact Nat.mul_lt_mul_of_pos_right (Nat.pow_lt_pow_right (by decide) large) oneUnits_pos
  exact decide_eq_true (Nat.lt_of_le_of_lt bound (room 1024 (by decide)))

/-- No more ticks are due than milliseconds have passed, but for those of two seconds. -/
theorem due_le (reached : s.Reached) {elapsed : Duration} {n : Nat} {t : Scheduler}
    (passed : s.advance elapsed = some (n, t)) : n ≤ 1000 * (elapsed.seconds.toNat + 2) := by
  have ends : s.advance elapsed ≠ none := fun endless => by
    rw [passed] at endless
    cases endless
  have short : elapsed.seconds.toNat < 576460752303424 := by
    by_contra long
    exact ends (advance_eq_none_of_long s (Nat.le_of_not_lt long))
  have within : (s.total elapsed).units ≤ horizon.units :=
    Nat.le_of_not_lt (mt (advance_eq_none_iff_beyond s elapsed).2 ends)
  -- multiples of 128 milliseconds are numbers of the format up to the horizon and beyond
  obtain ⟨k, bound, more⟩ : ∃ k, (elapsed.seconds.toNat + 1) * 1000 ≤ k * 2 ^ 7 ∧
      (k + 1) * 2 ^ 7 ≤ 1000 * (elapsed.seconds.toNat + 2) :=
    ⟨(elapsed.seconds.toNat + 1) * 1000 / 128 + 1, by omega, by omega⟩
  have seconds := Duration.units_toSeconds_le (d := elapsed) (onGrid_integer (by omega)) (onGrid_integer (by omega))
    (Nat.le_refl elapsed.seconds.toNat) (Nat.le_refl _)
  have span := Duration.units_toMilliseconds_le (onGrid_mul_oneUnits rfl (by omega)) seconds bound
  have total := reached.units_total_le (k := (k + 1) * 2 ^ 7) (onGrid_mul_oneUnits rfl (by omega)) span (by omega)
  obtain ⟨-, before, -⟩ := advance_eq_some_iff.1 passed
  have counted := units_left_le within before
  have ticks : n * oneUnits ≤ (k + 1) * 2 ^ 7 * oneUnits := by omega
  exact (Nat.le_of_mul_le_mul_right ticks oneUnits_pos).trans more

end Reached

/-- Whatever has happened before, catching up ends after a span exactly if the time that ticks are taken off is
at most the horizon, so always after less than 576460752303423 seconds and never from 576460752303424 on. Where it
ends, no more than a tick is left, none is due until more time passes, and no more were due than milliseconds have
passed, but for those of two seconds. -/
theorem catches_up_to_horizon {s : Scheduler} (reached : s.Reached) (elapsed : Duration) :
    (s.advance elapsed = none ↔ ∀ n, tickLength < left (s.total elapsed) n) ∧
      (s.advance elapsed = none ↔ horizon < s.total elapsed) ∧
      (s.total elapsed).isFinite = true ∧
      (∀ n t, s.advance elapsed = some (n, t) →
        t.pending = left (s.total elapsed) n ∧ (∀ k < n, tickLength < left (s.total elapsed) k) ∧
          t.pending.units ≤ tickLength.units ∧ t.advance .zero = some (0, t) ∧
          n ≤ 1000 * (elapsed.seconds.toNat + 2)) ∧
      (elapsed.seconds.toNat < 576460752303423 → s.advance elapsed ≠ none) ∧
      (576460752303424 ≤ elapsed.seconds.toNat → s.advance elapsed = none) := by
  refine ⟨advance_eq_none_iff.trans drain_eq_none_iff, advance_eq_none_iff_beyond s elapsed,
    reached.isFinite_total elapsed, fun n t passed => ?_, fun short endless => ?_, fun long => ?_⟩
  · obtain ⟨rest, before, -⟩ := advance_eq_some_iff.1 passed
    have later := Reached.advance reached passed
    exact ⟨rest, before, Nat.le_of_not_lt later.not_lt, later.advance_zero, reached.due_le passed⟩
  · have seconds := Duration.units_toSeconds_le (d := elapsed) (n := 576460752303422) (k := 576460752303423)
      (onGrid_integer (by decide)) (onGrid_integer (by decide)) (Nat.le_of_lt_succ short) (by decide)
    have span := Duration.units_toMilliseconds_le (k := (2 ^ 53 - 1) * 2 ^ 6) (onGrid_mul_oneUnits rfl (by decide))
      seconds (by decide)
    have bound := reached.units_total_le (k := 2 ^ 59) (onGrid_mul_oneUnits (m := 1) (e := 59) rfl (by decide)) span
      (by decide)
    exact Nat.not_lt_of_le bound ((advance_eq_none_iff_beyond s elapsed).1 endless)
  · exact advance_eq_none_of_long s long

/-- After a first tick a span just below the limit is caught up with, and one just above it is not. -/
theorem catches_up_to_horizon_after_tick :
    afterTick.Reached ∧
      (∃ n t, afterTick.advance ⟨576460752303422, 999999999⟩ = some (n, t) ∧ t.pending.units ≤ tickLength.units ∧
        t.advance .zero = some (0, t)) ∧
      afterTick.advance ⟨576460752303424, 0⟩ = none := by
  have reached : afterTick.Reached := .advance .fresh advance_fresh_eq
  obtain ⟨-, -, -, caughtUp, ends, -⟩ := catches_up_to_horizon reached ⟨576460752303422, 999999999⟩
  obtain ⟨-, -, -, -, -, endless⟩ := catches_up_to_horizon reached ⟨576460752303424, 0⟩
  obtain ⟨⟨n, t⟩, passed⟩ := Option.ne_none_iff_exists'.1 (ends (by decide))
  obtain ⟨-, -, last, still, -⟩ := caughtUp n t passed
  exact ⟨reached, ⟨n, t, passed, last, still⟩, endless (by decide)⟩

/-- Of 10 ^ 15 seconds, the time between two frames at a rate of 10 ^ -15, a tick takes nothing off. -/
theorem endless_after_long_span : ¬ ∀ s : Scheduler, s.Reached → ∀ elapsed : Duration,
    ∃ n, ¬ tickLength < left (s.total elapsed) n := by
  intro ends
  obtain ⟨n, last⟩ := ends fresh .fresh ⟨999999999999999, 875000000⟩
  have beyond : horizon < fresh.total ⟨999999999999999, 875000000⟩ := by decide +kernel
  rw [left_of_beyond (onGrid_total _ _) beyond] at last
  exact last (tickLength_lt_of_beyond beyond)

end Scheduler

end PocketConsole
