import Mathlib.Logic.Function.Iterate
import PocketConsole.Machine.Rig

namespace PocketConsole

namespace Scheduler

theorem drain_of_lt {pending : Binary64} (longer : tickLength < pending) (ticks : Nat) :
    drain pending ticks = drain (pending - tickLength) (ticks + 1) := by
  rw [drain.eq_def, if_pos longer, Function.uncurry_apply_pair]

theorem drain_of_not_lt {pending : Binary64} (last : ¬ tickLength < pending) (ticks : Nat) :
    drain pending ticks = some (ticks, pending) := by
  rw [drain.eq_def, if_neg last]

/-- What a fresh scheduler has left of 34 milliseconds after a tick. -/
def afterTick : Scheduler :=
  ⟨fresh.pending + (Duration.ofNanoseconds 34000000).toSeconds * .ofNat 1000 - tickLength⟩

theorem advance_fresh_eq : fresh.advance (.ofNanoseconds 34000000) = some (1, afterTick) := by
  rw [afterTick, advance]
  generalize total : fresh.pending + (Duration.ofNanoseconds 34000000).toSeconds * .ofNat 1000 = x
  have longer : tickLength < x := by
    rw [← total]
    decide +kernel
  have last : ¬ tickLength < x - tickLength := by
    rw [← total]
    decide +kernel
  rw [drain_of_lt longer, drain_of_not_lt last]
  rfl

/-- After 34 milliseconds one tick is due. -/
theorem advance_fresh : ∃ s, fresh.advance (.ofNanoseconds 34000000) = some (1, s) :=
  ⟨afterTick, advance_fresh_eq⟩

/-- What a fresh scheduler has left of 67 milliseconds after two ticks. -/
def afterTwoTicks : Scheduler :=
  ⟨fresh.pending + (Duration.ofNanoseconds 67000000).toSeconds * .ofNat 1000 - tickLength - tickLength⟩

theorem advance_fresh_twice : fresh.advance (.ofNanoseconds 67000000) = some (2, afterTwoTicks) := by
  rw [afterTwoTicks, advance]
  generalize total : fresh.pending + (Duration.ofNanoseconds 67000000).toSeconds * .ofNat 1000 = x
  have longer : tickLength < x ∧ tickLength < x - tickLength := by
    rw [← total]
    decide +kernel
  have last : ¬ tickLength < x - tickLength - tickLength := by
    rw [← total]
    decide +kernel
  rw [drain_of_lt longer.1, drain_of_lt longer.2, drain_of_not_lt last]
  rfl

/-- After no time at all no tick is due. -/
theorem advance_fresh_zero : ∃ s, fresh.advance .zero = some (0, s) := by
  have last : ¬ tickLength < fresh.pending + Duration.zero.toSeconds * .ofNat 1000 := by
    decide +kernel
  rw [advance, drain_of_not_lt last]
  exact ⟨_, rfl⟩

end Scheduler

namespace Rig

variable {σ : Type} [Store σ]

omit [Store σ] in
theorem registers_countTick (r : Rig σ) : r.countTick.machine.registers = r.machine.registers := by
  obtain ⟨m, host⟩ := r
  simp only [countTick]
  split <;> rfl

theorem iterate_cycle_eq_cycles (n : Nat) (r : Rig σ) :
    cycle^[(cycles n r).1] r = (cycles n r).2 := by
  induction n generalizing r with
  | zero => rfl
  | succ n ih =>
    rw [cycles]
    split
    · rfl
    · exact ih r.cycle

theorem cycles_pos {n : Nat} (positive : 0 < n) (r : Rig σ) : 0 < (cycles n r).1 := by
  obtain ⟨n, rfl⟩ := Nat.exists_eq_succ_of_ne_zero (Nat.ne_of_gt positive)
  rw [cycles]
  split
  · exact Nat.one_pos
  · exact Nat.succ_pos _

theorem fst_cycles_le (n : Nat) (r : Rig σ) : (cycles n r).1 ≤ n := by
  induction n generalizing r with
  | zero => exact Nat.le_refl 0
  | succ n ih =>
    rw [cycles]
    split
    · exact Nat.le_add_left 1 n
    · exact Nat.succ_le_succ (ih r.cycle)

theorem tick_pos (r : Rig σ) : 0 < r.tick.1 :=
  cycles_pos (show 0 < cyclesPerTick by decide) r.countTick

theorem tick_le (r : Rig σ) : r.tick.1 ≤ cyclesPerTick :=
  fst_cycles_le cyclesPerTick r.countTick

theorem ticks_succ (done n : Nat) (r : Rig σ) :
    ticks done (n + 1) r = ticks (done + r.tick.1) n r.tick.2 := by
  rw [ticks]

theorem iterate_cycle_eq_tick (r : Rig σ) : cycle^[r.tick.1] r.countTick = r.tick.2 := by
  rw [tick]
  exact iterate_cycle_eq_cycles cyclesPerTick r.countTick

theorem advance_of_running {m : Machine} (running : m.running = true) {elapsed : Duration} {due : Nat}
    {s : Scheduler} (advanced : m.scheduler.advance elapsed = some (due, s)) (host : Host σ) :
    advance ⟨m, host⟩ elapsed = some (ticks 0 due ⟨{ m with scheduler := s }, host⟩) := by
  unfold advance
  dsimp only
  rw [if_pos running, advanced]

theorem advance_of_stopped {m : Machine} (stopped : m.running = false) (elapsed : Duration) (host : Host σ) :
    advance ⟨m, host⟩ elapsed = some (0, ⟨m, host⟩) := by
  unfold advance
  dsimp only
  rw [stopped, if_neg Bool.false_ne_true]

theorem frame_of_running {m : Machine} (running : m.running = true) {elapsed : Duration} {due : Nat}
    {s : Scheduler} (advanced : m.scheduler.advance elapsed = some (due, s)) (host : Host σ) :
    frame ⟨m, host⟩ elapsed =
      some ⟨(ticks 0 due ⟨{ m with scheduler := s }, host⟩).2,
        (ticks 0 due ⟨{ m with scheduler := s }, host⟩).1,
        some (ticks 0 due ⟨{ m with scheduler := s }, host⟩).2.machine.video⟩ := by
  rw [frame, if_pos running, advance_of_running running advanced, Option.map_some]

theorem frame_of_endless {m : Machine} (running : m.running = true) {elapsed : Duration}
    (endless : m.scheduler.advance elapsed = none) (host : Host σ) :
    frame ⟨m, host⟩ elapsed = none := by
  have passed : advance ⟨m, host⟩ elapsed = none := by
    unfold advance
    dsimp only
    rw [if_pos running, endless]
  rw [frame, if_pos running, passed, Option.map_none]

end Rig

end PocketConsole
