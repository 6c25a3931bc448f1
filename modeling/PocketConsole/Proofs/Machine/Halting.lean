import PocketConsole.Proofs.Machine.Contents
import PocketConsole.Proofs.Machine.Continuation
import PocketConsole.Proofs.Machine.Sleep
import PocketConsole.Proofs.Machine.Targets
import PocketConsole.Proofs.Machine.Time

namespace PocketConsole

/-- In storage, no empty cell follows a token that may put the machine to sleep. -/
def Bank.Padded (s : Storage) : Prop :=
  ∀ (i : UInt16) (op : Opcode), Opcode.ofByte? (s.get (2 * i.toNat)) = some op →
    Register.sc ∈ op.targets (s.get (2 * i.toNat + 1)) → s.get (2 * (i + 1).toNat) ≠ 0

theorem Opcode.counter_not_mem_targets {op : Opcode} {p : UInt8} (target : Register.sc ∈ op.targets p) :
    Register.pch ∉ op.targets p ∧ Register.pcl ∉ op.targets p := by
  cases op
  case sleep => simp only [targets, List.mem_singleton, reduceCtorEq, not_false_eq_true, and_self]
  case mov =>
    rw [targets, Option.mem_toList] at target
    simp only [targets, Option.mem_toList, target, reduceCtorEq, Option.some.injEq, not_false_eq_true, and_self]
  all_goals
    simp only [targets, List.mem_cons, List.not_mem_nil, reduceCtorEq, or_self] at target

namespace Rig

variable {σ : Type}

/-- The program counter is at an empty cell, or past storage. -/
def AtEmptyCell (r : Rig σ) : Prop :=
  32768 ≤ r.machine.index.toNat ∨ r.machine.storage.get (2 * r.machine.index.toNat) = 0

/-- The next cycle halts. -/
def Halts (r : Rig σ) : Prop :=
  r.machine.get .sc = 0 ∧ r.AtEmptyCell

/-- The next cycle stalls where it would halt if the machine were awake. -/
def Dozes (r : Rig σ) : Prop :=
  r.machine.get .sc ≠ 0 ∧ r.AtEmptyCell

theorem atEmptyCell_iff {r : Rig σ} : r.AtEmptyCell ↔ r.opcode = 0 := by
  constructor
  · rintro (past | empty)
    · exact r.machine.storage.get_of_le (by omega)
    · exact empty
  · exact .inr

theorem get_countTick (r : Rig σ) (s : Register) : r.countTick.machine.get s = r.machine.get s :=
  congrArg (Registers.get · s) (registers_countTick r)

theorem index_countTick (r : Rig σ) : r.countTick.machine.index = r.machine.index :=
  Machine.index_congr (get_countTick r .pch) (get_countTick r .pcl)

theorem halts_or_dozes {r : Rig σ} (empty : r.AtEmptyCell) : r.Halts ∨ r.Dozes := by
  by_cases awake : r.machine.get .sc = 0
  · exact .inl ⟨awake, empty⟩
  · exact .inr ⟨awake, empty⟩

variable [Store σ]

theorem cycle_of_halts {r : Rig σ} (halts : r.Halts) :
    r.cycle = ⟨r.machine.goto .origin, r.host.note (.halted r.machine.index)⟩ :=
  cycle_of_empty halts.1 (atEmptyCell_iff.1 halts.2) r.host

theorem cycles_of_empty {r : Rig σ} (empty : r.AtEmptyCell) (n : Nat) : cycles (n + 1) r = (1, r.cycle) := by
  rw [cycles, if_pos (atEmptyCell_iff.1 empty)]

theorem cycles_of_full {r : Rig σ} (full : ¬ r.AtEmptyCell) (n : Nat) :
    cycles (n + 1) r = ((cycles n r.cycle).1 + 1, (cycles n r.cycle).2) := by
  rw [cycles, if_neg (mt atEmptyCell_iff.2 full)]

/-! ### The end of a tick -/

/-- How a batch of cycles ends, and after how many of them: it is complete, or its last cycle is the first one
at an empty cell, and halts there or stalls. -/
inductive Ended (n : Nat) (r : Rig σ) : Nat × Rig σ → Prop
  | complete : (∀ k < n, ¬ (cycle^[k] r).AtEmptyCell) → Ended n r (n, cycle^[n] r)
  | halted {k : Nat} : k < n → (∀ j < k, ¬ (cycle^[j] r).AtEmptyCell) → (cycle^[k] r).Halts →
      Ended n r (k + 1, cycle^[k + 1] r)
  | dozed {k : Nat} : k < n → (∀ j < k, ¬ (cycle^[j] r).AtEmptyCell) → (cycle^[k] r).Dozes →
      Ended n r (k + 1, cycle^[k + 1] r)

namespace Ended

theorem of_empty {r : Rig σ} (empty : r.AtEmptyCell) (n : Nat) : Ended (n + 1) r (1, r.cycle) := by
  rcases halts_or_dozes empty with halts | dozes
  · exact .halted (k := 0) n.succ_pos (fun _ none => absurd none (Nat.not_lt_zero _)) halts
  · exact .dozed (k := 0) n.succ_pos (fun _ none => absurd none (Nat.not_lt_zero _)) dozes

theorem succ {n done : Nat} {r after : Rig σ} (full : ¬ r.AtEmptyCell) (ended : Ended n r.cycle (done, after)) :
    Ended (n + 1) r (done + 1, after) := by
  have extended {k : Nat} (before : ∀ j < k, ¬ (cycle^[j] r.cycle).AtEmptyCell) :
      ∀ j < k + 1, ¬ (cycle^[j] r).AtEmptyCell
    | 0, _ => full
    | j + 1, bound => before j (Nat.lt_of_succ_lt_succ bound)
  cases ended with
  | complete before => exact .complete (extended before)
  | halted bound before halts => exact .halted (Nat.succ_lt_succ bound) (extended before) halts
  | dozed bound before dozes => exact .dozed (Nat.succ_lt_succ bound) (extended before) dozes

/-- The first cycle at an empty cell is the last of the batch. -/
theorem fst_eq_succ {n : Nat} {r : Rig σ} {e : Nat × Rig σ} (ended : Ended n r e) {k : Nat} (bound : k < n)
    (before : ∀ j < k, ¬ (cycle^[j] r).AtEmptyCell) (empty : (cycle^[k] r).AtEmptyCell) : e.1 = k + 1 := by
  have first {i : Nat} (full : ∀ j < i, ¬ (cycle^[j] r).AtEmptyCell) (found : (cycle^[i] r).AtEmptyCell) : i = k := by
    have notAfter : ¬ k < i := fun earlier => full k earlier empty
    have notBefore : ¬ i < k := fun earlier => before i earlier found
    omega
  cases ended with
  | complete full => exact absurd empty (full k bound)
  | halted _ full halts => exact congrArg (· + 1) (first full halts.2)
  | dozed _ full dozes => exact congrArg (· + 1) (first full dozes.2)

end Ended

theorem ended_cycles (n : Nat) (r : Rig σ) : Ended n r (cycles n r) := by
  induction n generalizing r with
  | zero => exact .complete fun _ none => absurd none (Nat.not_lt_zero _)
  | succ n ih =>
    by_cases empty : r.AtEmptyCell
    · rw [cycles_of_empty empty]
      exact .of_empty empty n
    · rw [cycles_of_full empty]
      exact (ih r.cycle).succ empty

theorem ended_tick (r : Rig σ) : Ended cyclesPerTick r.countTick r.tick :=
  ended_cycles cyclesPerTick r.countTick

/-- The next tick takes all its cycles, unless one of them halts: this is the last one then, and leaves the program
counter at the origin. -/
def EndsAtHalt (r : Rig σ) : Prop :=
  (∀ k < cyclesPerTick, ¬ (cycle^[k] r.countTick).Halts) ∧
      r.tick = (cyclesPerTick, cycle^[cyclesPerTick] r.countTick) ∨
    ∃ k < cyclesPerTick, (∀ j < k, ¬ (cycle^[j] r.countTick).Halts) ∧ (cycle^[k] r.countTick).Halts ∧
      r.tick = (k + 1, cycle^[k + 1] r.countTick) ∧ r.tick.2.machine.counter = .origin

theorem endsAtHalt_of_not_dozes {r : Rig σ} (wakeful : ∀ k, k + 1 < cyclesPerTick →
    (∀ j < k, ¬ (cycle^[j] r.countTick).AtEmptyCell) → ¬ (cycle^[k] r.countTick).Dozes) : r.EndsAtHalt := by
  have ended := ended_tick r
  unfold EndsAtHalt
  generalize r.tick = e at ended ⊢
  cases ended with
  | complete full => exact .inl ⟨fun k bound halts => full k bound halts.2, rfl⟩
  | @halted k bound full halts =>
    have origin : (cycle^[k + 1] r.countTick).machine.counter = .origin := by
      rw [Function.iterate_succ_apply', cycle_of_halts halts]
      exact Machine.counter_goto _ _
    exact .inr ⟨k, bound, fun j earlier halted => full j earlier halted.2, halts, rfl, origin⟩
  | @dozed k bound full dozes =>
    have last : k + 1 = cyclesPerTick := by
      have notBefore : ¬ k + 1 < cyclesPerTick := fun before => wakeful k before full dozes
      omega
    refine .inl ⟨fun j before halts => ?_, by rw [last]⟩
    obtain earlier | rfl : j < k ∨ j = k := by omega
    · exact full j earlier halts.2
    · exact dozes.1 halts.1

theorem not_endsAtHalt_of_dozes {r : Rig σ} {k : Nat} (bound : k + 1 < cyclesPerTick)
    (before : ∀ j < k, ¬ (cycle^[j] r.countTick).AtEmptyCell) (dozes : (cycle^[k] r.countTick).Dozes) :
    r.tick.1 = k + 1 ∧ ¬ r.EndsAtHalt := by
  have cut : r.tick.1 = k + 1 := (ended_tick r).fst_eq_succ (Nat.lt_of_succ_lt bound) before dozes.2
  refine ⟨cut, ?_⟩
  rintro (⟨-, complete⟩ | ⟨i, -, -, halts, ran, -⟩)
  · rw [complete] at cut
    exact Nat.ne_of_gt bound cut
  · rw [ran] at cut
    obtain rfl : i = k := Nat.succ.inj cut
    exact dozes.1 halts.1

/-- A tick ends early at a halt only, but for one case: a cycle that stalls at an empty cell ends it as well, if it is
the first one at an empty cell. That makes a difference unless it is the last cycle of the tick anyway. -/
theorem endsAtHalt_iff (r : Rig σ) :
    r.EndsAtHalt ↔ ∀ k, k + 1 < cyclesPerTick → (∀ j < k, ¬ (cycle^[j] r.countTick).AtEmptyCell) →
      ¬ (cycle^[k] r.countTick).Dozes :=
  ⟨fun ends _ bound before dozes => (not_endsAtHalt_of_dozes bound before dozes).2 ends, endsAtHalt_of_not_dozes⟩

/-- A machine that falls asleep in front of an empty cell spends two cycles on the tick, and halts in neither. -/
theorem not_endsAtHalt_of_sleep {r : Rig σ} {n : UInt8} (next : r.machine.next? = some (.sleep, n))
    (long : r.machine.stall n ≠ 0) (empty : r.machine.storage.get (2 * (r.machine.index + 1).toNat) = 0) :
    r.tick.1 = 2 ∧ ¬ r.EndsAtHalt := by
  have storage := (alike_countTick r).storage
  have started : r.countTick.machine.next? = some (.sleep, n) :=
    (Machine.next?_congr storage (registers_countTick r)).trans next
  have full : ¬ r.countTick.AtEmptyCell := by
    have decoded := (Machine.next?_eq_some_iff.1 started).2.1
    rw [atEmptyCell_iff, opcode]
    intro none
    rw [none] at decoded
    cases decoded
  have slept := cycle_of_sleep started r.countTick.host
  have asleep : r.countTick.cycle.machine.get .sc ≠ 0 := by
    rw [slept, Machine.get_put, if_pos rfl]
    intro awake
    have length := r.countTick.machine.toNat_fit_eq_stall n
    rw [awake, Machine.stall, Machine.wraps, get_countTick] at length
    exact long length.symm
  have there : r.countTick.cycle.AtEmptyCell := by
    have moved : r.countTick.cycle.machine.index = r.machine.index + 1 := by
      rw [slept, Machine.index_put _ (by decide), Machine.index_past, index_countTick]
    have kept := (alike_cycle r.countTick).storage
    rw [atEmptyCell_iff, opcode, moved, kept, storage, empty]
  have before : ∀ j < 1, ¬ (cycle^[j] r.countTick).AtEmptyCell := by
    intro j first
    obtain rfl := Nat.lt_one_iff.1 first
    exact full
  exact not_endsAtHalt_of_dozes (k := 1) (by decide) before ⟨asleep, there⟩

/-- The shortest program that does so. -/
theorem not_endsAtHalt_of_nap :
    let p : Program := { name := "nap", code := ⟨[.ofOpcode .sleep 3], .empty⟩ }
    ∀ host : Host Shelf, (tick ⟨.ofProgram p, host⟩).1 = 2 ∧ ¬ EndsAtHalt ⟨.ofProgram p, host⟩ := by
  intro p host
  have first : (Machine.ofProgram p).index.toNat = 0 := by decide
  have second : ((Machine.ofProgram p).index + 1).toNat = 1 := by decide
  have held : (Machine.ofProgram p).storage.Holds (Machine.ofProgram p).index.toNat [.ofOpcode .sleep 3] := by
    rw [first]
    exact Machine.holds_ofProgram (p := p) (by decide)
  have next : (Machine.ofProgram p).next? = some (.sleep, 3) :=
    Machine.next?_of_token (Machine.get_ofProgram p .sc) held.head.1 held.head.2
  have long : (Machine.ofProgram p).stall 3 ≠ 0 := by decide
  refine not_endsAtHalt_of_sleep next long ?_
  rw [second, Machine.get_storage_ofProgram p (by decide)]
  rfl

/-! ### Machines that never stall at an empty cell -/

/-- The machine does not stall at an empty cell, and no token of its program puts it to sleep in front of one. -/
structure Rested (r : Rig σ) : Prop where
  padded : r.machine.storage.Padded
  wakeful : ¬ r.Dozes

namespace Rested

variable {r : Rig σ}

omit [Store σ] in
theorem ofProgram {p : Program} (padded : (Machine.ofProgram p).storage.Padded) (host : Host σ) :
    Rested ⟨.ofProgram p, host⟩ :=
  ⟨padded, fun dozes => dozes.1 (Machine.get_ofProgram p .sc)⟩

theorem cycle (rested : r.Rested) : r.cycle.Rested := by
  obtain ⟨m, host⟩ := r
  have storage : (Rig.cycle ⟨m, host⟩).machine.storage = m.storage := (alike_cycle ⟨m, host⟩).storage
  refine ⟨storage ▸ rested.padded, fun dozes => ?_⟩
  by_cases awake : m.get .sc = 0
  -- only an operation that targets the sleep counter puts the machine to sleep, and it leads to the next cell
  · by_cases lulled : ∃ op p, m.next? = some (op, p) ∧ Register.sc ∈ op.targets p
    · obtain ⟨op, p, next, target⟩ := lulled
      obtain ⟨-, decoded, rfl⟩ := Machine.next?_eq_some_iff.1 next
      have elsewhere := Opcode.counter_not_mem_targets target
      have index : (Rig.cycle ⟨m, host⟩).machine.index = m.index + 1 := by
        rw [cycle_of_next next, ← Machine.index_past]
        exact Machine.index_congr (get_perform _ elsewhere.1) (get_perform _ elsewhere.2)
      have empty := atEmptyCell_iff.1 dozes.2
      rw [opcode, index, storage] at empty
      exact rested.padded m.index op decoded target empty
    · have still := get_cycle (r := .sc) (fun op p next target => lulled ⟨op, p, next, target⟩) (by decide)
        (fun _ => awake) host
      exact dozes.1 (still.trans awake)
  · rw [cycle_of_asleep awake] at dozes
    have index : (m.set .sc ((m.get .sc).toNat - 1)).index = m.index := m.index_put (by decide) _
    have empty := atEmptyCell_iff.1 dozes.2
    rw [opcode, index] at empty
    exact rested.wakeful ⟨awake, atEmptyCell_iff.2 empty⟩

theorem iterate (rested : r.Rested) (n : Nat) : (Rig.cycle^[n] r).Rested := by
  induction n generalizing r with
  | zero => exact rested
  | succ n ih => exact ih rested.cycle

omit [Store σ] in
theorem countTick (rested : r.Rested) : r.countTick.Rested := by
  have storage := (alike_countTick r).storage
  refine ⟨storage ▸ rested.padded, fun dozes => rested.wakeful ⟨get_countTick r .sc ▸ dozes.1, ?_⟩⟩
  have empty := atEmptyCell_iff.1 dozes.2
  rw [opcode, storage, index_countTick] at empty
  exact atEmptyCell_iff.2 empty

theorem tick (rested : r.Rested) : r.tick.2.Rested := by
  rw [← iterate_cycle_eq_tick]
  exact rested.countTick.iterate _

theorem iterate_tick (rested : r.Rested) (n : Nat) : ((fun r => (Rig.tick r).2)^[n] r).Rested := by
  induction n generalizing r with
  | zero => exact rested
  | succ n ih => exact ih rested.tick

theorem endsAtHalt (rested : r.Rested) : r.EndsAtHalt :=
  endsAtHalt_of_not_dozes fun k _ _ => (rested.countTick.iterate k).wakeful

end Rested

/-- A program in which a token follows wherever the machine may fall asleep ends its ticks early at halts only. -/
theorem endsAtHalt_of_padded {p : Program} (padded : (Machine.ofProgram p).storage.Padded) (host : Host σ) (n : Nat) :
    EndsAtHalt ((fun r => (tick r).2)^[n] ⟨.ofProgram p, host⟩) :=
  ((Rested.ofProgram padded host).iterate_tick n).endsAtHalt

end Rig

end PocketConsole
