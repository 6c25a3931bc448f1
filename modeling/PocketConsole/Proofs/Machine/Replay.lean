import PocketConsole.Proofs.Machine.Lockstep

namespace PocketConsole

namespace Machine

/-- The machine at another point of time: it may run or not, and have time left over. -/
def timed (m : Machine) (running : Bool) (s : Scheduler) : Machine :=
  { m with running := running, scheduler := s }

variable {m : Machine} {running : Bool} {s : Scheduler}

theorem writeIn_timed (r : Region) (offset : Nat) (data : List UInt8) :
    (m.timed running s).writeIn r offset data = (m.writeIn r offset data).timed running s := rfl

theorem setAt_timed (n : UInt8) (v : Int) : (m.timed running s).setAt n v = (m.setAt n v).timed running s := by
  unfold setAt
  split <;> rfl

theorem branch_timed (c : Comparison) (id : UInt8) :
    (m.timed running s).branch c id = (m.branch c id).timed running s := by
  unfold branch
  rw [apply_ite (timed · running s)]
  rfl

theorem read_timed (len : UInt8) : (m.timed running s).read len = (m.read len).timed running s := by
  unfold read
  split <;> rfl

/-- No operation looks at the time. -/
theorem perform_timed (op : Opcode) (p : UInt8) :
    (m.timed running s).perform op p = (m.perform op p).timed running s := by
  cases op
  case mov => exact setAt_timed p _
  case read => exact read_timed p
  case jeq | jneq | jgt | jgte | jlt | jlte => exact branch_timed _ p
  case clear => exact writeIn_timed _ _ _
  all_goals rfl

theorem reset_eq_of_later {p : Program} (later : (ofProgram p).Later m) :
    m.reset = (ofProgram p).timed m.running m.scheduler := by
  obtain ⟨storage, name, labels⟩ := later.sameProgram
  simp only [reset, timed, storage, name, labels]
  rfl

end Machine

namespace Rig

variable {σ τ : Type} [Store σ] [Store τ]

/-- The rig with its machine at another point of time. -/
def timed (running : Bool) (s : Scheduler) (r : Rig σ) : Rig σ :=
  { r with machine := r.machine.timed running s }

theorem perform_timed (running : Bool) (s : Scheduler) (r : Rig σ) (op : Opcode) (p : UInt8) :
    (r.timed running s).perform op p = (r.perform op p).timed running s := by
  by_cases save : op = .save
  · subst save
    rfl
  by_cases load : op = .load
  · subst load
    simp only [perform, restore, timed, Machine.writeIn_timed]
    rfl
  rw [perform_eq _ save load, perform_eq _ save load, timed, Machine.perform_timed]
  rfl

/-- No cycle looks at the time. -/
theorem cycle_timed (running : Bool) (s : Scheduler) (r : Rig σ) :
    (r.timed running s).cycle = r.cycle.timed running s := by
  obtain ⟨m, host⟩ := r
  by_cases awake : m.get .sc = 0
  · by_cases empty : m.storage.get (2 * m.index.toNat) = 0
    · rw [timed, cycle_of_empty awake empty, cycle_of_empty (m := m.timed running s) awake empty]
      rfl
    · cases decoded : Opcode.ofByte? (m.storage.get (2 * m.index.toNat)) with
      | none =>
        rw [timed, cycle_of_unknown awake empty decoded,
          cycle_of_unknown (m := m.timed running s) awake empty decoded]
        rfl
      | some op =>
        have next := Machine.next?_eq_some_iff.2 ⟨awake, decoded, rfl⟩
        rw [timed, cycle_of_next next, cycle_of_next (m := m.timed running s) next]
        exact perform_timed running s ⟨m.past, host⟩ op _
  · rw [timed, cycle_of_asleep awake, cycle_of_asleep (m := m.timed running s) awake]
    rfl

theorem iterate_cycle_timed (running : Bool) (s : Scheduler) (n : Nat) (r : Rig σ) :
    cycle^[n] (r.timed running s) = (cycle^[n] r).timed running s := by
  induction n generalizing r with
  | zero => rfl
  | succ n ih =>
    rw [Function.iterate_succ_apply, cycle_timed, ih]
    rfl

end Rig

namespace Machine

/-- Whatever is done to a machine short of loading a program, it keeps its program, and a reset takes it back
to where it was right after the load: cycles from there on stores that agree go through the same. -/
theorem replay_of_reset {p : Program} {m : Machine} (later : (ofProgram p).Later m) :
    (m.storage = (ofProgram p).storage ∧ m.labels = p.code.labels ∧ m.name = p.name) ∧
      m.reset.registers = (ofProgram p).registers ∧ m.reset.memory = (ofProgram p).memory ∧
      ∀ {σ τ : Type} [Store σ] [Store τ] (g : Host σ) (h : Host τ), SaveRecord.Agree g.store h.store →
        ∀ n, (Rig.cycle^[n] ⟨m.reset, g⟩).opcode = (Rig.cycle^[n] ⟨ofProgram p, h⟩).opcode ∧
          (Rig.cycle^[n] ⟨m.reset, g⟩).machine.registers =
            (Rig.cycle^[n] ⟨ofProgram p, h⟩).machine.registers ∧
          (Rig.cycle^[n] ⟨m.reset, g⟩).machine.memory = (Rig.cycle^[n] ⟨ofProgram p, h⟩).machine.memory ∧
          SaveRecord.Agree (Rig.cycle^[n] ⟨m.reset, g⟩).host.store (Rig.cycle^[n] ⟨ofProgram p, h⟩).host.store := by
  have same := later.sameProgram
  refine ⟨⟨same.storage, same.labels, same.name⟩, rfl, rfl, fun g h agree n => ?_⟩
  have start : (⟨m.reset, g⟩ : Rig _) = Rig.timed m.running m.scheduler ⟨ofProgram p, g⟩ := by
    rw [reset_eq_of_later later]
    rfl
  have twins : Rig.Twin ⟨ofProgram p, g⟩ ⟨ofProgram p, h⟩ := ⟨rfl, agree⟩
  obtain ⟨machine, store⟩ := twins.iterate n
  rw [start, Rig.iterate_cycle_timed, Rig.opcode, Rig.opcode, machine]
  exact ⟨rfl, rfl, rfl, store⟩

/-- A program that has pushed, on a machine that has been written to and paused since, starts over after a
reset. -/
theorem replay_of_reset_after_use :
    let p : Program := { name := "count", code := ⟨[.ofOpcode .push 3, .ofOpcode .save 0], .empty⟩ }
    let host : Host Shelf := ⟨.empty, #[]⟩
    let used := (Rig.cycle ⟨ofProgram p, host⟩).machine
    let m := (({ used with memory := used.memory.set 600 9 }).set .wv 1).pause
    (ofProgram p).Later m ∧ m.storage = (ofProgram p).storage ∧ m.reset.registers = (ofProgram p).registers ∧
      (Rig.cycle^[2] ⟨m.reset, host⟩).machine.memory = (Rig.cycle^[2] ⟨ofProgram p, host⟩).machine.memory := by
  intro p host used m
  have cycled : (ofProgram p).Later used := .cycle host .start
  have written := Later.write (used.memory.set 600 9) cycled
  have later : (ofProgram p).Later m := .pause (.set .wv 1 written)
  obtain ⟨⟨storage, -, -⟩, registers, -, again⟩ := replay_of_reset later
  exact ⟨later, storage, registers, (again host host (.refl _) 2).2.2.1⟩

end Machine

end PocketConsole
