import PocketConsole.Proofs.Machine.Frame

namespace PocketConsole

namespace Machine

/-- What the next cycle carries out, and its parameter: nothing where the machine sleeps, or stands
at an empty cell or at an unknown opcode. -/
def next? (m : Machine) : Option (Opcode × UInt8) :=
  if m.get .sc = 0 then
    (Opcode.ofByte? (m.storage.get (2 * m.index.toNat))).map fun op =>
      (op, m.storage.get (2 * m.index.toNat + 1))
  else none

/-- The machine with its program counter past the token it stands at. -/
def past (m : Machine) : Machine :=
  m.goto (.ofUInt16 (m.index + 1))

/-- Whether the next cycle writes where the memory pointer points: a poke, or a read of a block. -/
def WritesAtPointer (m : Machine) : Prop :=
  ∃ p, m.next? = some (.poke, p) ∨ m.next? = some (.read, p) ∧ p ≠ 0

theorem next?_eq_some_iff {m : Machine} {op : Opcode} {p : UInt8} :
    m.next? = some (op, p) ↔
      m.get .sc = 0 ∧ Opcode.ofByte? (m.storage.get (2 * m.index.toNat)) = some op ∧
        m.storage.get (2 * m.index.toNat + 1) = p := by
  simp only [next?, Option.ite_none_right_eq_some, Option.map_eq_some_iff, Prod.mk.injEq]
  constructor
  · rintro ⟨awake, found, decoded, rfl, parameter⟩
    exact ⟨awake, decoded, parameter⟩
  · rintro ⟨awake, decoded, parameter⟩
    exact ⟨awake, op, decoded, rfl, parameter⟩

/-- A machine that is awake carries out the token it stands at. -/
theorem next?_of_token {m : Machine} (awake : m.get .sc = 0) {op : Opcode} {p : UInt8}
    (opcode : m.storage.get (2 * m.index.toNat) = op.toByte)
    (parameter : m.storage.get (2 * m.index.toNat + 1) = p) : m.next? = some (op, p) :=
  next?_eq_some_iff.2 ⟨awake, opcode ▸ Opcode.ofByte?_toByte op, parameter⟩

theorem get_past (m : Machine) {r : Register} (high : r ≠ .pch) (low : r ≠ .pcl) :
    m.past.get r = m.get r := by
  simp [past, goto, get_put, high.symm, low.symm]

theorem counter_past (m : Machine) : m.past.counter = .ofUInt16 (m.index + 1) :=
  counter_goto m _

theorem index_past (m : Machine) : m.past.index = m.index + 1 := by
  rw [index, counter_past, Address.toUInt16_ofUInt16]

theorem top_past (m : Machine) : m.past.top = m.top := by
  simp only [top, cell, get_past m (r := .si) (by decide) (by decide)]
  rfl

theorem second_past (m : Machine) : m.past.second = m.second := by
  simp only [second, cell, get_past m (r := .si) (by decide) (by decide)]
  rfl

theorem wraps_past (m : Machine) : m.past.wraps = m.wraps :=
  congrArg isHigh (get_past m (by decide) (by decide))

theorem returnPointer_past (m : Machine) : m.past.returnPointer = m.returnPointer := by
  rw [returnPointer, get_past m (by decide) (by decide), get_past m (by decide) (by decide)]
  rfl

theorem memoryPointer_past (m : Machine) : m.past.memoryPointer = m.memoryPointer := by
  rw [memoryPointer, get_past m (by decide) (by decide), get_past m (by decide) (by decide)]
  rfl

theorem storagePointer_past (m : Machine) : m.past.storagePointer = m.storagePointer := by
  rw [storagePointer, get_past m (by decide) (by decide), get_past m (by decide) (by decide)]
  rfl

theorem pointed_past (m : Machine) (op : Opcode) (p : UInt8) : m.past.pointed op p = m.pointed op p := by
  unfold pointed
  rw [memoryPointer_past, storagePointer_past]
  rfl

/-- The next cycle writes nothing into a region through the memory pointer. -/
def Spares (m : Machine) (r : Region) : Prop :=
  ∀ op p, m.next? = some (op, p) → ∀ x, r.Contains x → ¬ (m.pointed op p).Contains x

/-- A cycle that carries out neither a poke nor a read of a block spares every region. -/
theorem spares_of_not_writesAtPointer {m : Machine} (tame : ¬ m.WritesAtPointer) (r : Region) :
    m.Spares r := by
  intro op p next x _ ⟨lower, upper⟩
  have nothing : (m.pointed op p).len = 0 := by
    refine len_pointed ?_ ?_
    · rintro rfl
      exact tame ⟨p, .inl next⟩
    · rintro rfl
      exact Classical.byContradiction fun positive => tame ⟨p, .inr ⟨next, positive⟩⟩
  rw [Region.stop, nothing] at upper
  omega

/-- The next cycle has nothing to do with a region: it neither carries out an operation of the region
nor writes there through the memory pointer. -/
structure Leaves (m : Machine) (r : Region) : Prop where
  spared : m.Spares r
  foreign : ∀ op p, m.next? = some (op, p) → op.region? ≠ some r

end Machine

namespace Rig

variable {σ : Type} [Store σ]

theorem cycle_of_next {m : Machine} {op : Opcode} {p : UInt8} (next : m.next? = some (op, p))
    (host : Host σ) : cycle ⟨m, host⟩ = perform ⟨m.past, host⟩ op p := by
  obtain ⟨awake, decoded, rfl⟩ := Machine.next?_eq_some_iff.1 next
  have full : m.storage.get (2 * m.index.toNat) ≠ 0 := by
    intro empty
    rw [empty] at decoded
    cases decoded
  simp only [cycle, awake, ne_eq, not_true_eq_false, if_false, full, decoded]
  rfl

theorem cycle_of_asleep {m : Machine} (asleep : m.get .sc ≠ 0) (host : Host σ) :
    cycle ⟨m, host⟩ = ⟨m.set .sc ((m.get .sc).toNat - 1), host⟩ := by
  simp only [cycle, asleep, ne_eq, not_false_eq_true, if_true]

theorem cycle_of_empty {m : Machine} (awake : m.get .sc = 0) (empty : m.storage.get (2 * m.index.toNat) = 0)
    (host : Host σ) : cycle ⟨m, host⟩ = ⟨m.goto .origin, host.note (.halted m.index)⟩ := by
  simp only [cycle, awake, ne_eq, not_true_eq_false, if_false, empty, if_true]

theorem cycle_of_unknown {m : Machine} (awake : m.get .sc = 0) (full : m.storage.get (2 * m.index.toNat) ≠ 0)
    (unknown : Opcode.ofByte? (m.storage.get (2 * m.index.toNat)) = none) (host : Host σ) :
    cycle ⟨m, host⟩ = ⟨m.past, host⟩ := by
  simp only [cycle, awake, ne_eq, not_true_eq_false, if_false, full, unknown]
  rfl

/-- What comes of a rig that carries out the cell at a place: an empty cell leads to the origin, an unknown
operation is passed over. -/
inductive Executes (r : Rig σ) (i : UInt16) : Rig σ → Prop
  | halt : r.machine.storage.get (2 * i.toNat) = 0 →
      Executes r i ⟨r.machine.goto .origin, r.host.note (.halted i)⟩
  | skip : r.machine.storage.get (2 * i.toNat) ≠ 0 → Opcode.ofByte? (r.machine.storage.get (2 * i.toNat)) = none →
      Executes r i ⟨r.machine.goto (.ofUInt16 (i + 1)), r.host⟩
  | operation {op : Opcode} : Opcode.ofByte? (r.machine.storage.get (2 * i.toNat)) = some op →
      Executes r i
        (perform ⟨r.machine.goto (.ofUInt16 (i + 1)), r.host⟩ op (r.machine.storage.get (2 * i.toNat + 1)))

theorem executes_cycle {m : Machine} (awake : m.get .sc = 0) (host : Host σ) :
    Executes ⟨m, host⟩ m.index (cycle ⟨m, host⟩) := by
  cases decoded : Opcode.ofByte? (m.storage.get (2 * m.index.toNat)) with
  | some op =>
    rw [cycle_of_next (Machine.next?_eq_some_iff.2 ⟨awake, decoded, rfl⟩)]
    exact .operation decoded
  | none =>
    by_cases empty : m.storage.get (2 * m.index.toNat) = 0
    · rw [cycle_of_empty awake empty]
      exact .halt empty
    · rw [cycle_of_unknown awake empty decoded]
      exact .skip empty decoded

/-- A cycle that carries nothing out moves registers at most. -/
theorem cycle_of_next_none {m : Machine} (next : m.next? = none) (host : Host σ) :
    ∃ registers, (cycle ⟨m, host⟩).machine = { m with registers := registers } ∧
      (cycle ⟨m, host⟩).host.store = host.store := by
  by_cases awake : m.get .sc = 0
  · have unknown : Opcode.ofByte? (m.storage.get (2 * m.index.toNat)) = none := by
      simpa only [Machine.next?, awake, if_true, Option.map_eq_none_iff] using next
    by_cases empty : m.storage.get (2 * m.index.toNat) = 0
    · rw [cycle_of_empty awake empty]
      exact ⟨_, rfl, rfl⟩
    · rw [cycle_of_unknown awake empty unknown]
      exact ⟨_, rfl, rfl⟩
  · rw [cycle_of_asleep awake]
    exact ⟨_, rfl, rfl⟩

/-- All operations but the two on saves are carried out by the machine alone. -/
theorem perform_eq (r : Rig σ) {op : Opcode} (noSave : op ≠ .save) (noLoad : op ≠ .load) (p : UInt8) :
    r.perform op p =
      ⟨r.machine.perform op p, r.host.noteAll (r.machine.report op p).toList⟩ := by
  cases op
  case save => exact absurd rfl noSave
  case load => exact absurd rfl noLoad
  all_goals rfl

theorem machine_save (r : Rig σ) : r.save.machine = r.machine := rfl

theorem store_restore (r : Rig σ) : r.restore.host.store = r.host.store :=
  SaveRecord.store_read r.host

/-- Restoring a save leaves every address outside of the save window alone. -/
theorem get_memory_restore (r : Rig σ) {x : Nat} (outside : ¬ Region.saveData.Contains x) :
    r.restore.machine.memory.get x = r.machine.memory.get x := by
  simp only [restore, Machine.memory_writeIn, Bank.get_writeIn_of_outside _ outside]

theorem alike_perform (r : Rig σ) (op : Opcode) (p : UInt8) :
    r.machine.Alike (r.perform op p).machine := by
  by_cases save : op = .save
  · subst save
    exact Machine.Alike.refl _
  by_cases load : op = .load
  · subst load
    exact (Machine.Alike.writeIn _ _ _ _).trans (Machine.Alike.writeIn _ _ _ _)
  rw [perform_eq r save load]
  exact Machine.Alike.perform _ op p

theorem alike_cycle (r : Rig σ) : r.machine.Alike r.cycle.machine := by
  obtain ⟨m, host⟩ := r
  cases next : m.next? with
  | none =>
    obtain ⟨registers, after, -⟩ := cycle_of_next_none next host
    rw [after]
    exact ⟨rfl, rfl, rfl, rfl, rfl⟩
  | some carried =>
    rw [cycle_of_next next]
    exact (Machine.Alike.goto m _).trans (alike_perform ⟨m.past, host⟩ _ _)

/-- A cycle leaves every address alone that is outside of the region of its operation and that it does
not write through the memory pointer. -/
theorem get_memory_cycle {m : Machine} {x : Nat}
    (unpointed : ∀ op p, m.next? = some (op, p) → ¬ (m.pointed op p).Contains x)
    (outside : ∀ op p, m.next? = some (op, p) → ∀ r, op.region? = some r → ¬ r.Contains x)
    (host : Host σ) : (cycle ⟨m, host⟩).machine.memory.get x = m.memory.get x := by
  cases next : m.next? with
  | none =>
    obtain ⟨registers, after, -⟩ := cycle_of_next_none next host
    rw [after]
  | some carried =>
    obtain ⟨op, p⟩ := carried
    have away := outside op p next
    rw [cycle_of_next next]
    by_cases save : op = .save
    · subst save
      rfl
    by_cases load : op = .load
    · subst load
      exact get_memory_restore _ (away _ rfl)
    rw [perform_eq _ save load]
    refine Machine.get_memory_perform m.past ?_ away
    rw [Machine.pointed_past]
    exact unpointed op p next

/-- A cycle leaves a region of memory alone that belongs to another operation than the one it carries
out. -/
theorem sameIn_cycle {m : Machine} {r : Region} (named : r ∈ Region.all) (leaves : m.Leaves r)
    (host : Host σ) : m.SameIn (cycle ⟨m, host⟩).machine r := by
  intro x inside
  refine get_memory_cycle (fun op p next => leaves.spared op p next x inside) ?_ host
  intro op p next own region
  have other : r ≠ own := by
    rintro rfl
    exact leaves.foreign op p next region
  exact (Region.apart_of_mem_all r named own (Opcode.mem_all_of_region? region) other).not_contains inside

end Rig

end PocketConsole
