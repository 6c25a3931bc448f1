import PocketConsole.Proofs.Machine.Expression
import PocketConsole.Proofs.Machine.Targets

namespace PocketConsole

namespace Opcode

instance (op : Opcode) (b a : UInt8) : Decidable (op.Jumps b a) :=
  decidable_of_iff _ (op.jumps_iff b a).symm

/-- Apart from moves, what changes the program counter is a jump or goes to an address. -/
theorem leads_of_mem_targets {op : Opcode} {p : UInt8} {r : Register} (target : r ∈ op.targets p)
    (counter : r ∈ [Register.pch, .pcl]) :
    op = .mov ∧ Register.ofByte? p = some r ∨ op ∈ [goto, rtn] ∨ op.isJump = true := by
  have each : ∀ r ∈ [Register.pch, .pcl], r ∈ op.targets 0 → op ∈ [goto, rtn] ∨ op.isJump = true := by
    cases op <;> decide
  exact (mov_or_mem_targets target 0).imp_right (each r counter)

end Opcode

namespace Machine

/-- Where an operation leads that the machine carries out at its program counter: to the address of the two
topmost cells, of the return pointer or of a label, or to the next token, whose place a move may change by a byte. -/
def destination (m : Machine) (op : Opcode) (p : UInt8) : Nat :=
  let next := m.index.toNat + 1
  let moved := (fit m.wraps (m.get .xa).toNat).toNat
  match op with
  | .goto => 256 * m.second.toNat + m.top.toNat
  | .rtn => 256 * (m.get .rph).toNat + (m.get .rpl).toNat
  | .mov =>
    if Register.ofByte? p = some .pch then 256 * moved + next % 256
    else if Register.ofByte? p = some .pcl then 256 * (next / 256) + moved
    else next
  | op =>
    if op.Jumps m.second m.top then ((m.labels.get? p).map fun a => a.toUInt16.toNat).getD 0
    else next

/-- Where the program counter is after the next cycle. -/
def successor (m : Machine) : Nat :=
  let i := m.index.toNat
  if m.get .sc ≠ 0 then i
  else if 32768 ≤ i ∨ m.storage.get (2 * i) = 0 then 0
  else
    match Opcode.ofByte? (m.storage.get (2 * i)) with
    | some op => m.destination op (m.storage.get (2 * i + 1))
    | none => i + 1

theorem toNat_index (m : Machine) : m.index.toNat = 256 * (m.get .pch).toNat + (m.get .pcl).toNat :=
  Address.toNat_toUInt16 m.counter

theorem toNat_index_goto (m : Machine) (a : Address) : (m.goto a).index.toNat = a.toUInt16.toNat := by
  rw [index, counter_goto]

/-- An operation that leaves the program counter alone leads to the next token. -/
theorem destination_of_spared {m : Machine} {op : Opcode} {p : UInt8} (high : Register.pch ∉ op.targets p)
    (low : Register.pcl ∉ op.targets p) : m.destination op p = m.index.toNat + 1 := by
  cases op
  case mov =>
    rw [Opcode.targets, Option.mem_toList] at high low
    exact (if_neg high).trans (if_neg low)
  case goto | rtn | jump | jeq | jneq | jgt | jgte | jlt | jlte => exact absurd List.mem_cons_self high
  all_goals rfl

theorem setAt_of_named (m : Machine) {p : UInt8} {r : Register} (named : Register.ofByte? p = some r) (v : Int) :
    m.setAt p v = m.set r v := by
  unfold setAt
  rw [named]

/-- A move to a byte of the program counter changes that byte of the next place. -/
theorem toNat_index_perform_mov {m : Machine} (room : m.index.toNat < 32768) {p : UInt8} {r : Register}
    (named : Register.ofByte? p = some r) (counter : r ∈ [Register.pch, .pcl]) :
    (m.past.perform .mov p).index.toNat = m.destination .mov p := by
  have next := toNat_index m.past
  have bound := (m.past.get .pcl).toNat_lt
  rw [toNat_index_past rfl room] at next
  have xa : m.past.get .xa = m.get .xa := get_past m (by decide) (by decide)
  rw [perform, setAt_of_named _ named, Machine.set, wraps_past, xa, toNat_index, get_put, get_put, destination, named]
  simp only [List.mem_cons, List.not_mem_nil, or_false] at counter
  rcases counter with rfl | rfl
  · simp only [if_true, reduceCtorEq, if_false]
    omega
  · simp only [if_true, reduceCtorEq, if_false, Option.some.injEq]
    omega

theorem toNat_index_perform_goto (m : Machine) (p : UInt8) :
    (m.past.perform .goto p).index.toNat = m.destination .goto p := by
  rw [perform, toNat_index_goto, Address.toNat_toUInt16, second_past, top_past]
  rfl

theorem toNat_index_perform_rtn (m : Machine) (p : UInt8) :
    (m.past.perform .rtn p).index.toNat = m.destination .rtn p := by
  rw [perform, toNat_index_goto, returnPointer_past, Address.toNat_toUInt16]
  rfl

/-- A jump leads to its label if it is taken, and else to the next token. -/
theorem toNat_index_perform_jump {m : Machine} (room : m.index.toNat < 32768) {op : Opcode}
    (family : op.isJump = true) (p : UInt8) : (m.past.perform op p).index.toNat = m.destination op p := by
  have jumped := jumped_perform_past m family p
  have labelled : m.destination op p = if op.Jumps m.second m.top then
      ((m.labels.get? p).map fun a => a.toUInt16.toNat).getD 0 else m.index.toNat + 1 := by
    cases op
    case jump | jeq | jneq | jgt | jgte | jlt | jlte => rfl
    all_goals cases family
  rw [labelled, index]
  split
  · rename_i taken
    rw [(jumped.taken taken).1]
    cases m.labels.get? p <;> rfl
  · rename_i passed
    rw [(jumped.passed passed).1, ← counter_past]
    exact toNat_index_past rfl room

end Machine

namespace Rig

variable {σ : Type} [Store σ]

theorem toNat_index_perform_past {m : Machine} (room : m.index.toNat < 32768) (host : Host σ) (op : Opcode)
    (p : UInt8) : (perform ⟨m.past, host⟩ op p).machine.index.toNat = m.destination op p := by
  by_cases target : ∃ r ∈ [Register.pch, .pcl], r ∈ op.targets p
  · obtain ⟨r, counter, target⟩ := target
    obtain ⟨rfl, named⟩ | address | family := Opcode.leads_of_mem_targets target counter
    · exact Machine.toNat_index_perform_mov room named counter
    · simp only [List.mem_cons, List.not_mem_nil, or_false] at address
      rcases address with rfl | rfl
      · exact m.toNat_index_perform_goto p
      · exact m.toNat_index_perform_rtn p
    · rw [perform_eq_of_isJump _ family]
      exact Machine.toNat_index_perform_jump room family p
  · have high : Register.pch ∉ op.targets p := fun high => target ⟨.pch, List.mem_cons_self, high⟩
    have low : Register.pcl ∉ op.targets p := fun low => target ⟨.pcl, List.mem_cons_of_mem _ (.head _), low⟩
    rw [Machine.destination_of_spared high low, Machine.index_congr (get_perform _ high) (get_perform _ low)]
    exact Machine.toNat_index_past rfl room

/-- A cycle leaves the program counter where the machine's successor says, whatever the machine. -/
theorem index_cycle_eq_successor (m : Machine) (host : Host σ) :
    (cycle ⟨m, host⟩).machine.index.toNat = m.successor := by
  unfold Machine.successor
  by_cases awake : m.get .sc = 0
  · have executed := executes_cycle awake host
    generalize cycle ⟨m, host⟩ = after at executed ⊢
    rw [if_neg (not_not.2 awake)]
    cases executed with
    | halt empty =>
      rw [if_pos (.inr empty), Machine.toNat_index_goto]
      rfl
    | skip full unknown =>
      have room := Bank.lt_of_full full
      rw [if_neg (not_or.2 ⟨Nat.not_le.2 room, full⟩), unknown]
      exact Machine.toNat_index_past rfl room
    | operation decoded =>
      have room := Bank.lt_of_decoded decoded
      rw [if_neg (not_or.2 ⟨Nat.not_le.2 room, Bank.full_of_decoded decoded⟩), decoded]
      exact toNat_index_perform_past room host _ _
  · rw [if_pos awake, cycle_of_asleep awake, Machine.set, Machine.index_put _ (by decide)]

end Rig

end PocketConsole
