import PocketConsole.Proofs.Machine.Jump

namespace PocketConsole

/-- The registers that an operation may change, besides the step of the program counter before it. -/
def Opcode.targets (op : Opcode) (p : UInt8) : List Register :=
  match op with
  | const | push | pushr | incr | decr | add | sub | mul | div | mod | and | or | xor | not | lshft | rshft => [.si]
  | pop => [.xa, .si]
  | copy | set | get | peek | read | btn | btnd | tick | pin | recv | shade => [.xa]
  | mov => (Register.ofByte? p).toList
  | maddr => [.mph, .mpl]
  | saddr => [.sph, .spl]
  | goto | rtn => [.pch, .pcl]
  | jump => [.pch, .pcl, .rph, .rpl]
  | jeq | jneq | jgt | jgte | jlt | jlte => [.pch, .pcl, .rph, .rpl, .si]
  | sleep => [.sc]
  | _ => []

/-- A move goes where its parameter says; any other operation has the same targets whatever its parameter is. -/
theorem Opcode.mov_or_mem_targets {op : Opcode} {p : UInt8} {r : Register} (target : r ∈ op.targets p) (q : UInt8) :
    op = .mov ∧ Register.ofByte? p = some r ∨ r ∈ op.targets q := by
  cases op
  case mov => exact .inl ⟨rfl, Option.mem_toList.1 target⟩
  all_goals exact .inr target

namespace Machine

theorem get_put_of_ne (m : Machine) {r s : Register} (other : s ≠ r) (v : UInt8) : (m.put r v).get s = m.get s := by
  rw [get_put, if_neg (Ne.symm other)]

theorem get_goto (m : Machine) (a : Address) {r : Register} (other : r ∉ [Register.pch, .pcl]) :
    (m.goto a).get r = m.get r := by
  simp only [List.mem_cons, List.not_mem_nil, or_false, not_or] at other
  rw [goto, get_put_of_ne _ other.2, get_put_of_ne _ other.1]

theorem index_congr {m n : Machine} (high : n.get .pch = m.get .pch) (low : n.get .pcl = m.get .pcl) :
    n.index = m.index := by
  rw [index, index, counter, counter, high, low]

theorem index_put (m : Machine) {r : Register} (other : r ∉ [Register.pch, .pcl]) (v : UInt8) :
    (m.put r v).index = m.index := by
  simp only [List.mem_cons, List.not_mem_nil, or_false, not_or] at other
  exact index_congr (m.get_put_of_ne (Ne.symm other.1) v) (m.get_put_of_ne (Ne.symm other.2) v)

theorem get_writeIn (m : Machine) (s : Region) (offset : Nat) (data : List UInt8) (r : Register) :
    (m.writeIn s offset data).get r = m.get r := rfl

theorem get_drop (m : Machine) {r : Register} (other : r ≠ .si) : m.drop.get r = m.get r :=
  get_put_of_ne m other _

theorem get_push_of_ne (m : Machine) {r : Register} (other : r ≠ .si) (v : Int) : (m.push v).get r = m.get r :=
  get_put_of_ne m other _

theorem get_combine (m : Machine) {r : Register} (other : r ≠ .si) (o : Operator) : (m.combine o).get r = m.get r := by
  rw [combine, get_push_of_ne _ other, get_drop_drop m other]

theorem get_setAt (m : Machine) (p : UInt8) {r : Register} (other : r ∉ (Register.ofByte? p).toList) (v : Int) :
    (m.setAt p v).get r = m.get r := by
  unfold setAt
  split
  · rename_i target named
    rw [named, Option.toList_some, List.mem_singleton] at other
    exact get_put_of_ne m other _
  · rfl

theorem get_branch (m : Machine) (c : Comparison) (id : UInt8) {r : Register}
    (other : r ∉ [Register.pch, .pcl, .rph, .rpl, .si]) : (m.branch c id).get r = m.get r := by
  simp only [List.mem_cons, List.not_mem_nil, or_false, not_or] at other
  have dropped := get_drop_drop m other.2.2.2.2
  unfold branch
  split
  · exact (get_jump _ id (by simp [other])).trans dropped
  · exact dropped

theorem get_read (m : Machine) (p : UInt8) {r : Register} (other : r ≠ .xa) : (m.read p).get r = m.get r := by
  unfold read
  split
  · exact get_put_of_ne m other _
  · rfl

/-- An operation leaves every register alone that is not among its targets. -/
theorem get_perform (m : Machine) {op : Opcode} {p : UInt8} {r : Register} (spared : r ∉ op.targets p) :
    (m.perform op p).get r = m.get r := by
  have single : ∀ {s : Register}, r ∉ [s] → r ≠ s := fun other same => other (same ▸ List.mem_singleton_self _)
  cases op
  case const | push | pushr => exact get_push_of_ne m (single spared) _
  case add | sub | mul | div | mod | and | or | xor | lshft | rshft => exact get_combine m (single spared) _
  case not => exact (get_push_of_ne _ (single spared) _).trans (get_drop m (single spared))
  case pout | send | clear | draw | tone => exact get_writeIn m _ _ _ r
  case incr | decr | copy | set | get | peek | btn | btnd | tick | pin | shade | sleep =>
    exact get_put_of_ne m (single spared) _
  case pop =>
    simp only [Opcode.targets, List.mem_cons, List.not_mem_nil, or_false, not_or] at spared
    exact (get_drop _ spared.2).trans (get_put_of_ne m spared.1 _)
  case maddr | saddr =>
    simp only [Opcode.targets, List.mem_cons, List.not_mem_nil, or_false, not_or] at spared
    exact (get_put_of_ne _ spared.2 _).trans (get_put_of_ne m spared.1 _)
  case mov => exact get_setAt m p spared _
  case read => exact get_read m p (single spared)
  case recv => exact (get_writeIn _ _ _ _ r).trans (get_put_of_ne m (single spared) _)
  case goto | rtn => exact get_goto m _ spared
  case jump => exact get_jump m p spared
  case jeq | jneq | jgt | jgte | jlt | jlte => exact get_branch m _ p spared
  all_goals rfl

end Machine

namespace Rig

variable {σ : Type} [Store σ]

theorem get_perform (r : Rig σ) {op : Opcode} {p : UInt8} {s : Register} (spared : s ∉ op.targets p) :
    (r.perform op p).machine.get s = r.machine.get s := by
  by_cases save : op = .save
  · subst save
    rfl
  by_cases load : op = .load
  · subst load
    exact (Machine.get_writeIn _ _ _ _ s).trans (Machine.get_writeIn _ _ _ _ s)
  rw [perform_eq r save load]
  exact r.machine.get_perform spared

/-- A cycle leaves every register alone that is not among the targets of the operation it carries out, besides
the program counter and the sleep counter. -/
theorem get_cycle {m : Machine} {r : Register} (spared : ∀ op p, m.next? = some (op, p) → r ∉ op.targets p)
    (other : r ∉ [Register.pch, .pcl]) (still : r = .sc → m.get .sc = 0) (host : Host σ) :
    (cycle ⟨m, host⟩).machine.get r = m.get r := by
  by_cases awake : m.get .sc = 0
  · have executed := executes_cycle awake host
    generalize cycle ⟨m, host⟩ = after at executed ⊢
    cases executed with
    | halt | skip => exact m.get_goto _ other
    | operation decoded =>
      have next := Machine.next?_eq_some_iff.2 ⟨awake, decoded, rfl⟩
      exact (get_perform _ (spared _ _ next)).trans (m.get_goto _ other)
  · rw [cycle_of_asleep awake]
    exact m.get_put_of_ne (fun counter => awake (still counter)) _

end Rig

end PocketConsole
