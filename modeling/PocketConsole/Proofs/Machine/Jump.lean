import PocketConsole.Proofs.Machine.Cycle

namespace PocketConsole

/-- When a jump is taken, of the second cell `b` and the top cell `a`. -/
def Opcode.Jumps : Opcode → UInt8 → UInt8 → Prop
  | jump, _, _ => True
  | jeq, b, a => b = a
  | jneq, b, a => b ≠ a
  | jgt, b, a => b > a
  | jgte, b, a => b ≥ a
  | jlt, b, a => b < a
  | jlte, b, a => b ≤ a
  | _, _, _ => False

namespace Opcode

theorem eq_jump_or_comparison {op : Opcode} (family : op.isJump = true) :
    op = .jump ∨ ∃ c, op.comparison? = some c := by
  cases op
  case jump => exact .inl rfl
  case jeq | jneq | jgt | jgte | jlt | jlte => exact .inr ⟨_, rfl⟩
  all_goals cases family

theorem jumps_iff_holds {op : Opcode} {c : Comparison} (conditional : op.comparison? = some c)
    (b a : UInt8) : op.Jumps b a ↔ c.holds b a = true := by
  cases op
  case jeq | jneq | jgt | jgte | jlt | jlte =>
    cases conditional
    simp [Jumps, Comparison.holds]
  all_goals cases conditional

theorem jumps_iff (op : Opcode) (b a : UInt8) :
    op.Jumps b a ↔ op.isJump = true ∧ ∀ c ∈ op.comparison?, c.holds b a = true := by
  cases op
  case jump => exact ⟨fun _ => ⟨rfl, fun _ none => nomatch none⟩, fun _ => trivial⟩
  case jeq | jneq | jgt | jgte | jlt | jlte =>
    rw [jumps_iff_holds rfl]
    exact ⟨fun holds => ⟨rfl, fun c same => Option.mem_some.1 same ▸ holds⟩, fun jumps => jumps.2 _ rfl⟩
  all_goals exact ⟨False.elim, fun jumps => nomatch jumps.1⟩

end Opcode

namespace Machine

theorem drop_drop (m : Machine) :
    m.drop.drop = (m.put .si (m.get .si - 1)).put .si (m.get .si - 2) := by
  have two : m.get .si - 1 - 1 = m.get .si - 2 := by
    apply UInt8.toNat_inj.1
    have bound := (m.get .si).toNat_lt
    simp only [UInt8.toNat_sub, UInt8.reduceToNat]
    omega
  simp only [drop, lower, get_put, if_true, two]

theorem get_si_drop_drop (m : Machine) : m.drop.drop.get .si = m.get .si - 2 := by
  rw [drop_drop, get_put, if_pos rfl]

theorem get_drop_drop (m : Machine) {r : Register} (other : r ≠ .si) :
    m.drop.drop.get r = m.get r := by
  rw [drop_drop, get_put, if_neg other.symm, get_put, if_neg other.symm]

theorem perform_comparison (m : Machine) {op : Opcode} {c : Comparison}
    (conditional : op.comparison? = some c) (p : UInt8) : m.perform op p = m.branch c p := by
  cases op
  case jeq | jneq | jgt | jgte | jlt | jlte =>
    cases conditional
    rfl
  all_goals cases conditional

theorem counter_jump (m : Machine) (id : UInt8) :
    (m.jump id).counter = (m.labels.get? id).getD .origin :=
  counter_goto _ _

theorem returnPointer_jump (m : Machine) (id : UInt8) : (m.jump id).returnPointer = m.counter := by
  simp [returnPointer, jump, goto, get_put]

theorem get_jump (m : Machine) (id : UInt8) {r : Register}
    (other : r ∉ [Register.pch, .pcl, .rph, .rpl]) : (m.jump id).get r = m.get r := by
  simp only [List.mem_cons, List.not_mem_nil, or_false, not_or] at other
  obtain ⟨a, b, c, d⟩ := other
  simp [jump, goto, get_put, Ne.symm a, Ne.symm b, Ne.symm c, Ne.symm d]

/-- How a jump with a parameter leads from one machine to the next. -/
structure Jumped (op : Opcode) (p : UInt8) (m n : Machine) : Prop where
  taken : op.Jumps m.second m.top →
    n.counter = (m.labels.get? p).getD .origin ∧ n.returnPointer = .ofUInt16 (m.index + 1)
  passed : ¬ op.Jumps m.second m.top →
    n.counter = .ofUInt16 (m.index + 1) ∧ n.returnPointer = m.returnPointer
  stack : n.get .si = if op = .jump then m.get .si else m.get .si - 2
  registers : ∀ r, r ∉ [Register.pch, .pcl, .rph, .rpl, .si] → n.get r = m.get r
  memory : n.memory = m.memory

theorem jumped_perform_past (m : Machine) {op : Opcode} (family : op.isJump = true) (p : UInt8) :
    Jumped op p m (m.past.perform op p) := by
  rcases Opcode.eq_jump_or_comparison family with rfl | ⟨c, conditional⟩
  · refine ⟨fun _ => ⟨counter_jump m.past p, ?_⟩, fun passed => absurd trivial passed, ?_,
      fun r other => ?_, rfl⟩
    · exact (returnPointer_jump m.past p).trans (counter_past m)
    · exact (get_jump m.past p (by decide)).trans (get_past m (by decide) (by decide))
    · simp only [List.mem_cons, List.not_mem_nil, or_false, not_or] at other
      have past := get_past m other.1 other.2.1
      exact (get_jump m.past p (by simp [other])).trans past
  · have notJump : op ≠ .jump := by
      rintro rfl
      cases conditional
    have pair : m.past.drop.drop.counter = .ofUInt16 (m.index + 1) := by
      rw [← counter_past m]
      simp only [counter, get_drop_drop m.past (r := .pch) (by decide),
        get_drop_drop m.past (r := .pcl) (by decide)]
    have stack : m.past.drop.drop.get .si = m.get .si - 2 := by
      rw [get_si_drop_drop, get_past m (by decide) (by decide)]
    have others {r : Register} (other : r ∉ [Register.pch, .pcl, .si]) :
        m.past.drop.drop.get r = m.get r := by
      simp only [List.mem_cons, List.not_mem_nil, or_false, not_or] at other
      rw [get_drop_drop _ other.2.2, get_past m other.1 other.2.1]
    rw [perform_comparison _ conditional, branch, top_past, second_past]
    by_cases holds : c.holds m.second m.top = true
    · have taken := (Opcode.jumps_iff_holds conditional _ _).2 holds
      rw [if_pos holds]
      refine ⟨fun _ => ⟨counter_jump _ p, (returnPointer_jump _ p).trans pair⟩,
        fun passed => absurd taken passed, ?_, fun r other => ?_, rfl⟩
      · rw [get_jump _ p (by decide), stack, if_neg notJump]
      · simp only [List.mem_cons, List.not_mem_nil, or_false, not_or] at other
        rw [get_jump _ p (by simp [other]), others (by simp [other])]
    · have passed := fun jumps => holds ((Opcode.jumps_iff_holds conditional _ _).1 jumps)
      rw [if_neg holds]
      refine ⟨fun taken => absurd taken passed, fun _ => ⟨pair, ?_⟩, ?_, fun r other => ?_, rfl⟩
      · simp only [returnPointer, others (r := .rph) (by decide), others (r := .rpl) (by decide)]
      · rw [stack, if_neg notJump]
      · simp only [List.mem_cons, List.not_mem_nil, or_false, not_or] at other
        exact others (by simp [other])

end Machine

namespace Rig

variable {σ : Type} [Store σ]

theorem perform_eq_of_isJump (r : Rig σ) {op : Opcode} (family : op.isJump = true) (p : UInt8) :
    r.perform op p = ⟨r.machine.perform op p, r.host.noteAll (r.machine.report op p).toList⟩ := by
  refine perform_eq r ?_ ?_ p
  all_goals
    rintro rfl
    cases family

theorem jumped_cycle {m : Machine} {op : Opcode} {p : UInt8} (next : m.next? = some (op, p))
    (family : op.isJump = true) (host : Host σ) :
    Machine.Jumped op p m (cycle ⟨m, host⟩).machine ∧ (cycle ⟨m, host⟩).host.store = host.store := by
  rw [cycle_of_next next, perform_eq_of_isJump _ family]
  exact ⟨Machine.jumped_perform_past m family p, Host.store_noteAll _ _⟩

end Rig

end PocketConsole
