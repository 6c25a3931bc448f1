import PocketConsole.Proofs.Machine.Expression
import PocketConsole.Proofs.Machine.Targets

namespace PocketConsole

/-- A token that fills its cell, leads nowhere but to the next one, and does not put the machine to sleep. -/
structure Token.Straight (t : Token) : Prop where
  full : t.opcode ≠ 0
  onward : ∀ op ∈ t.op?, op.isJump = false ∧ op ∉ [Opcode.goto, .rtn, .sleep]
  aside : t.op? = some .mov → Register.ofByte? t.parameter ∉ [some Register.pch, some .pcl, some .sc]

/-- The registers that say where a machine is: the program counter and the sleep counter. -/
def Register.counters : List Register :=
  [.pch, .pcl, .sc]

theorem Opcode.crooked_of_mem_targets {op : Opcode} {p : UInt8} {r : Register} (target : r ∈ op.targets p)
    (counter : r ∈ Register.counters) :
    op = .mov ∧ Register.ofByte? p = some r ∨ op.isJump = true ∨ op ∈ [goto, rtn, sleep] := by
  have each : ∀ r ∈ Register.counters, r ∈ op.targets 0 → op.isJump = true ∨ op ∈ [goto, rtn, sleep] := by
    cases op <;> decide
  exact (mov_or_mem_targets target 0).imp_right (each r counter)

/-- A straight token has nothing to do with the counters. -/
theorem Token.Straight.not_mem_targets {t : Token} (straight : t.Straight) {op : Opcode} (decoded : t.op? = some op)
    {r : Register} (counter : r ∈ Register.counters) : r ∉ op.targets t.parameter := by
  intro target
  obtain ⟨rfl, named⟩ | jump | other := Opcode.crooked_of_mem_targets target counter
  · refine straight.aside decoded ?_
    rw [named]
    exact List.mem_map_of_mem counter
  · exact Bool.false_ne_true ((straight.onward op decoded).1.symm.trans jump)
  · exact (straight.onward op decoded).2 other

theorem Token.Straight.ofOpcode {op : Opcode} (onward : op.isJump = false ∧ op ∉ [Opcode.goto, .rtn, .sleep])
    (other : op ≠ .mov) (p : UInt8) : (Token.ofOpcode op p).Straight where
  full := op.toByte_ne_zero
  onward decoded found := by
    rw [op?_ofOpcode, Option.mem_some_iff] at found
    exact found ▸ onward
  aside moves := absurd (Option.some.inj ((op?_ofOpcode op p).symm.trans moves)) other

namespace Machine

/-- The second machine is awake a number of places further on in the same code. -/
structure Ahead (m : Machine) (k : Nat) (n : Machine) : Prop where
  index : n.index.toNat = m.index.toNat + k
  awake : n.get .sc = 0
  storage : n.storage = m.storage

namespace Ahead

variable {a b c : Machine} {j k : Nat}

theorem trans (first : a.Ahead j b) (second : b.Ahead k c) : a.Ahead (j + k) c where
  index := by rw [second.index, first.index, Nat.add_assoc]
  awake := second.awake
  storage := second.storage.trans first.storage

/-- The token there is that of the code which starts where the first machine is. -/
theorem token (ahead : a.Ahead k b) {ts : List Token} (held : a.storage.Holds a.index.toNat ts) {t : Token}
    (found : ts[k]? = some t) :
    b.storage.get (2 * b.index.toNat) = t.opcode ∧ b.storage.get (2 * b.index.toNat + 1) = t.parameter := by
  rw [ahead.storage, ahead.index]
  exact held k t found

end Ahead

end Machine

namespace Rig

variable {σ : Type} [Store σ]

/-- A cycle at a straight token leads to the next one. -/
theorem ahead_cycle {m : Machine} (awake : m.get .sc = 0) {t : Token} (straight : t.Straight)
    (opcode : m.storage.get (2 * m.index.toNat) = t.opcode)
    (parameter : m.storage.get (2 * m.index.toNat + 1) = t.parameter) (host : Host σ) :
    m.Ahead 1 (cycle ⟨m, host⟩).machine := by
  have full : m.storage.get (2 * m.index.toNat) ≠ 0 := opcode ▸ straight.full
  have moved : ∀ r ∈ Register.counters, (cycle ⟨m, host⟩).machine.get r = m.past.get r := by
    intro r counter
    cases decoded : Opcode.ofByte? (m.storage.get (2 * m.index.toNat)) with
    | none => rw [cycle_of_unknown awake full decoded]
    | some op =>
      rw [cycle_of_next (Machine.next?_eq_some_iff.2 ⟨awake, decoded, parameter⟩)]
      rw [opcode] at decoded
      exact get_perform _ (straight.not_mem_targets decoded counter)
  refine ⟨?_, ?_, (alike_cycle _).storage⟩
  · rw [Machine.index_congr (moved .pch (by decide)) (moved .pcl (by decide))]
    exact Machine.toNat_index_past rfl (Bank.lt_of_full full)
  · rw [moved .sc (by decide), Machine.get_past m (by decide) (by decide), awake]

/-- Straight tokens are carried out one after another. -/
theorem ahead_iterate_cycle {m : Machine} (awake : m.get .sc = 0) {ts : List Token}
    (held : m.storage.Holds m.index.toNat ts) (straight : ∀ t ∈ ts, t.Straight) (host : Host σ) {k : Nat}
    (within : k ≤ ts.length) : m.Ahead k (cycle^[k] ⟨m, host⟩).machine := by
  induction k with
  | zero => exact ⟨rfl, awake, rfl⟩
  | succ k ih =>
    have earlier := ih (Nat.le_of_succ_le within)
    obtain ⟨opcode, parameter⟩ := earlier.token held (List.getElem?_eq_getElem within)
    rw [Function.iterate_succ_apply']
    exact earlier.trans (ahead_cycle earlier.awake (straight _ (List.getElem_mem within)) opcode parameter _)

end Rig

end PocketConsole
