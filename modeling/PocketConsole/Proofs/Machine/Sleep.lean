import PocketConsole.Proofs.Machine.Expression

namespace PocketConsole

namespace Registers

theorem set_set (f : Registers) (r : Register) (v w : UInt8) : (f.set r v).set r w = f.set r w := by
  simp only [set, Vector.set_set]

theorem set_get (f : Registers) (r : Register) : f.set r (f.get r) = f := by
  simp only [set, get, Fin.getElem_fin, Vector.set_getElem_self]

end Registers

namespace Machine

theorem put_put (m : Machine) (r : Register) (v w : UInt8) : (m.put r v).put r w = m.put r w := by
  simp only [put, Registers.set_set]

theorem put_get (m : Machine) (r : Register) : m.put r (m.get r) = m := by
  simp only [put, get, Registers.set_get]

/-- For how many cycles a sleep stalls: as many as its length, but for the last byte where results wrap. -/
def stall (m : Machine) (n : UInt8) : Nat :=
  if m.wraps = true ∧ n = 255 then 0 else n.toNat

theorem toNat_fit_eq_stall (m : Machine) (n : UInt8) : (fit m.wraps n.toNat).toNat = m.stall n := by
  rw [fit_byte, stall]
  split <;> rfl

end Machine

namespace Rig

variable {σ : Type} [Store σ]

/-- A sleeping machine counts down, whether results wrap or not: one less than a byte is never the last. -/
theorem cycle_of_asleep_put {m : Machine} (asleep : m.get .sc ≠ 0) (host : Host σ) :
    cycle ⟨m, host⟩ = ⟨m.put .sc (m.get .sc - 1), host⟩ := by
  have bound := (m.get .sc).toNat_lt
  have positive : (m.get .sc).toNat ≠ 0 := fun zero => asleep (UInt8.toNat_inj.1 zero)
  have less : (m.get .sc - 1).toNat = (m.get .sc).toNat - 1 := by
    simp only [UInt8.toNat_sub, UInt8.reduceToNat]
    omega
  have notLast : m.get .sc - 1 ≠ 255 := by
    intro last
    have value := congrArg UInt8.toNat last
    simp only [less, UInt8.reduceToNat] at value
    omega
  have lower : ((m.get .sc).toNat : Int) - 1 = (m.get .sc - 1).toNat := by omega
  rw [cycle_of_asleep asleep, Machine.set, lower, fit_byte, if_neg fun last => notLast last.2]

/-- As long as a machine sleeps, its cycles change nothing but the sleep counter. -/
theorem iterate_cycle_asleep (m : Machine) (host : Host σ) {k : Nat} (within : k ≤ (m.get .sc).toNat) :
    cycle^[k] ⟨m, host⟩ = ⟨m.put .sc (.ofNat ((m.get .sc).toNat - k)), host⟩ := by
  induction k with
  | zero => rw [Nat.sub_zero, UInt8.ofNat_toNat, Machine.put_get, Function.iterate_zero_apply]
  | succ k ih =>
    have bound := (m.get .sc).toNat_lt
    have left : (m.put .sc (.ofNat ((m.get .sc).toNat - k))).get .sc = .ofNat ((m.get .sc).toNat - k) := by
      rw [Machine.get_put, if_pos rfl]
    have asleep : (m.put .sc (.ofNat ((m.get .sc).toNat - k))).get .sc ≠ 0 := by
      rw [left]
      intro zero
      have value := congrArg UInt8.toNat zero
      simp only [UInt8.toNat_ofNat', UInt8.reduceToNat] at value
      omega
    have less : UInt8.ofNat ((m.get .sc).toNat - k) - 1 = .ofNat ((m.get .sc).toNat - (k + 1)) := by
      apply UInt8.toNat_inj.1
      simp only [UInt8.toNat_sub, UInt8.toNat_ofNat', UInt8.reduceToNat]
      omega
    rw [Function.iterate_succ_apply', ih (by omega), cycle_of_asleep_put asleep, left, less, Machine.put_put]

theorem toNat_index_add_one_of_next {m : Machine} {op : Opcode} {p : UInt8} (next : m.next? = some (op, p)) :
    (m.index + 1).toNat = m.index.toNat + 1 := by
  have decoded := (Machine.next?_eq_some_iff.1 next).2.1
  have inside := Bank.lt_of_decoded decoded
  simp only [UInt16.toNat_add, UInt16.reduceToNat]
  omega

theorem cycle_of_sleep {m : Machine} {n : UInt8} (next : m.next? = some (.sleep, n)) (host : Host σ) :
    cycle ⟨m, host⟩ = ⟨m.past.put .sc (fit m.wraps n.toNat), host⟩ := by
  have wraps : m.past.wraps = m.wraps := congrArg isHigh (Machine.get_past m (by decide) (by decide))
  rw [cycle_of_quiet (Opcode.quiet_of_silent (by decide) rfl) next, Machine.perform, Machine.set, wraps]

/-- A sleep stalls the machine for its length, whether results wrap or not, except that a sleep of the last
length does not stall it at all where results wrap. The cycles of the stall change nothing but the sleep
counter, and the cycle after them carries out the next cell. -/
theorem stalls_of_sleep {m : Machine} {n : UInt8} (next : m.next? = some (.sleep, n)) (host : Host σ) :
    (∀ k ≤ m.stall n, cycle^[k + 1] ⟨m, host⟩ = ⟨m.past.put .sc (.ofNat (m.stall n - k)), host⟩) ∧
      cycle^[m.stall n + 1] ⟨m, host⟩ = ⟨m.past, host⟩ ∧ (m.index + 1).toNat = m.index.toNat + 1 ∧
      Executes ⟨m.past, host⟩ (m.index + 1) (cycle^[m.stall n + 2] ⟨m, host⟩) := by
  have awake := (Machine.next?_eq_some_iff.1 next).1
  have still : m.past.get .sc = 0 := (Machine.get_past m (by decide) (by decide)).trans awake
  have counter : (m.past.put .sc (fit m.wraps n.toNat)).get .sc = fit m.wraps n.toNat := by
    rw [Machine.get_put, if_pos rfl]
  have stalled : ∀ k ≤ m.stall n, cycle^[k + 1] ⟨m, host⟩ = ⟨m.past.put .sc (.ofNat (m.stall n - k)), host⟩ := by
    intro k within
    have counted := iterate_cycle_asleep (m.past.put .sc (fit m.wraps n.toNat)) host (k := k)
    rw [counter, m.toNat_fit_eq_stall, Machine.put_put] at counted
    rw [Function.iterate_succ_apply, cycle_of_sleep next, counted within]
  have woken : cycle^[m.stall n + 1] ⟨m, host⟩ = ⟨m.past, host⟩ := by
    rw [stalled _ (Nat.le_refl _), Nat.sub_self, ← show m.past.get .sc = UInt8.ofNat 0 from still, Machine.put_get]
  have afterwards : cycle^[m.stall n + 2] ⟨m, host⟩ = cycle ⟨m.past, host⟩ := by
    rw [Function.iterate_succ_apply', woken]
  refine ⟨stalled, woken, toNat_index_add_one_of_next next, ?_⟩
  rw [afterwards, ← Machine.index_past]
  exact executes_cycle still host

/-- The longest sleep that is slept in full where results wrap. -/
theorem stalls_of_sleep_when_wrapping :
    let p : Program := { name := "nap", code := ⟨[.ofOpcode .sleep 254, .ofOpcode .push 1], .empty⟩ }
    let m := (Machine.ofProgram p).put .wv 1
    m.next? = some (.sleep, 254) ∧ ∀ host : Host Shelf,
      cycle^[254] ⟨m, host⟩ = ⟨m.past.put .sc 1, host⟩ ∧ cycle^[255] ⟨m, host⟩ = ⟨m.past, host⟩ ∧
        Executes ⟨m.past, host⟩ (m.index + 1) (cycle^[256] ⟨m, host⟩) := by
  intro p m
  have awake : m.get .sc = 0 := by decide
  have first : m.index.toNat = 0 := by decide
  have held : m.storage.Holds m.index.toNat [.ofOpcode .sleep 254, .ofOpcode .push 1] := by
    rw [first]
    exact Machine.holds_ofProgram (p := p) (by decide)
  have next : m.next? = some (.sleep, 254) := Machine.next?_of_token awake held.head.1 held.head.2
  have length : m.stall 254 = 254 := by decide
  refine ⟨next, fun host => ?_⟩
  obtain ⟨stalled, woken, -, carried⟩ := stalls_of_sleep next host
  rw [length] at stalled woken carried
  exact ⟨stalled 253 (by decide), woken, carried⟩

/-- Where results wrap, a sleep of the last length is none: the very next cycle pushes. -/
theorem last_sleep_lost_when_wrapping :
    let p : Program := { name := "nap", code := ⟨[.ofOpcode .sleep 255, .ofOpcode .push 1], .empty⟩ }
    let m := (Machine.ofProgram p).put .wv 1
    m.next? = some (.sleep, 255) ∧ ∀ host : Host Shelf,
      (cycle ⟨m, host⟩).machine.get .si = 0 ∧ (cycle^[2] ⟨m, host⟩).machine.get .si = 1 := by
  intro p m
  have awake : m.get .sc = 0 := by decide
  have first : m.index.toNat = 0 := by decide
  have held : m.storage.Holds 0 [.ofOpcode .sleep 255, .ofOpcode .push 1] :=
    Machine.holds_ofProgram (p := p) (by decide)
  have next : m.next? = some (.sleep, 255) := by
    refine Machine.next?_of_token awake ?_ ?_
    · rw [first]
      exact held.head.1
    · rw [first]
      exact held.head.2
  refine ⟨next, fun host => ?_⟩
  have slept : cycle ⟨m, host⟩ = ⟨m.past.set .sc 255, host⟩ :=
    cycle_of_quiet (Opcode.quiet_of_silent (by decide) rfl) next host
  have stillAwake : (m.past.set .sc 255).get .sc = 0 := by decide
  have second : (m.past.set .sc 255).index.toNat = 1 := by decide
  have pushed : cycle ⟨m.past.set .sc 255, host⟩ = ⟨(m.past.set .sc 255).past.push 1, host⟩ :=
    cycle_at_token quiet_push stillAwake second held.tail host
  have before : (m.past.set .sc 255).get .si = 0 := by decide
  have after : ((m.past.set .sc 255).past.push 1).get .si = 1 := by decide
  rw [Function.iterate_succ_apply, Function.iterate_one, slept, pushed]
  exact ⟨before, after⟩

end Rig

end PocketConsole
