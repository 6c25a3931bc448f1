import Mathlib.Logic.Function.Iterate
import PocketConsole.Proofs.Machine.Contents

namespace PocketConsole

/-- The operations that write a region, apart from those on the stack. -/
def Region.writers : List (Region × List Opcode) :=
  [(audio, [.tone]), (serialState, [.send, .recv]), (serialPins, [.pout]), (saveData, [.load]),
    (video, [.clear, .draw])]

/-- The regions that no operation writes of its own. -/
def Region.quiet : List Region :=
  [buttons, icons, timer, imageData]

namespace Opcode

theorem mem_of_region? {op : Opcode} {own : Region} {ops : List Opcode} (entry : (own, ops) ∈ Region.writers)
    (region : op.region? = some own) : op ∈ ops := by
  have each : ∀ entry ∈ Region.writers, op.region? = some entry.1 → op ∈ entry.2 := by
    cases op <;> decide
  exact each (own, ops) entry region

theorem not_quiet_of_region? {op : Opcode} {own : Region} (region : op.region? = some own) :
    own ∉ Region.quiet := by
  cases op
  all_goals cases region
  all_goals decide

end Opcode

namespace Region

theorem mem_all_of_writers {own : Region} {ops : List Opcode} (entry : (own, ops) ∈ writers) : own ∈ all := by
  have each : ∀ entry ∈ writers, entry.1 ∈ all := by decide
  exact each (own, ops) entry

theorem eq_of_contains {a b : Region} (first : a ∈ all) (second : b ∈ all) {x : Nat} (inFirst : a.Contains x)
    (inSecond : b.Contains x) : a = b := by
  by_contra other
  exact (apart_of_mem_all a first b second other).not_contains inFirst inSecond

end Region

namespace Bank

theorem get_writeIn_eq_or_mem {size : Nat} (b : Bank size) (r : Region) (offset x : Nat) (data : List UInt8) :
    (b.writeIn r offset data).get x = b.get x ∨ (b.writeIn r offset data).get x ∈ data := by
  by_cases inside : r.stop ≤ size
  · rw [get_writeIn b inside]
    split
    · exact .inr (List.getElem_mem _)
    · exact .inl rfl
  · rw [writeIn, if_neg inside]
    exact .inl rfl

end Bank

namespace Rig

variable {σ : Type} [Store σ]

/-- A byte changes only in the region of the operation carried out, unless the operation writes at the
memory pointer. -/
theorem region_of_changed {m : Machine} (tame : ¬ m.WritesAtPointer) {host : Host σ} {x : Nat}
    (changed : (cycle ⟨m, host⟩).machine.memory.get x ≠ m.memory.get x) :
    ∃ op p own, m.next? = some (op, p) ∧ op.region? = some own ∧ own.Contains x := by
  by_contra none
  have spared := Machine.spares_of_not_writesAtPointer tame ⟨x, 1⟩
  refine changed (get_memory_cycle (fun op p next => ?_) (fun op p next own region => ?_) host)
  · exact spared op p next x ⟨Nat.le_refl x, Nat.lt_succ_self x⟩
  · exact fun contains => none ⟨op, p, own, next, region, contains⟩

theorem writer_of_changed {m : Machine} (tame : ¬ m.WritesAtPointer) {host : Host σ} {own : Region}
    {ops : List Opcode} (entry : (own, ops) ∈ Region.writers) {x : Nat} (inside : own.Contains x)
    (changed : (cycle ⟨m, host⟩).machine.memory.get x ≠ m.memory.get x) :
    ∃ op ∈ ops, ∃ p, m.next? = some (op, p) := by
  obtain ⟨op, p, written, next, region, contains⟩ := region_of_changed tame changed
  obtain rfl := Region.eq_of_contains (Opcode.mem_all_of_region? region) (Region.mem_all_of_writers entry)
    contains inside
  exact ⟨op, Opcode.mem_of_region? entry region, p, next⟩

theorem get_memory_cycle_of_quiet {m : Machine} (tame : ¬ m.WritesAtPointer) (host : Host σ) {x : Nat}
    (quiet : ∀ own ∈ Region.all, own.Contains x → own ∈ Region.quiet) :
    (cycle ⟨m, host⟩).machine.memory.get x = m.memory.get x := by
  by_contra changed
  obtain ⟨op, p, own, -, region, contains⟩ := region_of_changed tame changed
  exact Opcode.not_quiet_of_region? region (quiet own (Opcode.mem_all_of_region? region) contains)

/-- The picture holds shades only, if it has done so before. -/
theorem shades_cycle {m : Machine} (tame : ¬ m.WritesAtPointer) (host : Host σ)
    (shades : ∀ x, Region.video.Contains x → m.memory.get x ≤ 3) :
    ∀ x, Region.video.Contains x → (cycle ⟨m, host⟩).machine.memory.get x ≤ 3 := by
  intro x inside
  by_cases changed : (cycle ⟨m, host⟩).machine.memory.get x = m.memory.get x
  · rw [changed]
    exact shades x inside
  have entry : (Region.video, [Opcode.clear, .draw]) ∈ Region.writers := by decide
  obtain ⟨op, member, p, next⟩ := writer_of_changed tame entry inside changed
  have remainder : p % 4 ≤ 3 := by
    rw [UInt8.le_iff_toNat_le, UInt8.toNat_mod]
    exact Nat.le_of_lt_succ (Nat.mod_lt _ (by decide))
  have low : ∀ offset data, (∀ v ∈ data, v = p % 4) →
      (m.past.memory.writeIn .video offset data).get x ≤ 3 := by
    intro offset data same
    rcases m.past.memory.get_writeIn_eq_or_mem .video offset x data with kept | written
    · rw [kept]
      exact shades x inside
    · rw [same _ written]
      exact remainder
  rw [cycle_of_next next]
  rcases List.mem_cons.1 member with rfl | last
  · rw [perform_eq _ (by decide) (by decide), Machine.perform, Machine.memory_writeIn]
    exact low _ _ fun v filled => List.eq_of_mem_replicate filled
  · obtain rfl := List.mem_singleton.1 last
    rw [perform_eq _ (by decide) (by decide), Machine.perform, Machine.memory_writeIn]
    exact low _ _ fun v drawn => List.mem_singleton.1 drawn

theorem alike_iterate_cycle (n : Nat) (r : Rig σ) : r.machine.Alike (cycle^[n] r).machine := by
  induction n with
  | zero => exact .refl _
  | succ n ih =>
    rw [Function.iterate_succ_apply']
    exact ih.trans (alike_cycle _)

/-- As long as cycles carry out neither a poke nor a read of a block, no operation reaches a byte outside of
its own region, and the picture holds shades only. -/
theorem confined_cycles {r : Rig σ} {n : Nat} (tame : ∀ k < n, ¬ (cycle^[k] r).machine.WritesAtPointer) :
    (∀ x, (∀ own ∈ Region.all, own.Contains x → own ∈ Region.quiet) →
        (cycle^[n] r).machine.memory.get x = r.machine.memory.get x) ∧
      (∀ k < n, ∀ own ops, (own, ops) ∈ Region.writers → ∀ x, own.Contains x →
        (cycle^[k + 1] r).machine.memory.get x ≠ (cycle^[k] r).machine.memory.get x →
        ∃ op ∈ ops, ∃ p, (cycle^[k] r).machine.next? = some (op, p)) ∧
      ((∀ x, Region.video.Contains x → r.machine.memory.get x ≤ 3) →
        ∀ k ≤ n, ∀ x, Region.video.Contains x → (cycle^[k] r).machine.memory.get x ≤ 3) := by
  refine ⟨fun x quiet => ?_, fun k before own ops entry x inside changed => ?_, fun shades k within => ?_⟩
  · induction n with
    | zero => rfl
    | succ n ih =>
      have earlier := ih fun k before => tame k (Nat.lt_succ_of_lt before)
      rw [Function.iterate_succ_apply']
      exact (get_memory_cycle_of_quiet (tame n (Nat.lt_succ_self n)) _ quiet).trans earlier
  · rw [Function.iterate_succ_apply'] at changed
    exact writer_of_changed (tame k before) entry inside changed
  · induction k with
    | zero => exact shades
    | succ k ih =>
      rw [Function.iterate_succ_apply']
      exact shades_cycle (tame k within) _ (ih (Nat.le_of_lt within))

/-- A program that draws a pixel, fills the screen and sends is confined, and what it has changed after its
first cycle is the picture. -/
theorem confined_cycles_of_drawing :
    let p : Program :=
      { name := "picture", code := ⟨[.ofOpcode .draw 7, .ofOpcode .clear 2, .ofOpcode .send 0], .empty⟩ }
    let r : Rig Shelf := ⟨.ofProgram p, ⟨.empty, #[]⟩⟩
    (∀ k < 3, ¬ (cycle^[k] r).machine.WritesAtPointer) ∧
      (cycle^[3] r).machine.memory.get 600 = r.machine.memory.get 600 ∧
      (∃ op ∈ [Opcode.clear, .draw], ∃ v, r.machine.next? = some (op, v)) ∧
      ∀ x, Region.video.Contains x → (cycle^[3] r).machine.memory.get x ≤ 3 := by
  intro p r
  have tame : ∀ k < 3, ¬ (cycle^[k] r).machine.WritesAtPointer := fun k _ =>
    Machine.not_writesAtPointer_of_plain (p := p) rfl (by decide) (alike_iterate_cycle k r).storage
  obtain ⟨quiet, changed, shades⟩ := confined_cycles tame
  have blank : ∀ x, r.machine.memory.get x = 0 := Bank.get_zero
  refine ⟨tame, quiet 600 (by decide), ?_, ?_⟩
  · exact changed 0 (by decide) .video _ (by decide) 640 (by decide) (by decide +kernel)
  · refine shades (fun x _ => ?_) 3 (Nat.le_refl 3)
    rw [blank]
    decide

end Rig

end PocketConsole
