import PocketConsole.Proofs.Machine.Expression
import PocketConsole.Proofs.Machine.Targets

namespace PocketConsole

/-- Code that pushes two registers and goes where they lead. -/
def Token.gotoPair (high low : Register) (p : UInt8) : List Token :=
  [.ofOpcode .pushr high.toByte, .ofOpcode .pushr low.toByte, .ofOpcode .goto p]

namespace Machine

theorem getAt_toByte (m : Machine) (r : Register) : m.getAt r.toByte = m.get r := by
  rw [getAt, Register.ofByte?_toByte]

theorem Gains.top_eq {m n : Machine} {length cells : Nat} {v : Int}
    (gained : m.Gains n length cells (limit m.wraps v)) : n.top = fit m.wraps v :=
  UInt8.toNat_inj.1 (Int.ofNat.inj (gained.top.trans (toNat_fit m.wraps v).symm))

end Machine

namespace Rig

variable {σ : Type} [Store σ]

/-- A register that a cycle does not move is pushed as any result is. -/
theorem Computes.pushr {m : Machine} (awake : m.get .sc = 0) {r : Register} (other : r ∉ [Register.pch, .pcl, .si])
    {place : Nat} (here : m.index.toNat = place) {ts : List Token}
    (held : m.storage.Holds place (.ofOpcode .pushr r.toByte :: ts)) (host : Host σ) :
    Computes m host 1 1 (limit m.wraps (m.get r).toNat) := by
  have room : m.index.toNat < 32768 := by
    have inside := held.lt (i := 0) rfl
    omega
  simp only [List.mem_cons, List.not_mem_nil, or_false, not_or] at other
  have value : m.past.getAt r.toByte = m.get r := by
    rw [Machine.getAt_toByte, Machine.get_past m other.1 other.2.1]
  refine ⟨m.past.push (m.get r).toNat, ?_, .literal m _ room⟩
  rw [Function.iterate_one, cycle_at_token (Opcode.quiet_of_silent (by decide) rfl) awake here held,
      Machine.perform, value]

/-- Two registers that are pushed and gone to lead where they say, after each has been pushed as any result
is. -/
theorem iterate_cycle_gotoPair {m : Machine} (awake : m.get .sc = 0) {high low : Register}
    (first : high ∉ [Register.pch, .pcl, .si]) (second : low ∉ [Register.pch, .pcl, .si]) {p : UInt8}
    (held : m.storage.Holds m.index.toNat (Token.gotoPair high low p)) (host : Host σ) :
    ∃ n, cycle^[3] ⟨m, host⟩ = ⟨n, host⟩ ∧
      n.counter = ⟨fit m.wraps (m.get high).toNat, fit m.wraps (m.get low).toNat⟩ ∧
      n.get .si = m.get .si + 2 ∧ (∀ r, r ∉ [Register.pch, .pcl, .si] → n.get r = m.get r) := by
  obtain ⟨a, ranHigh, gainedHigh⟩ := Computes.pushr awake first rfl held host
  have heldLow : a.storage.Holds a.index.toNat [.ofOpcode .pushr low.toByte, .ofOpcode .goto p] := by
    rw [gainedHigh.alike.storage, gainedHigh.index]
    exact held.tail
  have awakeLow : a.get .sc = 0 := (gainedHigh.get (by decide)).trans awake
  obtain ⟨b, ranLow, gainedLow⟩ := Computes.pushr awakeLow second rfl heldLow host
  have heldGoto : b.storage.Holds b.index.toNat [.ofOpcode .goto p] := by
    rw [gainedLow.alike.storage, gainedLow.index]
    exact heldLow.tail
  have awakeGoto : b.get .sc = 0 := (gainedLow.get (by decide)).trans awakeLow
  refine ⟨b.past.perform .goto p, ?_, ?_, ?_, fun r other => ?_⟩
  · rw [Function.iterate_succ_apply', Function.iterate_succ_apply', ranHigh, ← Function.iterate_one cycle, ranLow,
      Function.iterate_one, cycle_at_token (Opcode.quiet_of_silent (by decide) rfl) awakeGoto rfl heldGoto]
  · rw [Machine.perform, Machine.counter_goto, Machine.second_past, Machine.top_past,
      gainedLow.second_eq_top (by decide), gainedHigh.top_eq, gainedLow.top_eq, gainedHigh.wraps, gainedHigh.get second]
  · rw [Machine.perform, Machine.get_goto _ _ (by decide), Machine.get_past b (by decide) (by decide),
      gainedLow.stackIndex, gainedHigh.stackIndex, UInt8.add_assoc]
    rfl
  · have both := (gainedLow.get other).trans (gainedHigh.get other)
    simp only [List.mem_cons, List.not_mem_nil, or_false, not_or] at other
    rw [Machine.perform, Machine.get_goto _ _ (by simp [other]), Machine.get_past b other.1 other.2.1, both]

/-- The return pointer, pushed and gone to, leads back exactly, unless results wrap and one of its bytes is the
last one: this becomes 0. The pointer itself stays, and its bytes stay on the stack. -/
theorem counter_of_saved_return {m : Machine} (awake : m.get .sc = 0) {p : UInt8}
    (held : m.storage.Holds m.index.toNat (Token.gotoPair .rph .rpl p)) (host : Host σ) :
    ∃ n, cycle^[3] ⟨m, host⟩ = ⟨n, host⟩ ∧
      ((m.wraps = true → m.get .rph ≠ 255 ∧ m.get .rpl ≠ 255) → n.counter = m.returnPointer) ∧
      (m.wraps = true → n.counter =
        ⟨if m.get .rph = 255 then 0 else m.get .rph, if m.get .rpl = 255 then 0 else m.get .rpl⟩) ∧
      n.get .si = m.get .si + 2 ∧ (∀ r, r ∉ [Register.pch, .pcl, .si] → n.get r = m.get r) := by
  obtain ⟨n, ran, counter, stackIndex, registers⟩ := iterate_cycle_gotoPair awake (by decide) (by decide) held host
  rw [fit_byte, fit_byte] at counter
  refine ⟨n, ran, fun spared => ?_, fun wraps => ?_, stackIndex, registers⟩
  · rw [counter, if_neg fun last => (spared last.1).1 last.2, if_neg fun last => (spared last.1).2 last.2]
    rfl
  · simpa only [wraps, true_and] using counter

/-- Around the end of the ring, with the two highest bytes that survive. -/
theorem counter_of_saved_return_around :
    let p : Program := { name := "back", code := ⟨Token.gotoPair .rph .rpl 0, .empty⟩ }
    let m := ((((Machine.ofProgram p).put .rph 254).put .rpl 254).put .si 254).put .wv 1
    m.get .sc = 0 ∧ m.storage.Holds m.index.toNat (Token.gotoPair .rph .rpl 0) ∧
      ∀ host : Host Shelf, (cycle^[3] ⟨m, host⟩).machine.counter = ⟨254, 254⟩ ∧
        (cycle^[3] ⟨m, host⟩).machine.get .si = 0 := by
  intro p m
  have awake : m.get .sc = 0 := by decide
  have first : m.index.toNat = 0 := by decide
  have held : m.storage.Holds m.index.toNat (Token.gotoPair .rph .rpl 0) := by
    rw [first]
    exact Machine.holds_ofProgram (p := p) (by decide)
  refine ⟨awake, held, fun host => ?_⟩
  obtain ⟨n, ran, counter, -, stackIndex, -⟩ := counter_of_saved_return awake held host
  rw [ran]
  exact ⟨counter fun _ => by decide, stackIndex.trans (by decide)⟩

/-- Where results wrap, a return pointer that ends in the last byte leads back to another token. -/
theorem saved_return_lost_when_wrapping :
    let p : Program := { name := "back", code := ⟨Token.gotoPair .rph .rpl 0, .empty⟩ }
    let m := ((Machine.ofProgram p).put .rpl 255).put .wv 1
    m.get .sc = 0 ∧ m.storage.Holds m.index.toNat (Token.gotoPair .rph .rpl 0) ∧
      ∀ host : Host Shelf, (cycle^[3] ⟨m, host⟩).machine.counter ≠ m.returnPointer := by
  intro p m
  have awake : m.get .sc = 0 := by decide
  have first : m.index.toNat = 0 := by decide
  have held : m.storage.Holds m.index.toNat (Token.gotoPair .rph .rpl 0) := by
    rw [first]
    exact Machine.holds_ofProgram (p := p) (by decide)
  refine ⟨awake, held, fun host => ?_⟩
  obtain ⟨n, ran, counter, -⟩ := iterate_cycle_gotoPair awake (by decide) (by decide) held host
  rw [ran, counter]
  decide

end Rig

end PocketConsole
