import PocketConsole.Proofs.Console.SerialLine

namespace PocketConsole

namespace Machine

/-- What an operation that answers with a flag is asked: whether a button has just been pressed, whether
it is down, whether a packet has come. -/
def asked? (m : Machine) : Opcode → UInt8 → Option Bool
  | .btn, n => some (m.button n.toNat == Button.justPressed)
  | .btnd, n => some (Button.isDown (m.button n.toNat))
  | .recv, _ => some (!isHigh m.sending && isHigh m.receiving)
  | _, _ => none

theorem asked?_past (m : Machine) (op : Opcode) (p : UInt8) : m.past.asked? op p = m.asked? op p := rfl

theorem button_eq_iff {m : Machine} {n : Nat} {v : UInt8} (down : v ≠ Button.up) :
    m.button n = v ↔ n < Region.buttons.len ∧ m.memory.get (Region.buttons.addr + n) = v := by
  rw [button, Bank.getIn]
  split
  · rename_i within
    exact (and_iff_right within).symm
  · rename_i beyond
    exact iff_of_false down.symm fun both => beyond both.1

/-- The answer goes the way of every result, and so does not outlast the mode in which results wrap. -/
theorem get_xa_perform_of_asked {m : Machine} {op : Opcode} {p : UInt8} {b : Bool}
    (asked : m.asked? op p = some b) : (m.perform op p).get .xa = fit m.wraps (flag b) := by
  have answered : ∀ v : Int, (m.set .xa v).get .xa = fit m.wraps v := fun v =>
    (get_put m .xa .xa _).trans (if_pos rfl)
  cases op
  case btn | btnd | recv =>
    rw [← Option.some.inj asked]
    exact answered _
  all_goals cases asked

theorem isHigh_fit_flag (wraps b : Bool) : isHigh (fit wraps (flag b)) = true ↔ wraps = false ∧ b = true := by
  revert wraps b
  decide

end Machine

namespace Rig

variable {σ : Type} [Store σ]

theorem isHigh_xa_cycle_iff {m : Machine} {op : Opcode} {p : UInt8} (next : m.next? = some (op, p))
    {b : Bool} (asked : m.asked? op p = some b) (host : Host σ) :
    isHigh ((cycle ⟨m, host⟩).machine.get .xa) = true ↔ m.wraps = false ∧ b = true := by
  have noSave : op ≠ .save := by
    rintro rfl
    cases asked
  have noLoad : op ≠ .load := by
    rintro rfl
    cases asked
  have answer := Machine.get_xa_perform_of_asked ((Machine.asked?_past m op p).trans asked)
  rw [cycle_of_next next, perform_eq _ noSave noLoad, answer, Machine.wraps_past]
  exact Machine.isHigh_fit_flag _ _

theorem not_isHigh_xa_of_wraps {m : Machine} {op : Opcode} {p : UInt8} (next : m.next? = some (op, p))
    {b : Bool} (asked : m.asked? op p = some b) (wraps : m.wraps = true) (host : Host σ) :
    ¬ isHigh ((cycle ⟨m, host⟩).machine.get .xa) = true := by
  rw [isHigh_xa_cycle_iff next asked host, wraps]
  exact fun both => Bool.noConfusion both.1

/-- The operations that answer with a flag tell the truth as long as results do not wrap, and say no in
any case where they do; a packet that has come is taken off the line all the same. -/
theorem flags_reported (m : Machine) (host : Host σ) (n : UInt8) :
    (m.next? = some (.btn, n) →
        (isHigh ((cycle ⟨m, host⟩).machine.get .xa) = true ↔
          m.wraps = false ∧ n.toNat < Region.buttons.len ∧
            m.memory.get (Region.buttons.addr + n.toNat) = Button.justPressed)) ∧
      (m.next? = some (.btnd, n) →
        (isHigh ((cycle ⟨m, host⟩).machine.get .xa) = true ↔
          m.wraps = false ∧ n.toNat < Region.buttons.len ∧
            (m.memory.get (Region.buttons.addr + n.toNat) = Button.justPressed ∨
              m.memory.get (Region.buttons.addr + n.toNat) = Button.held))) ∧
      (m.next? = some (.recv, n) →
        (isHigh ((cycle ⟨m, host⟩).machine.get .xa) = true ↔
          m.wraps = false ∧ isHigh m.sending = false ∧ isHigh m.receiving = true) ∧
        (cycle ⟨m, host⟩).machine.Idle) := by
  have justPressed : m.button n.toNat = Button.justPressed ↔ _ := Machine.button_eq_iff (by decide)
  have held : m.button n.toNat = Button.held ↔ _ := Machine.button_eq_iff (by decide)
  refine ⟨fun next => ?_, fun next => ?_, fun next => ⟨?_, line_cycle_of_recv next host⟩⟩
  · rw [isHigh_xa_cycle_iff next rfl host, beq_iff_eq, justPressed]
  · rw [isHigh_xa_cycle_iff next rfl host, Button.isDown, Bool.or_eq_true, beq_iff_eq, beq_iff_eq, justPressed,
      held, ← and_or_left]
  · rw [isHigh_xa_cycle_iff next rfl host, Bool.and_eq_true, Bool.not_eq_true']

/-- Where results do not wrap, a button just pressed, a held button and a packet are all reported. -/
theorem flags_reported_of_single :
    let host : Host Shelf := ⟨.empty, #[]⟩
    let pressed := fun op => (Machine.ofProgram (.single op)).writeIn .buttons 0 [Button.justPressed]
    let held := (Machine.ofProgram (.single .btnd)).writeIn .buttons 0 [Button.held]
    let pending := (Machine.ofProgram (.single .recv)).setSerial low high
    isHigh ((cycle ⟨pressed .btn, host⟩).machine.get .xa) = true ∧
      isHigh ((cycle ⟨pressed .btnd, host⟩).machine.get .xa) = true ∧
      isHigh ((cycle ⟨held, host⟩).machine.get .xa) = true ∧
      isHigh ((cycle ⟨pending, host⟩).machine.get .xa) = true ∧
      (cycle ⟨pending, host⟩).machine.Idle := by
  intro host pressed held pending
  have justPressed := (flags_reported (pressed .btn) host 0).1 (by decide +kernel)
  have down := fun m => (flags_reported m host 0).2.1
  have received := (flags_reported pending host 0).2.2 (by decide +kernel)
  exact ⟨justPressed.2 (by decide +kernel), (down (pressed .btnd) (by decide +kernel)).2 (by decide +kernel),
    (down held (by decide +kernel)).2 (by decide +kernel), received.1.2 (by decide +kernel), received.2⟩

/-- Where results wrap, a button that has just been pressed is not reported, nor is a packet that is taken
off the line. -/
theorem flags_unreported_when_wrapping :
    (¬ ∀ (m : Machine) (host : Host Shelf) (n : UInt8), m.next? = some (.btn, n) →
      (isHigh ((cycle ⟨m, host⟩).machine.get .xa) = true ↔
        n.toNat < Region.buttons.len ∧
          m.memory.get (Region.buttons.addr + n.toNat) = Button.justPressed)) ∧
    ¬ ∀ (m : Machine) (host : Host Shelf) (n : UInt8), m.next? = some (.recv, n) →
      (isHigh ((cycle ⟨m, host⟩).machine.get .xa) = true ↔
        isHigh m.sending = false ∧ isHigh m.receiving = true) := by
  constructor
  · intro told
    let m := ((Machine.ofProgram (.single .btn)).put .wv 1).writeIn .buttons 0 [Button.justPressed]
    have next : m.next? = some (.btn, 0) := by decide +kernel
    have reported := (told m ⟨.empty, #[]⟩ 0 next).2 (by decide +kernel)
    exact not_isHigh_xa_of_wraps next rfl (by decide +kernel) _ reported
  · intro told
    let m := ((Machine.ofProgram (.single .recv)).put .wv 1).setSerial low high
    have next : m.next? = some (.recv, 0) := by decide +kernel
    have reported := (told m ⟨.empty, #[]⟩ 0 next).2 (by decide +kernel)
    exact not_isHigh_xa_of_wraps next rfl (by decide +kernel) _ reported

end Rig

end PocketConsole
