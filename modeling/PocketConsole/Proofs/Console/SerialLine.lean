import PocketConsole.Proofs.Console.Footprint

namespace PocketConsole

namespace Machine

/-- The two flags of the serial line. -/
def line (m : Machine) : UInt8 × UInt8 :=
  (m.sending, m.receiving)

/-- A packet that has been put on the pins waits for the program. -/
def Pending (m : Machine) : Prop :=
  m.line = (low, high)

instance (m : Machine) : Decidable m.Pending :=
  inferInstanceAs (Decidable (_ = _))

/-- Nothing is on the serial line. -/
def Idle (m : Machine) : Prop :=
  m.line = (low, low)

instance (m : Machine) : Decidable m.Idle :=
  inferInstanceAs (Decidable (_ = _))

theorem line_congr {m n : Machine} (same : m.SameIn n .serialState) : n.line = m.line := by
  rw [line, line, sending, sending, receiving, receiving, Bank.getIn_congr same, Bank.getIn_congr same]

theorem pins_congr {m n : Machine} (same : m.SameIn n .serialPins) : n.pins = m.pins := by
  rw [pins, pins]
  exact congrArg Vector.ofFn (funext fun i => Bank.getIn_congr same i)

theorem line_setSerial (m : Machine) (s r : UInt8) : (m.setSerial s r).line = (s, r) := by
  have inside : Region.serialState.stop ≤ 3200 := by decide
  have first : (m.memory.writeIn .serialState 0 [s, r]).get (Region.serialState.addr + 0) = s :=
    Bank.get_writeIn_zero m.memory inside (by decide) [s, r]
  have second : (m.memory.writeIn .serialState 0 [s, r]).get (Region.serialState.addr + 1) = r :=
    Bank.get_writeIn_zero m.memory inside (by decide) [s, r]
  rw [line, sending, receiving, Bank.getIn_eq_get _ _ (by decide), Bank.getIn_eq_get _ _ (by decide)]
  exact Prod.ext first second

theorem not_pending_of_line {m : Machine} {s r : UInt8} (line : m.line = (s, r)) (off : r = low) :
    ¬ m.Pending := by
  intro pending
  rw [Pending, line, off] at pending
  exact absurd (Prod.mk.inj pending).2 (by decide)

/-- What is put on the pins is there when the flags say so. -/
theorem pins_setSerial_writeIn (m : Machine) (p : Packet) (s r : UInt8) :
    ((m.writeIn .serialPins 0 p.toList).setSerial s r).pins = p := by
  have inside : Region.serialPins.stop ≤ 3200 := by decide
  have apart : Region.serialPins.Apart .serialState := by decide
  apply Vector.ext
  intro i bound
  have within : Region.serialPins.Contains (Region.serialPins.addr + i) :=
    ⟨Nat.le_add_right _ _, Nat.add_lt_add_left bound _⟩
  rw [pins, Vector.getElem_ofFn, Bank.getIn_eq_get _ _ bound, setSerial, memory_writeIn, memory_writeIn,
    Bank.get_writeIn_of_outside _ (apart.not_contains within), Bank.get_writeIn_zero _ inside bound,
    Vector.getElem?_toList, Vector.getElem?_eq_getElem bound, Option.getD_some]

/-- Only the two operations on the serial line change its flags. -/
theorem leaves_serialState {m : Machine} (spared : m.Spares .serialState)
    (noRecv : ∀ p, m.next? ≠ some (.recv, p)) (noSend : ∀ p, m.next? ≠ some (.send, p)) :
    m.Leaves .serialState := by
  refine ⟨spared, fun op p next own => ?_⟩
  have two : op = .send ∨ op = .recv := by
    revert own
    cases op <;> decide
  rcases two with rfl | rfl
  · exact noSend p next
  · exact noRecv p next

end Machine

namespace Rig

variable {σ : Type} [Store σ]

theorem line_cycle_of_send {m : Machine} {p : UInt8} (next : m.next? = some (.send, p)) (host : Host σ) :
    (cycle ⟨m, host⟩).machine.line = (high, low) := by
  rw [cycle_of_next next, perform_eq _ (by decide) (by decide)]
  exact Machine.line_setSerial m.past _ _

theorem line_cycle_of_recv {m : Machine} {p : UInt8} (next : m.next? = some (.recv, p)) (host : Host σ) :
    (cycle ⟨m, host⟩).machine.line = (low, low) := by
  rw [cycle_of_next next, perform_eq _ (by decide) (by decide)]
  exact Machine.line_setSerial _ _ _

end Rig

namespace Console

variable {σ : Type}

/-- The packet that an act hands over. -/
def Act.packet? : Act → Option Packet
  | .queue p => some p
  | _ => none

/-- The operation by which an act takes a pending packet off the serial line. -/
def taker? (c : Console σ) : Act → Option Opcode
  | .cycle =>
    if c.rig.machine.Pending then
      match c.rig.machine.next? with
      | some (.recv, _) => some .recv
      | some (.send, _) => some .send
      | _ => none
    else none
  | _ => none

theorem taker?_cycle (c : Console σ) {o : Opcode} {p : UInt8} (next : c.rig.machine.next? = some (o, p))
    (own : o = .recv ∨ o = .send) :
    c.taker? .cycle = if c.rig.machine.Pending then some o else none := by
  rw [taker?, next]
  rcases own with rfl | rfl <;> rfl

theorem taker?_cycle_of_ne (c : Console σ) (noRecv : ∀ p, c.rig.machine.next? ≠ some (.recv, p))
    (noSend : ∀ p, c.rig.machine.next? ≠ some (.send, p)) : c.taker? .cycle = none := by
  rw [taker?]
  split
  · split
    · rename_i p next
      exact absurd next (noRecv p)
    · rename_i p next
      exact absurd next (noSend p)
    · rfl
  · rfl

variable [Store σ]

/-- What an act does with the packets of a console. -/
inductive Moved (c : Console σ) (a : Act) : Prop
  | queued (p : Packet) (act : a = .queue p) (line : (c.act a).rig.machine.line = c.rig.machine.line)
    (waiting : (c.act a).waiting = c.waiting ++ [p])
  | delivered (p : Packet) (act : a = .deliver) (idle : c.rig.machine.Idle)
    (line : (c.act a).rig.machine.Pending) (pins : (c.act a).rig.machine.pins = p)
    (waiting : c.waiting = p :: (c.act a).waiting)
  | taken (o : Opcode) (act : a = .cycle) (taker : c.taker? a = some o)
    (line : ¬ (c.act a).rig.machine.Pending)
    (waiting : (c.act a).waiting = c.waiting)
  | kept (packet : a.packet? = none) (taker : c.taker? a = none)
    (line : (c.act a).rig.machine.Pending ↔ c.rig.machine.Pending)
    (waiting : (c.act a).waiting = c.waiting)

theorem moved_cycle (c : Console σ) (tame : ¬ c.rig.machine.WritesAtPointer) : c.Moved .cycle := by
  obtain ⟨⟨m, host⟩, screen, tone, waiting⟩ := c
  have freed : ∀ o p, m.next? = some (o, p) → o = .recv ∨ o = .send →
      ¬ (Rig.cycle ⟨m, host⟩).machine.Pending →
      Moved ⟨⟨m, host⟩, screen, tone, waiting⟩ .cycle := by
    intro o p next own after
    have taker := taker?_cycle (⟨⟨m, host⟩, screen, tone, waiting⟩ : Console σ) next own
    by_cases pending : m.Pending
    · exact .taken o rfl (taker.trans (if_pos pending)) after rfl
    · exact .kept rfl (taker.trans (if_neg pending)) (iff_of_false after pending) rfl
  by_cases recv : ∃ p, m.next? = some (.recv, p)
  · obtain ⟨p, next⟩ := recv
    exact freed .recv p next (.inl rfl) (Machine.not_pending_of_line (Rig.line_cycle_of_recv next host) rfl)
  by_cases send : ∃ p, m.next? = some (.send, p)
  · obtain ⟨p, next⟩ := send
    exact freed .send p next (.inr rfl) (Machine.not_pending_of_line (Rig.line_cycle_of_send next host) rfl)
  · have noRecv : ∀ p, m.next? ≠ some (.recv, p) := fun p next => recv ⟨p, next⟩
    have noSend : ∀ p, m.next? ≠ some (.send, p) := fun p next => send ⟨p, next⟩
    have spared := Machine.spares_of_not_writesAtPointer tame .serialState
    have line := Machine.line_congr
      (Rig.sameIn_cycle (by decide) (Machine.leaves_serialState spared noRecv noSend) host)
    refine .kept rfl (taker?_cycle_of_ne _ noRecv noSend) ?_ rfl
    show (Rig.cycle ⟨m, host⟩).machine.Pending ↔ m.Pending
    rw [Machine.Pending, line, Machine.Pending]

theorem act_deliver_of_idle {c : Console σ} (idle : c.rig.machine.Idle) {p : Packet} {more : List Packet}
    (queued : c.waiting = p :: more) :
    c.act .deliver = { c with
      rig := ⟨(c.rig.machine.writeIn .serialPins 0 p.toList).setSerial low high,
        c.rig.host.note (.packetIn p.toList)⟩
      waiting := more } := by
  rw [act, deliver, if_pos (Prod.mk.inj idle)]
  simp only [queued]

theorem act_deliver_of_not_idle {c : Console σ} (busy : ¬ c.rig.machine.Idle) : c.act .deliver = c := by
  rw [act, deliver, if_neg fun flags => busy (Prod.ext flags.1 flags.2)]

theorem moved_deliver (c : Console σ) : c.Moved .deliver := by
  by_cases idle : c.rig.machine.Idle
  · cases queued : c.waiting with
    | nil =>
      have after := act_deliver_of_nil queued
      exact .kept rfl rfl (by rw [after]) (by rw [after])
    | cons p more =>
      have after := act_deliver_of_idle idle queued
      refine .delivered p rfl idle ?_ ?_ ?_
      · rw [after]
        exact Machine.line_setSerial _ _ _
      · rw [after]
        exact Machine.pins_setSerial_writeIn _ p _ _
      · rw [after, queued]
  · have after := act_deliver_of_not_idle idle
    exact .kept rfl rfl (by rw [after]) (by rw [after])

theorem moved_collect (c : Console σ) : c.Moved .collect := by
  by_cases sent : (isHigh c.rig.machine.sending && !isHigh c.rig.machine.receiving) = true
  · have after : c.act .collect = { c with
        rig := ⟨c.rig.machine.setSerial low low,
          c.rig.host.note (.packetOut c.rig.machine.pins.toList)⟩ } := by
      rw [act, collect, if_pos sent]
    have before : ¬ c.rig.machine.Pending := by
      intro pending
      have quiet := (Prod.mk.inj pending).1
      rw [quiet] at sent
      cases sent
    have freed : ¬ (c.act .collect).rig.machine.Pending := by
      rw [after]
      exact Machine.not_pending_of_line (Machine.line_setSerial _ _ _) rfl
    exact .kept rfl rfl (iff_of_false freed before) (by rw [after])
  · have after : c.act .collect = c := by
      rw [act, collect, if_neg sent]
    exact .kept rfl rfl (by rw [after]) (by rw [after])

/-- The queue is changed by what is handed over and by a delivery, and by nothing else. -/
theorem waiting_act (c : Console σ) {a : Act} (packet : a.packet? = none) (other : a ≠ .deliver) :
    (c.act a).waiting = c.waiting := by
  cases a with
  | queue p => cases packet
  | deliver => exact absurd rfl other
  | draw =>
    -- unfolding first keeps the picture from being compared
    rw [act]
  | listen =>
    rw [act, listen]
    split <;> rfl
  | collect =>
    unfold act collect
    dsimp only
    split <;> rfl
  | _ => rfl

/-- Packets wait, go on the line, and leave it in one of four ways. -/
theorem moved_act (c : Console σ) (a : Act) (tame : a = .cycle → ¬ c.rig.machine.WritesAtPointer) :
    c.Moved a := by
  have quiet : ∀ a, a.packet? = none → c.taker? a = none → .serialState ∉ a.regions → a ≠ .cycle →
      a ≠ .deliver → c.Moved a := by
    intro a packet taker other notCycle notDelivery
    have line := Machine.line_congr
      (sameIn_act (c := c) (by decide) other fun same => absurd same notCycle)
    exact .kept packet taker (by rw [Machine.Pending, line, Machine.Pending]) (waiting_act c packet notDelivery)
  have buttons : Region.serialState ∉ [Region.buttons] := by decide
  cases a with
  | press b => exact quiet _ rfl rfl buttons nofun nofun
  | letGo b => exact quiet _ rfl rfl buttons nofun nofun
  | queue p => exact .queued p rfl rfl rfl
  | deliver => exact moved_deliver c
  | schedule s => exact quiet _ rfl rfl List.not_mem_nil nofun nofun
  | countTick => exact quiet _ rfl rfl (by decide) nofun nofun
  | cycle => exact moved_cycle c (tame rfl)
  | draw => exact quiet _ rfl rfl (by decide) nofun nofun
  | age => exact quiet _ rfl rfl buttons nofun nofun
  | listen => exact quiet _ rfl rfl (by decide) nofun nofun
  | collect => exact moved_collect c

end Console

end PocketConsole
