import PocketConsole.Proofs.Console.Packets
import PocketConsole.Proofs.Console.Sending

namespace PocketConsole

namespace Machine

/-- What is on the pins is offered to the other end. -/
def Offering (m : Machine) : Prop :=
  m.line = (high, low)

/-- At most one end of the serial line offers a packet to the other. -/
def HalfDuplex (m : Machine) : Prop :=
  m.Idle ∨ m.Offering ∨ m.Pending

instance (m : Machine) : Decidable m.Offering :=
  inferInstanceAs (Decidable (_ = _))

instance (m : Machine) : Decidable m.HalfDuplex :=
  inferInstanceAs (Decidable (_ ∨ _ ∨ _))

theorem HalfDuplex.congr {m n : Machine} (duplex : m.HalfDuplex) (same : n.line = m.line) : n.HalfDuplex := by
  rwa [HalfDuplex, Idle, Offering, Pending, same]

end Machine

namespace Rig

variable {σ : Type} [Store σ]

/-- Sending and receiving set both flags, and no other operation sets either. -/
theorem halfDuplex_cycle {m : Machine} (tame : ¬ m.WritesAtPointer) (duplex : m.HalfDuplex) (host : Host σ) :
    (cycle ⟨m, host⟩).machine.HalfDuplex := by
  by_cases recv : ∃ p, m.next? = some (.recv, p)
  · obtain ⟨p, next⟩ := recv
    exact .inl (line_cycle_of_recv next host)
  by_cases send : ∃ p, m.next? = some (.send, p)
  · obtain ⟨p, next⟩ := send
    exact .inr (.inl (line_cycle_of_send next host))
  have spared := Machine.spares_of_not_writesAtPointer tame .serialState
  have leaves := Machine.leaves_serialState spared (fun p next => recv ⟨p, next⟩) fun p next => send ⟨p, next⟩
  exact duplex.congr (Machine.line_congr (sameIn_cycle (by decide) leaves host))

end Rig

namespace Console

variable {σ : Type}

theorem Act.eq_of_serialState_mem {a : Act} (own : .serialState ∈ a.regions) :
    a = .deliver ∨ a = .collect := by
  cases a
  case deliver => exact .inl rfl
  case collect => exact .inr rfl
  all_goals simp [regions, Region.serialState, Region.buttons, Region.timer] at own

theorem Act.eq_of_serialPins_mem {a : Act} (own : .serialPins ∈ a.regions) : a = .deliver := by
  cases a
  case deliver => rfl
  all_goals simp [regions, Region.serialState, Region.serialPins, Region.buttons, Region.timer] at own

theorem collect_of_not_offering {c : Console σ} (duplex : c.rig.machine.HalfDuplex)
    (quiet : ¬ c.rig.machine.Offering) : c.collect = (none, c) := by
  have low : c.rig.machine.sending = low := by
    rcases duplex with idle | offering | pending
    · exact (Prod.mk.inj idle).1
    · exact absurd offering quiet
    · exact (Prod.mk.inj pending).1
  exact collect_of_sending_low low

variable [Store σ]

/-- The packet that an act puts on the serial line, as it is seen there: the flags change, and the packet
is on the pins. -/
def delivered? (c : Console σ) : Act → Option Packet
  | .deliver =>
    let after := (c.act .deliver).rig.machine
    if after.line = c.rig.machine.line then none else some after.pins
  | _ => none

/-- The packets put on the serial line in the course of acts, in order. -/
def delivered (c : Console σ) : List Act → List Packet
  | [] => []
  | a :: more => (c.delivered? a).toList ++ (c.act a).delivered more

/-- What goes on at the serial port in an act. -/
structure Exchange (c : Console σ) (a : Act) : Prop where
  /-- A free line takes the packet that has waited longest, on all of its pins. -/
  delivers : a = .deliver → c.rig.machine.Idle → ∀ p more, c.waiting = p :: more →
    (c.act a).rig.machine.Pending ∧ (c.act a).rig.machine.pins = p ∧ (c.act a).waiting = more
  /-- Otherwise nothing is delivered and nothing written. -/
  withholds : a = .deliver → ¬ c.rig.machine.Idle ∨ c.waiting = [] → c.act a = c
  /-- What is collected is what the pins offer. -/
  collects : a = .collect → ∀ p, c.collect.1 = some p ↔ c.rig.machine.Offering ∧ p = c.rig.machine.pins
  /-- Collecting frees the line, and leaves it alone if there is nothing to collect. -/
  frees : a = .collect → if c.rig.machine.Offering then (c.act a).rig.machine.Idle else c.act a = c
  /-- The pins change in a delivery, or one of them when the program sets it. -/
  pins : (c.act a).rig.machine.pins ≠ c.rig.machine.pins →
    a = .deliver ∨ a = .cycle ∧ ∃ pin, c.rig.machine.next? = some (.pout, pin)

theorem halfDuplex_deliver {c : Console σ} (duplex : c.rig.machine.HalfDuplex) :
    (c.act .deliver).rig.machine.HalfDuplex := by
  by_cases idle : c.rig.machine.Idle
  · cases queued : c.waiting with
    | nil => rwa [act_deliver_of_nil queued]
    | cons p more =>
      rw [act_deliver_of_idle idle queued]
      exact .inr (.inr (Machine.line_setSerial _ _ _))
  · rwa [act_deliver_of_not_idle idle]

theorem halfDuplex_collect {c : Console σ} (duplex : c.rig.machine.HalfDuplex) :
    (c.act .collect).rig.machine.HalfDuplex := by
  by_cases offering : c.rig.machine.Offering
  · rw [act, collect_of_line offering]
    exact .inl (Machine.line_setSerial _ _ _)
  · rwa [act, collect_of_not_offering duplex offering]

theorem halfDuplex_act {c : Console σ} {a : Act} (tame : a = .cycle → ¬ c.rig.machine.WritesAtPointer)
    (duplex : c.rig.machine.HalfDuplex) : (c.act a).rig.machine.HalfDuplex := by
  by_cases cycle : a = .cycle
  · subst cycle
    exact Rig.halfDuplex_cycle (tame rfl) duplex c.rig.host
  by_cases own : .serialState ∈ a.regions
  · rcases Act.eq_of_serialState_mem own with rfl | rfl
    · exact halfDuplex_deliver duplex
    · exact halfDuplex_collect duplex
  · exact duplex.congr (Machine.line_congr (sameIn_act (by decide) own fun same => absurd same cycle))

theorem halfDuplex_acts {c : Console σ} {as : List Act} (tame : c.Tame as)
    (duplex : c.rig.machine.HalfDuplex) : (c.acts as).rig.machine.HalfDuplex := by
  induction as generalizing c with
  | nil => exact duplex
  | cons a more ih => exact ih tame.tail (halfDuplex_act tame.head duplex)

/-- An act takes what it puts on the line from the head of the queue, and puts what is handed over at its
end. -/
theorem order_act (c : Console σ) (a : Act) :
    c.waiting ++ a.packet?.toList = (c.delivered? a).toList ++ (c.act a).waiting := by
  have elsewhere : a.packet? = none → a ≠ .deliver → c.delivered? a = none →
      c.waiting ++ a.packet?.toList = (c.delivered? a).toList ++ (c.act a).waiting := by
    intro packet other delivered
    rw [packet, delivered, waiting_act c packet other]
    exact List.append_nil _
  cases a with
  | queue p => rfl
  | deliver =>
    by_cases idle : c.rig.machine.Idle
    · cases queued : c.waiting with
      | nil =>
        have after := act_deliver_of_nil queued
        rw [delivered?, after, if_pos rfl, queued]
        rfl
      | cons p more =>
        have after := act_deliver_of_idle idle queued
        have changed : (c.act .deliver).rig.machine.line ≠ c.rig.machine.line := by
          rw [after, Machine.line_setSerial, idle]
          decide
        rw [delivered?, if_neg changed, after, Machine.pins_setSerial_writeIn]
        exact List.append_nil _
    · have after := act_deliver_of_not_idle idle
      rw [delivered?, after, if_pos rfl]
      exact List.append_nil _
  | _ => exact elsewhere rfl nofun rfl

theorem order_acts (c : Console σ) (as : List Act) :
    c.waiting ++ handed as = c.delivered as ++ (c.acts as).waiting := by
  induction as generalizing c with
  | nil => exact List.append_nil _
  | cons a more ih =>
    have first : handed (a :: more) = a.packet?.toList ++ handed more := handed_append [a] more
    calc c.waiting ++ handed (a :: more)
        = (c.waiting ++ a.packet?.toList) ++ handed more := by rw [first, List.append_assoc]
      _ = (c.delivered? a).toList ++ ((c.act a).waiting ++ handed more) := by
        rw [order_act, List.append_assoc]
      _ = c.delivered (a :: more) ++ (c.acts (a :: more)).waiting := by
        rw [ih, delivered, acts_cons, List.append_assoc]

theorem exchange {c : Console σ} {a : Act} (tame : a = .cycle → ¬ c.rig.machine.WritesAtPointer)
    (duplex : c.rig.machine.HalfDuplex) : c.Exchange a where
  delivers := by
    rintro rfl idle p more queued
    rw [act_deliver_of_idle idle queued]
    exact ⟨Machine.line_setSerial _ _ _, Machine.pins_setSerial_writeIn _ p _ _, rfl⟩
  withholds := by
    rintro rfl (busy | empty)
    · exact act_deliver_of_not_idle busy
    · exact act_deliver_of_nil empty
  collects := by
    rintro rfl p
    by_cases offering : c.rig.machine.Offering
    · rw [collect_of_line offering, Option.some_inj]
      exact ⟨fun same => ⟨offering, same.symm⟩, fun both => both.2.symm⟩
    · rw [collect_of_not_offering duplex offering]
      exact ⟨nofun, fun both => absurd both.1 offering⟩
  frees := by
    rintro rfl
    split
    · rename_i offering
      rw [act, collect_of_line offering]
      exact Machine.line_setSerial _ _ _
    · rename_i quiet
      rw [act, collect_of_not_offering duplex quiet]
  pins := by
    intro changed
    by_contra other
    obtain ⟨notDelivered, noPout⟩ := not_or.1 other
    have outside : .serialPins ∉ a.regions := fun own => notDelivered (Act.eq_of_serialPins_mem own)
    refine changed (Machine.pins_congr (sameIn_act (by decide) outside fun same => ?_))
    refine Machine.leaves_serialPins (Machine.spares_of_not_writesAtPointer (tame same) _) fun pin next => ?_
    exact noPout ⟨same, pin, next⟩

/-- From a loaded program on, whatever is handed over, delivered and collected between cycles that write
nothing at the memory pointer: at most one end of the line offers a packet, the packets that have been
delivered and those that still wait are the packets handed over, in order, and the port is used as it is
meant to be in every act. -/
theorem handshake (c : Console σ) (p : Program) {as : List Act} (tame : (c.load p).Tame as) :
    ((c.load p).acts as).rig.machine.HalfDuplex ∧
      (c.load p).delivered as ++ ((c.load p).acts as).waiting = handed as ∧
      ∀ before a, before ++ [a] <+: as → ((c.load p).acts before).Exchange a := by
  have idle : (c.load p).rig.machine.HalfDuplex := .inl (idle_load c p)
  refine ⟨halfDuplex_acts tame idle, (order_acts (c.load p) as).symm, fun before a reached => ?_⟩
  obtain ⟨rest, rfl⟩ := reached
  have early := tame.left
  exact exchange early.right.head (halfDuplex_acts early.left idle)

/-- Of two packets handed over, the second goes on the line once the program has received the first. -/
theorem handshake_of_two_packets :
    let c : Console Shelf := { rig := ⟨.fresh, ⟨.empty, #[]⟩⟩ }
    let p : Program := { name := "receiver", code := ⟨[.ofOpcode .recv 0, .ofOpcode .pin 1], .empty⟩ }
    let one : Packet := Vector.replicate 16 1
    let two : Packet := Vector.replicate 16 2
    let early : List Act := [.queue one, .queue two, .deliver, .deliver, .cycle, .cycle]
    (c.load p).Tame (early ++ [.deliver]) ∧ (c.load p).delivered (early ++ [.deliver]) = [one, two] ∧
      ((c.load p).acts early).rig.machine.get .xa = 1 ∧
      ((c.load p).acts (early ++ [.deliver])).rig.machine.pins = two := by
  intro c p one two early
  have tame := tame_load c (p := p) rfl (by decide) (early ++ [.deliver])
  obtain ⟨-, order, each⟩ := handshake c p tame
  have waiting : ((c.load p).acts early).waiting = [two] := by decide +kernel
  have idle : ((c.load p).acts early).rig.machine.Idle := by decide +kernel
  obtain ⟨-, pins, rest⟩ := (each early .deliver (List.prefix_refl _)).delivers rfl idle two [] waiting
  rw [← acts_snoc] at pins rest
  rw [rest, List.append_nil] at order
  exact ⟨tame, order, by decide +kernel, pins⟩

end Console

end PocketConsole
