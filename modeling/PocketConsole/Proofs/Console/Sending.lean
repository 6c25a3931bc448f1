import PocketConsole.Proofs.Console.SerialLine

namespace PocketConsole

namespace Packet

/-- The packet with the byte of a pin set, if there is such a pin. -/
def put (p : Packet) (pin v : UInt8) : Packet :=
  p.setIfInBounds pin.toNat v

/-- The packet with the bytes of pins set one after another. -/
def putAll (p : Packet) (writes : List (UInt8 × UInt8)) : Packet :=
  writes.foldl (fun p w => p.put w.1 w.2) p

end Packet

namespace Machine

theorem pins_writeIn (m : Machine) (pin v : UInt8) :
    (m.writeIn .serialPins pin.toNat [v]).pins = m.pins.put pin v := by
  apply Vector.ext
  intro i bound
  rw [Packet.put, Vector.getElem_setIfInBounds bound, pins, pins, Vector.getElem_ofFn, Vector.getElem_ofFn,
    memory_writeIn, Bank.getIn_writeIn_singleton _ (by decide) bound]
  exact if_congr eq_comm rfl rfl

/-- Only one operation changes the pins. -/
theorem leaves_serialPins {m : Machine} (spared : m.Spares .serialPins)
    (noPout : ∀ p, m.next? ≠ some (.pout, p)) : m.Leaves .serialPins := by
  refine ⟨spared, fun op p next own => ?_⟩
  have one : op = .pout := by
    revert own
    cases op <;> decide
  subst one
  exact noPout p next

end Machine

namespace Rig

variable {σ : Type} [Store σ]

theorem pins_cycle_of_pout {m : Machine} {pin : UInt8} (next : m.next? = some (.pout, pin))
    (host : Host σ) : (cycle ⟨m, host⟩).machine.pins = m.pins.put pin (m.get .xa) := by
  rw [cycle_of_next next, perform_eq _ (by decide) (by decide), ← Machine.get_past m (by decide) (by decide)]
  exact Machine.pins_writeIn m.past _ _

end Rig

namespace Console

variable {σ : Type}

/-- The pin that an act sets, and its byte. -/
def pout? (c : Console σ) : Act → Option (UInt8 × UInt8)
  | .cycle =>
    match c.rig.machine.next? with
    | some (.pout, pin) => some (pin, c.rig.machine.get .xa)
    | _ => none
  | _ => none

theorem pout?_cycle_of_ne {c : Console σ} (noPout : ∀ p, c.rig.machine.next? ≠ some (.pout, p)) :
    c.pout? .cycle = none := by
  rw [pout?]
  split
  · rename_i p next
    exact absurd next (noPout p)
  · rfl

theorem collect_of_line {c : Console σ} (line : c.rig.machine.line = (high, low)) :
    c.collect = (some c.rig.machine.pins, { c with
      rig := ⟨c.rig.machine.setSerial low low, c.rig.host.note (.packetOut c.rig.machine.pins.toList)⟩ }) := by
  obtain ⟨sending, receiving⟩ := Prod.mk.inj line
  have sent : (isHigh c.rig.machine.sending && !isHigh c.rig.machine.receiving) = true := by
    rw [sending, receiving]
    rfl
  rw [collect, if_pos sent]

theorem collect_of_sending_low {c : Console σ} (sending : c.rig.machine.sending = low) : c.collect = (none, c) := by
  have quiet : ¬ (isHigh c.rig.machine.sending && !isHigh c.rig.machine.receiving) = true := by
    rw [sending]
    exact Bool.false_ne_true
  rw [collect, if_neg quiet]

variable [Store σ]

/-- What the program puts on the pins in the course of acts. -/
def pouts (c : Console σ) : List Act → List (UInt8 × UInt8)
  | [] => []
  | a :: more => (c.pout? a).toList ++ (c.act a).pouts more

theorem pouts_append (c : Console σ) (first second : List Act) :
    c.pouts (first ++ second) = c.pouts first ++ (c.acts first).pouts second := by
  induction first generalizing c with
  | nil => rfl
  | cons a more ih => rw [List.cons_append, pouts, pouts, ih, acts_cons, List.append_assoc]

theorem pins_act {c : Console σ} {a : Act} (other : .serialPins ∉ a.regions)
    (spared : a = .cycle → c.rig.machine.Spares .serialPins) :
    (c.act a).rig.machine.pins = c.rig.machine.pins.putAll (c.pout? a).toList := by
  have kept : (a = .cycle → c.rig.machine.Leaves .serialPins) → c.pout? a = none →
      (c.act a).rig.machine.pins = c.rig.machine.pins.putAll (c.pout? a).toList := by
    intro leaves nothing
    rw [nothing]
    exact Machine.pins_congr (sameIn_act (by decide) other leaves)
  cases a with
  | cycle =>
    by_cases pout : ∃ pin, c.rig.machine.next? = some (.pout, pin)
    · obtain ⟨pin, next⟩ := pout
      have written : c.pout? .cycle = some (pin, c.rig.machine.get .xa) := by
        rw [pout?, next]
      rw [written]
      exact Rig.pins_cycle_of_pout next c.rig.host
    · have noPout : ∀ p, c.rig.machine.next? ≠ some (.pout, p) := fun p next => pout ⟨p, next⟩
      exact kept (fun _ => Machine.leaves_serialPins (spared rfl) noPout) (pout?_cycle_of_ne noPout)
  | _ => exact kept nofun rfl

/-- The pins after acts that deliver nothing: as they were, with what the program has put on them. -/
theorem pins_acts {c : Console σ} {as : List Act} (others : ∀ a ∈ as, .serialPins ∉ a.regions)
    (spared : c.EveryCycle (fun m => m.Spares .serialPins) as) :
    (c.acts as).rig.machine.pins = c.rig.machine.pins.putAll (c.pouts as) := by
  induction as generalizing c with
  | nil => rfl
  | cons a more ih =>
    have first := pins_act (others a List.mem_cons_self) spared.head
    have rest := ih (fun b member => others b (List.mem_cons_of_mem _ member)) spared.tail
    rw [acts_cons, rest, first, pouts, Packet.putAll, Packet.putAll, Packet.putAll, List.foldl_append]

/-- The serial line is as it was after acts that neither deliver nor collect, in the course of which the
program neither receives nor sends. -/
theorem line_acts {c : Console σ} {as : List Act} (others : ∀ a ∈ as, .serialState ∉ a.regions)
    (spared : c.EveryCycle (fun m => m.Spares .serialState) as) (noRecv : ¬ c.CarriesOut as .recv)
    (noSend : ¬ c.CarriesOut as .send) : (c.acts as).rig.machine.line = c.rig.machine.line := by
  refine Machine.line_congr (sameIn_acts (by decide) others fun before reached => ?_)
  exact Machine.leaves_serialState (spared before reached) (not_carriesOut_iff.1 noRecv before reached)
    (not_carriesOut_iff.1 noSend before reached)

/-- An operation is carried out for the last time in the course of acts between two parts of them. -/
structure Last (c : Console σ) (as : List Act) (op : Opcode) (before later : List Act) : Prop where
  split : as = before ++ .cycle :: later
  here : ∃ p, (c.acts before).rig.machine.next? = some (op, p)
  ended : ¬ (c.acts (before ++ [.cycle])).CarriesOut later op

theorem CarriesOut.last {c : Console σ} {as : List Act} {op : Opcode} (carried : c.CarriesOut as op) :
    ∃ before later, c.Last as op before later := by
  induction as generalizing c with
  | nil =>
    obtain ⟨before, p, reached, -⟩ := carried
    exact absurd (List.prefix_nil.1 reached) (by simp)
  | cons a more ih =>
    by_cases again : (c.act a).CarriesOut more op
    · obtain ⟨before, later, rfl, here, ended⟩ := ih again
      exact ⟨a :: before, later, rfl, here, ended⟩
    · obtain ⟨before, p, reached, next⟩ := carried
      cases before with
      | nil =>
        obtain ⟨rfl, -⟩ := List.cons_prefix_cons.1 reached
        exact ⟨[], more, rfl, ⟨p, next⟩, again⟩
      | cons b before =>
        obtain ⟨rfl, rest⟩ := List.cons_prefix_cons.1 reached
        exact absurd ⟨before, p, rest, next⟩ again

/-- An element that is not in the first part of a list stands in the second. -/
theorem split_of_not_mem_left {α : Type} {x : α} {first second before later : List α}
    (same : first ++ second = before ++ x :: later) (outside : x ∉ first) :
    ∃ lead, before = first ++ lead ∧ second = lead ++ x :: later := by
  rcases List.append_eq_append_iff.1 same with ⟨lead, early, rest⟩ | ⟨tail, early, rest⟩
  · exact ⟨lead, early, rest⟩
  · cases tail with
    | nil => exact ⟨[], by rw [early, List.append_nil, List.append_nil], rest.symm⟩
    | cons a tail =>
      obtain ⟨rfl, -⟩ := List.cons.inj rest
      rw [early] at outside
      exact absurd (List.mem_append_right _ List.mem_cons_self) outside

/-- An element that is not in the second part of a list stands in the first. -/
theorem split_of_not_mem_right {α : Type} {x : α} {first second before later : List α}
    (same : first ++ second = before ++ x :: later) (outside : x ∉ second) :
    ∃ rest, later = rest ++ second ∧ first = before ++ x :: rest := by
  rcases List.append_eq_append_iff.1 same with ⟨lead, -, late⟩ | ⟨tail, early, late⟩
  · rw [late] at outside
    exact absurd (List.mem_append_right _ List.mem_cons_self) outside
  · cases tail with
    | nil =>
      rw [List.nil_append] at late
      rw [← late] at outside
      exact absurd List.mem_cons_self outside
    | cons a tail =>
      obtain ⟨rfl, rest⟩ := List.cons.inj late
      exact ⟨tail, rest, early⟩

theorem Last.carriesOut {c : Console σ} {as : List Act} {op : Opcode} {before later : List Act}
    (last : c.Last as op before later) : c.CarriesOut as op := by
  obtain ⟨p, next⟩ := last.here
  exact ⟨before, p, ⟨later, by rw [last.split, List.append_assoc]; rfl⟩, next⟩

/-- A call in which a cycle runs has an end. Nothing but the program and the last act of the call, which
collects, works on the serial line after the cycle. -/
theorem call_of_split {c : Console σ} {elapsed : Duration} {input : Input} {before later : List Act}
    (split : c.script elapsed input = before ++ .cycle :: later) :
    ∃ inner, later = inner ++ [.collect] ∧
      (∀ a ∈ inner, ∀ own ∈ a.regions, own = .timer ∨ own = .buttons) ∧
      ∃ out, c.update elapsed input = some (out, c.acts (c.script elapsed input)) ∧
        out.packet = (c.acts (before ++ .cycle :: inner)).collect.1 := by
  have outside := cycle_not_mem_intake input
  cases acted : frameActs (c.acts (intake input)).rig elapsed with
  | none =>
    rw [← script_of_endless acted, split] at outside
    exact absurd (List.mem_append_right _ List.mem_cons_self) outside
  | some frame =>
    have whole : c.script elapsed input = intake input ++ ((frame ++ [.listen]) ++ [.collect]) := by
      rw [script_of_frameActs acted, List.append_assoc]
      rfl
    obtain ⟨lead, rfl, rest⟩ := split_of_not_mem_left (whole.symm.trans split) outside
    obtain ⟨inner, rfl, body⟩ := split_of_not_mem_right rest (by simp)
    obtain ⟨out, run, packet⟩ := update_of_frameActs acted
    refine ⟨inner, rfl, fun a member own changed => ?_, out, run, ?_⟩
    · have inside : a ∈ frame ++ [.listen] := by
        rw [body]
        exact List.mem_append_right _ (List.mem_cons_of_mem _ member)
      rcases List.mem_append.1 inside with framed | listened
      · exact eq_of_mem_regions_of_frameActs acted framed changed
      · rw [List.mem_singleton.1 listened] at changed
        cases changed
    · rw [packet, List.append_assoc, List.append_assoc, body]

theorem line_of_send {c : Console σ} {before : List Act} {p : UInt8}
    (send : (c.acts before).rig.machine.next? = some (.send, p)) :
    (c.acts (before ++ [.cycle])).rig.machine.line = (high, low) := by
  rw [acts_snoc]
  exact Rig.line_cycle_of_send send _

theorem line_of_recv {c : Console σ} {before : List Act} {p : UInt8}
    (recv : (c.acts before).rig.machine.next? = some (.recv, p)) :
    (c.acts (before ++ [.cycle])).rig.machine.line = (low, low) := by
  rw [acts_snoc]
  exact Rig.line_cycle_of_recv recv _

theorem pins_of_send {c : Console σ} {before : List Act} {p : UInt8}
    (send : (c.acts before).rig.machine.next? = some (.send, p))
    (spared : (c.acts before).rig.machine.Spares .serialPins) :
    (c.acts (before ++ [.cycle])).rig.machine.pins = (c.acts before).rig.machine.pins := by
  have noPout : ∀ q, (c.acts before).rig.machine.next? ≠ some (.pout, q) := by
    intro q next
    rw [send] at next
    cases next
  rw [acts_snoc]
  exact Machine.pins_congr (Rig.sameIn_cycle (by decide) (Machine.leaves_serialPins spared noPout) _)

/-- Acts between a cycle of a call and the last act of the call, which collects. -/
structure Inner (c : Console σ) (inner : List Act) : Prop where
  state : ∀ a ∈ inner, .serialState ∉ a.regions
  pins : ∀ a ∈ inner, .serialPins ∉ a.regions
  sparedState : c.EveryCycle (fun m => m.Spares .serialState) inner
  sparedPins : c.EveryCycle (fun m => m.Spares .serialPins) inner

/-- Without a send or a receive, what has been sent is collected, with what the program has put on the
pins since. -/
theorem Inner.collect_of_line_high {c : Console σ} {inner : List Act} (within : c.Inner inner)
    (line : c.rig.machine.line = (high, low)) (noRecv : ¬ c.CarriesOut inner .recv)
    (noSend : ¬ c.CarriesOut inner .send) :
    (c.acts inner).collect.1 = some (c.rig.machine.pins.putAll (c.pouts inner)) := by
  have kept := line_acts within.state within.sparedState noRecv noSend
  rw [collect_of_line (kept.trans line), pins_acts within.pins within.sparedPins]

/-- After a receive, there is nothing to collect. -/
theorem Inner.collect_of_recv {c : Console σ} {inner : List Act} (within : c.Inner inner)
    (recv : c.CarriesOut inner .recv) (noSend : ¬ c.CarriesOut inner .send) :
    (c.acts inner).collect.1 = none := by
  -- the last receive leaves the line free, and nothing changes it after that
  obtain ⟨early, late, rfl, ⟨p, next⟩, ended⟩ := recv.last
  have whole : early ++ .cycle :: late = (early ++ [.cycle]) ++ late := by simp
  have spared := within.sparedState
  have others := within.state
  rw [whole] at noSend spared others ⊢
  have noSend := not_carriesOut_iff.2 (not_carriesOut_iff.1 noSend).right
  have kept := line_acts (fun a member => others a (List.mem_append_right _ member)) spared.right ended noSend
  rw [acts_append, collect_of_sending_low (Prod.mk.inj (kept.trans (line_of_recv next))).1]

/-- What a call gives out is collected after acts that follow the last send. -/
theorem Last.collect {c after : Console σ} {elapsed : Duration} {input : Input} {out : Output}
    (spared : c.EveryCycle (fun m => m.Spares .serialState ∧ m.Spares .serialPins)
      (c.script elapsed input)) (run : c.update elapsed input = some (out, after))
    {before later : List Act} {op : Opcode} (last : c.Last (c.script elapsed input) op before later) :
    ∃ inner, later = inner ++ [.collect] ∧ (c.acts (before ++ [.cycle])).Inner inner ∧
      out.packet = ((c.acts (before ++ [.cycle])).acts inner).collect.1 := by
  obtain ⟨inner, rfl, others, given, called, packet⟩ := call_of_split last.split
  obtain ⟨rfl, -⟩ := Prod.mk.inj (Option.some.inj (called.symm.trans run))
  have whole : before ++ .cycle :: (inner ++ [.collect]) = (before ++ [.cycle]) ++ (inner ++ [.collect]) := by
    simp
  rw [last.split, whole] at spared
  have spared := spared.right.left
  refine ⟨inner, rfl, ⟨fun a member own => ?_, fun a member own => ?_, spared.imp fun _ both => both.1,
    spared.imp fun _ both => both.2⟩, ?_⟩
  · exact (others a member _ own).elim (absurd · (by decide)) (absurd · (by decide))
  · exact (others a member _ own).elim (absurd · (by decide)) (absurd · (by decide))
  · rw [packet, ← acts_append, List.append_assoc]
    rfl

theorem not_carriesOut_snoc {c : Console σ} {inner : List Act} {op : Opcode} :
    ¬ c.CarriesOut (inner ++ [.collect]) op ↔ ¬ c.CarriesOut inner op := by
  rw [not_carriesOut_iff, not_carriesOut_iff]
  exact ⟨fun absent => absent.left, fun absent => absent.append (.of_not_mem (by simp))⟩

/-- What a call gives out after the last send: the pins, unless the program has received since. -/
theorem packet_of_last {c after : Console σ} {elapsed : Duration} {input : Input} {out : Output}
    (spared : c.EveryCycle (fun m => m.Spares .serialState ∧ m.Spares .serialPins)
      (c.script elapsed input)) (run : c.update elapsed input = some (out, after))
    {before later : List Act} (last : c.Last (c.script elapsed input) .send before later) :
    (¬ (c.acts (before ++ [.cycle])).CarriesOut later .recv → out.packet = some
        ((c.acts before).rig.machine.pins.putAll ((c.acts (before ++ [.cycle])).pouts later))) ∧
      ((c.acts (before ++ [.cycle])).CarriesOut later .recv → out.packet = none) := by
  obtain ⟨inner, rfl, within, packet⟩ := last.collect spared run
  obtain ⟨p, send⟩ := last.here
  have noSend := not_carriesOut_snoc.1 last.ended
  have reached : before ++ [.cycle] <+: c.script elapsed input := by
    rw [last.split]
    exact ⟨inner ++ [.collect], by simp⟩
  constructor
  · intro noRecv
    have collects : (c.acts (before ++ [.cycle])).pouts (inner ++ [.collect]) =
        (c.acts (before ++ [.cycle])).pouts inner := by
      rw [pouts_append]
      exact List.append_nil _
    rw [packet, within.collect_of_line_high (line_of_send send) (not_carriesOut_snoc.1 noRecv) noSend,
      pins_of_send send (spared before reached).2, collects]
  · intro recv
    have recv := Classical.not_not.1 (mt not_carriesOut_snoc.2 (not_not_intro recv))
    rw [packet, within.collect_of_recv recv noSend]

/-- A program that sends, with 9 at hand, and then carries out one operation more. -/
def sender (op : Opcode) : Program where
  name := "sender"
  code := ⟨[.ofOpcode .set 9, .ofOpcode .send 0, .ofOpcode op 0], .empty⟩

theorem last_sender {op : Opcode} (second : op = .recv ∨ op = .pout) :
    let c : Console Shelf := { rig := ⟨.fresh, ⟨.empty, #[]⟩⟩ }
    (c.load (sender op)).EveryCycle (fun m => m.Spares .serialState ∧ m.Spares .serialPins)
        ((c.load (sender op)).script (.ofNanoseconds 34000000) {}) ∧
      (c.load (sender op)).Last ((c.load (sender op)).script (.ofNanoseconds 34000000) {}) .send
        [.deliver, .schedule .afterTick, .countTick, .cycle]
        [.cycle, .cycle, .draw, .age, .listen, .collect] := by
  intro c
  have plain : ∀ t ∈ (sender op).code.tokens, t.op? ≠ some .poke ∧ t.op? ≠ some .read := by
    rcases second with rfl | rfl <;> decide
  have tame := tame_load c rfl plain ((c.load (sender op)).script (.ofNanoseconds 34000000) {})
  have ticked : (Rig.tick ⟨{ (c.load (sender op)).rig.machine with scheduler := .afterTick },
      (c.load (sender op)).rig.host⟩).1 = 4 := by
    rcases second with rfl | rfl <;> decide +kernel
  refine ⟨fun before reached =>
    ⟨tame.spares .serialState before reached, tame.spares .serialPins before reached⟩,
    script_of_fresh rfl rfl rfl ticked, ⟨0, ?_⟩, ?_⟩
  · rcases second with rfl | rfl <;> decide +kernel
  · rcases second with rfl | rfl <;> decide +kernel

/-- If the program sends in the course of a call, then the call has an end, and the last send decides
what it gives out: the packet that was on the pins, with what the program has put on them since, unless
the program has received since; then there is no packet. -/
theorem packet_of_sent {c : Console σ} {elapsed : Duration} {input : Input}
    (sent : c.CarriesOut (c.script elapsed input) .send)
    (spared : c.EveryCycle (fun m => m.Spares .serialState ∧ m.Spares .serialPins)
      (c.script elapsed input)) :
    ∃ out after, c.update elapsed input = some (out, after) ∧
      (∃ before later, c.Last (c.script elapsed input) .send before later) ∧
      ∀ before later, c.Last (c.script elapsed input) .send before later →
        (¬ (c.acts (before ++ [.cycle])).CarriesOut later .recv → out.packet = some
            ((c.acts before).rig.machine.pins.putAll ((c.acts (before ++ [.cycle])).pouts later))) ∧
          ((c.acts (before ++ [.cycle])).CarriesOut later .recv → out.packet = none) := by
  obtain ⟨before, later, last⟩ := sent.last
  obtain ⟨inner, -, -, out, run, -⟩ := call_of_split last.split
  exact ⟨out, _, run, ⟨before, later, last⟩, fun _ _ latest => packet_of_last spared run latest⟩

/-- A packet is collected with the byte that the program has put on a pin after sending it. -/
theorem packet_of_sent_then_pout :
    let c : Console Shelf := { rig := ⟨.fresh, ⟨.empty, #[]⟩⟩ }
    ∃ out after, (c.load (sender .pout)).update (.ofNanoseconds 34000000) {} = some (out, after) ∧
      out.packet = some ((Vector.replicate 16 0).set 0 9) := by
  intro c
  obtain ⟨spared, last⟩ := last_sender (.inr rfl : Opcode.pout = .recv ∨ Opcode.pout = .pout)
  obtain ⟨out, after, run, -, decided⟩ := packet_of_sent last.carriesOut spared
  refine ⟨out, after, run, ((decided _ _ last).1 (by decide +kernel)).trans (congrArg some ?_)⟩
  decide +kernel

/-- Not every call that sends gives out a packet, and not every packet is what was on the pins when it
was sent: a receive frees the line, and the pins can be written to until they are collected. -/
theorem sent_packet_lost_or_altered :
    (¬ ∀ (c : Console Shelf) (elapsed : Duration) (input : Input),
      c.EveryCycle (fun m => m.Spares .serialState ∧ m.Spares .serialPins) (c.script elapsed input) →
      c.CarriesOut (c.script elapsed input) .send →
      ∀ out after, c.update elapsed input = some (out, after) → out.packet.isSome = true) ∧
    ¬ ∀ (c : Console Shelf) (elapsed : Duration) (input : Input),
      c.EveryCycle (fun m => m.Spares .serialState ∧ m.Spares .serialPins) (c.script elapsed input) →
      ∀ before later, c.Last (c.script elapsed input) .send before later →
        ∀ out after, c.update elapsed input = some (out, after) →
          ∀ p, out.packet = some p → p = (c.acts before).rig.machine.pins := by
  constructor
  · intro given
    obtain ⟨spared, last⟩ := last_sender (.inl rfl : Opcode.recv = .recv ∨ Opcode.recv = .pout)
    obtain ⟨inner, -, -, out, run, -⟩ := call_of_split last.split
    have lost := (packet_of_last spared run last).2 (by decide +kernel)
    have kept := given _ _ _ spared last.carriesOut out _ run
    rw [lost] at kept
    cases kept
  · intro given
    obtain ⟨spared, last⟩ := last_sender (.inr rfl : Opcode.pout = .recv ∨ Opcode.pout = .pout)
    obtain ⟨inner, -, -, out, run, -⟩ := call_of_split last.split
    have altered := (packet_of_last spared run last).1 (by decide +kernel)
    have same := given _ _ _ spared _ _ last out _ run _ altered
    revert same
    decide +kernel

end Console

end PocketConsole
