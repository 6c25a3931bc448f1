import PocketConsole.Proofs.Console.Presses

namespace PocketConsole

/-- The regions through which the peripherals reach a machine that stands still. -/
def Region.peripheral : List Region :=
  [buttons, serialState, serialPins]

namespace Machine

/-- The second machine is the first after it has stood still: its peripherals may have written to their regions, and
nothing else has happened to it. -/
structure Hears (m n : Machine) : Prop where
  alike : m.Alike n
  registers : n.registers = m.registers
  memory : ∀ x, (∀ own ∈ Region.peripheral, ¬ own.Contains x) → n.memory.get x = m.memory.get x
  /-- No button comes to be held, so a button just pressed does not age. -/
  held : ∀ b : Button, n.button b.index = Button.held → m.button b.index = Button.held

namespace Hears

variable {m n : Machine}

theorem refl (m : Machine) : m.Hears m :=
  ⟨.refl m, rfl, fun _ _ => rfl, fun _ held => held⟩

theorem trans {k : Machine} (first : m.Hears n) (second : n.Hears k) : m.Hears k where
  alike := first.alike.trans second.alike
  registers := second.registers.trans first.registers
  memory := fun x outside => (second.memory x outside).trans (first.memory x outside)
  held := fun b held => first.held b (second.held b held)

/-- A write into one of the regions is heard, as long as it makes no button held. -/
theorem writeIn {own : Region} (peripheral : own ∈ Region.peripheral) (offset : Nat) (data : List UInt8)
    (held : ∀ b : Button, (m.writeIn own offset data).button b.index = Button.held → m.button b.index = Button.held) :
    m.Hears (m.writeIn own offset data) where
  alike := .writeIn m own offset data
  registers := rfl
  memory := fun _ outside => Bank.get_writeIn_of_outside m.memory (outside own peripheral) offset data
  held := held

theorem press (m : Machine) (b : Button) : m.Hears (m.press b) := by
  have held : ∀ a : Button, (m.press b).button a.index = Button.held → m.button a.index = Button.held := by
    intro a down
    rw [button_press] at down
    split at down
    · exact absurd down (by decide)
    · exact down
  unfold Machine.press at held ⊢
  split
  · rename_i up
    rw [if_pos up] at held
    exact writeIn (by decide) _ _ held
  · exact refl m

theorem letGo (m : Machine) (b : Button) : m.Hears (m.letGo b) := by
  refine writeIn (by decide) _ _ fun a down => ?_
  have released : (m.letGo b).button a.index = Button.held := down
  rw [button_letGo] at released
  split at released
  · exact absurd released (by decide)
  · exact released

theorem writeSerial (m : Machine) {own : Region} (serial : own = .serialState ∨ own = .serialPins) (offset : Nat)
    (data : List UInt8) : m.Hears (m.writeIn own offset data) := by
  have peripheral : own ∈ Region.peripheral := by rcases serial with rfl | rfl <;> decide
  have other : Region.buttons ≠ own := by rcases serial with rfl | rfl <;> decide
  have named : own ∈ Region.all := by rcases serial with rfl | rfl <;> decide
  refine writeIn peripheral offset data fun b down => ?_
  have same := Bank.getIn_congr (m.sameIn_writeIn (by decide) named other offset data) b.index
  exact same.symm.trans down

theorem setSerial (m : Machine) (sending receiving : UInt8) : m.Hears (m.setSerial sending receiving) :=
  writeSerial m (.inl rfl) 0 [sending, receiving]

/-- Once it runs again, only its memory tells that a machine has stood still. -/
theorem run_eq (hears : m.Hears n) : n.run = { m.run with memory := n.memory } := by
  obtain ⟨⟨storage, name, labels, -, scheduler⟩, registers, -, -⟩ := hears
  simp only [run, storage, name, labels, scheduler, registers]

end Hears

end Machine

namespace Console

variable {σ : Type}

/-- The second console is the first after its machine has stood still. -/
structure Hears (c d : Console σ) : Prop where
  machine : c.rig.machine.Hears d.rig.machine
  screen : d.screen = c.screen
  store : d.rig.host.store = c.rig.host.store

/-- The acts of peripherals other than those that belong to a frame. -/
def Act.Peripheral : Act → Prop
  | .press _ | .letGo _ | .queue _ | .deliver | .listen | .collect => True
  | .schedule _ | .countTick | .cycle | .draw | .age => False

namespace Hears

theorem refl (c : Console σ) : c.Hears c :=
  ⟨.refl _, rfl, rfl⟩

theorem trans {c d e : Console σ} (first : c.Hears d) (second : d.Hears e) : c.Hears e where
  machine := first.machine.trans second.machine
  screen := second.screen.trans first.screen
  store := second.store.trans first.store

theorem running {c d : Console σ} (hears : c.Hears d) : d.rig.machine.running = c.rig.machine.running :=
  hears.machine.alike.running

end Hears

variable [Store σ]

theorem hears_act (c : Console σ) {a : Act} (peripheral : a.Peripheral) : c.Hears (c.act a) := by
  cases a with
  | press b => exact ⟨.press _ b, rfl, rfl⟩
  | letGo b => exact ⟨.letGo _ b, rfl, rfl⟩
  | queue p => exact ⟨.refl _, rfl, rfl⟩
  | deliver =>
    rw [act, deliver]
    dsimp only
    split
    · split
      · exact .refl c
      · exact ⟨(Machine.Hears.writeSerial _ (.inr rfl) _ _).trans (.setSerial _ _ _), rfl, rfl⟩
    · exact .refl c
  | listen =>
    rw [act, listen]
    split
    · exact .refl c
    · exact ⟨.refl _, rfl, rfl⟩
  | collect =>
    rw [act, collect]
    dsimp only
    split
    · exact ⟨.setSerial _ _ _, rfl, rfl⟩
    · exact .refl c
  | schedule | countTick | cycle | draw | age => exact peripheral.elim

theorem hears_acts (c : Console σ) {as : List Act} (peripheral : ∀ a ∈ as, a.Peripheral) : c.Hears (c.acts as) := by
  induction as generalizing c with
  | nil => exact .refl c
  | cons a more ih =>
    have first := c.hears_act (peripheral a List.mem_cons_self)
    exact first.trans (ih (c.act a) fun b member => peripheral b (List.mem_cons_of_mem a member))

omit [Store σ] in
theorem peripheral_of_mem_intake {input : Input} {a : Act} (member : a ∈ intake input) : a.Peripheral := by
  simp only [intake, List.mem_append, List.mem_map, List.mem_singleton] at member
  rcases member with ((⟨b, -, rfl⟩ | ⟨b, -, rfl⟩) | ⟨p, -, rfl⟩) | rfl <;> trivial

theorem frame_of_stopped {c : Console σ} (stopped : c.rig.machine.running = false) (elapsed : Duration) :
    c.frame elapsed = some (0, c) := by
  obtain ⟨⟨m, host⟩, screen, tone, waiting⟩ := c
  have still : Rig.frame ⟨m, host⟩ elapsed = some ⟨⟨m, host⟩, 0, none⟩ := if_neg (Bool.eq_false_iff.1 stopped)
  unfold frame
  dsimp only
  rw [still]
  dsimp only
  rw [if_neg (Bool.eq_false_iff.1 stopped)]
  rfl

/-- A call on a machine that stands still has an end, whatever time has passed, and runs nothing. -/
theorem update_of_stopped {c : Console σ} (stopped : c.rig.machine.running = false) (elapsed : Duration)
    (input : Input) : ∃ out next, c.update elapsed input = some (out, next) ∧ out.cycles = 0 ∧ c.Hears next := by
  have taken : c.Hears (c.acts (intake input)) := c.hears_acts fun _ member => peripheral_of_mem_intake member
  have framed := frame_of_stopped (taken.running.trans stopped) elapsed
  have heard := ((c.acts (intake input)).hears_act (a := .listen) trivial).trans
    ((c.acts (intake input)).listen.hears_act (a := .collect) trivial)
  rw [update, ← acts_intake]
  dsimp only
  rw [framed]
  exact ⟨_, _, rfl, rfl, taken.trans heard⟩

theorem updates_of_stopped {c : Console σ} (stopped : c.rig.machine.running = false)
    (calls : List (Duration × Input)) : ∃ after, c.updates calls = some after ∧ c.Hears after := by
  induction calls generalizing c with
  | nil => exact ⟨c, rfl, .refl c⟩
  | cons call more ih =>
    obtain ⟨elapsed, input⟩ := call
    obtain ⟨out, next, run, -, first⟩ := update_of_stopped stopped elapsed input
    obtain ⟨after, later, rest⟩ := ih (first.running.trans stopped)
    refine ⟨after, ?_, first.trans rest⟩
    rw [updates, run, Option.bind_some]
    exact later

/-- A console whose machine stands still hears its peripherals and does nothing else, however often it is called and
whatever times pass. Every call reports no cycles. A machine set running again goes on with the registers and the time
left over that it had when it was stopped. -/
theorem hears_while_stopped {c : Console σ} (stopped : c.rig.machine.running = false)
    (calls : List (Duration × Input)) :
    ∃ after, c.updates calls = some after ∧ c.Hears after ∧
      after.rig.machine.run = { c.rig.machine.run with memory := after.rig.machine.memory } ∧
      ∀ elapsed input, ∃ out next, after.update elapsed input = some (out, next) ∧ out.cycles = 0 ∧
        after.Hears next := by
  obtain ⟨after, run, hears⟩ := updates_of_stopped stopped calls
  exact ⟨after, run, hears, hears.machine.run_eq, update_of_stopped (hears.running.trans stopped)⟩

/-- A machine is stopped with a button just pressed. A packet comes, the button is pressed again and another one let go
in the hours that follow, and the button is still not held; the machine goes on as it was. -/
theorem hears_while_stopped_with_button :
    let m := ((Machine.ofProgram (.single .btn)).press .left).pause
    let c : Console Shelf := { rig := ⟨m, ⟨.empty, #[]⟩⟩ }
    let calls : List (Duration × Input) :=
      [(⟨7200, 0⟩, { pressed := [.left], packet := some (Vector.replicate 16 7) }), (.zero, { released := [.right] })]
    c.rig.machine.running = false ∧ ∃ after, c.updates calls = some after ∧
      after.rig.machine.button Button.left.index ≠ Button.held ∧
      after.rig.machine.run.registers = m.registers ∧ after.rig.machine.run.scheduler = m.scheduler ∧
      ∃ out next, after.update ⟨7200, 0⟩ { released := [.left] } = some (out, next) ∧ out.cycles = 0 := by
  intro m c calls
  have stopped : c.rig.machine.running = false := rfl
  have pressed : ∀ n : Machine, n.button Button.left.index = Button.up →
      (n.press .left).pause.button Button.left.index = Button.justPressed :=
    fun n up => (n.button_press .left .left).trans (if_pos ⟨rfl, up⟩)
  have before : m.button Button.left.index = Button.justPressed := pressed _ (button_load c (.single .btn) _)
  clear_value m
  obtain ⟨after, run, hears, resumed, later⟩ := hears_while_stopped stopped calls
  obtain ⟨out, next, called, none, -⟩ := later ⟨7200, 0⟩ { released := [.left] }
  have registers : after.rig.machine.run.registers = m.registers := by rw [resumed]; rfl
  have scheduler : after.rig.machine.run.scheduler = m.scheduler := by rw [resumed]; rfl
  refine ⟨stopped, after, run, fun held => ?_, registers, scheduler, out, next, called, none⟩
  exact absurd (before.symm.trans (hears.machine.held .left held)) (by decide)

end Console

end PocketConsole
