import PocketConsole.Machine.Execute
import PocketConsole.SaveRecord

namespace PocketConsole

/-- A machine and the host it calls out to. -/
structure Rig (σ : Type) where
  machine : Machine
  host : Host σ

namespace Rig

variable {σ : Type}

/-- The rig after an event. -/
def note (r : Rig σ) (e : Event) : Rig σ :=
  { r with host := r.host.note e }

/-- The rig with a program just loaded. -/
def load (r : Rig σ) (p : Program) : Rig σ where
  machine := .ofProgram p
  host := r.host.note (.loaded p.name p.code.tokens.length p.code.labels.size)

/-- The opcode byte at the program counter. -/
def opcode (r : Rig σ) : UInt8 :=
  r.machine.storage.get (2 * r.machine.index.toNat)

variable [Store σ]

/-- Keeps the save window under the program's name, beside what others have saved. -/
def save (r : Rig σ) : Rig σ :=
  match SaveRecord.read r.host with
  | (record, host) =>
    { r with host := (record.insert r.machine.name (r.machine.memory.slice .saveData)).write host }

/-- Fills the save window with what is kept under the program's name, and with zeros. -/
def restore (r : Rig σ) : Rig σ :=
  match SaveRecord.read r.host with
  | (record, host) =>
    let blank := r.machine.writeIn .saveData 0 (List.replicate Region.saveData.len 0)
    let kept := (record.get? r.machine.name).getD []
    ⟨blank.writeIn .saveData 0 kept, host⟩

/-- Carries out an operation. -/
def perform (r : Rig σ) (op : Opcode) (parameter : UInt8) : Rig σ :=
  match op with
  | .save => r.save
  | .load => r.restore
  | op =>
    match r with
    | ⟨m, host⟩ =>
      let said := m.report op parameter
      ⟨m.perform op parameter, host.noteAll said.toList⟩

/-- One cycle: a sleeping machine sleeps a cycle less, an empty cell leads to the origin, any other
cell is carried out after the program counter has moved on. An unknown opcode does nothing. -/
def cycle (r : Rig σ) : Rig σ :=
  match r with
  | ⟨m, host⟩ =>
    let index := m.index
    let opcode := m.storage.get (2 * index.toNat)
    let asleep := m.get .sc
    if asleep ≠ 0 then ⟨m.set .sc (asleep.toNat - 1), host⟩
    else if opcode = 0 then ⟨m.goto .origin, host.note (.halted index)⟩
    else
      let parameter := m.storage.get (2 * index.toNat + 1)
      let moved := m.goto (.ofUInt16 (index + 1))
      match Opcode.ofByte? opcode with
      | some op => perform ⟨moved, host⟩ op parameter
      | none => ⟨moved, host⟩

/-- Up to a number of cycles, and how many there were: a cycle at an empty cell is the last. -/
def cycles : Nat → Rig σ → Nat × Rig σ
  | 0, r => (0, r)
  | n + 1, r =>
    if r.opcode = 0 then (1, r.cycle)
    else
      match cycles n r.cycle with
      | (done, after) => (done + 1, after)

/-- Counts a tick, unless the timer is paused. -/
def countTick (r : Rig σ) : Rig σ :=
  match r with
  | ⟨m, host⟩ =>
    if isHigh (m.get .tp) then ⟨m, host⟩
    else
      let next := m.timer + 1
      ⟨m.writeIn .timer 0 [next], host⟩

/-- One tick, and how many cycles it took. -/
def tick (r : Rig σ) : Nat × Rig σ :=
  cycles cyclesPerTick r.countTick

/-- A number of ticks, and how many cycles they took on top of those already counted. -/
def ticks (done : Nat) : Nat → Rig σ → Nat × Rig σ
  | 0, r => (done, r)
  | n + 1, r =>
    match r.tick with
    | (k, after) => ticks (done + k) n after

/-- Passes time: a running machine runs the ticks that are due, a stopped one takes no notice. There
is no answer where the ticks have no end. -/
def advance (r : Rig σ) (elapsed : Duration) : Option (Nat × Rig σ) :=
  match r with
  | ⟨m, host⟩ =>
    if m.running then
      match m.scheduler.advance elapsed with
      | none => none
      | some (due, scheduler) => some (ticks 0 due ⟨{ m with scheduler := scheduler }, host⟩)
    else some (0, ⟨m, host⟩)

/-- What a frame leaves behind. -/
structure Frame (σ : Type) where
  rig : Rig σ
  cycles : Nat
  /-- The picture at the end of the frame, if it has been drawn. -/
  picture : Option (Vector UInt8 512)

/-- One frame: passes time, then draws; a stopped machine does neither. -/
def frame (r : Rig σ) (elapsed : Duration) : Option (Frame σ) :=
  if r.machine.running then
    (r.advance elapsed).map fun (n, after) => ⟨after, n, some after.machine.video⟩
  else some ⟨r, 0, none⟩

end Rig

end PocketConsole
