import PocketConsole.Console.Basic
import PocketConsole.Proofs.Machine.Contents
import PocketConsole.Proofs.Machine.Continuation
import PocketConsole.Proofs.Machine.Time

namespace PocketConsole

namespace Console

variable {σ : Type}

/-- What a call of a console does, one thing after another. -/
inductive Act
  | press (b : Button)
  | letGo (b : Button)
  | queue (p : Packet)
  | deliver
  /-- Time has passed. -/
  | schedule (s : Scheduler)
  | countTick
  | cycle
  | draw
  | age
  | listen
  | collect

/-- The console with its machine changed. -/
def onMachine (c : Console σ) (f : Machine → Machine) : Console σ :=
  { c with rig := ⟨f c.rig.machine, c.rig.host⟩ }

/-- The console after an act. -/
def act [Store σ] (c : Console σ) : Act → Console σ
  | .press b => c.onMachine fun m => m.press b
  | .letGo b => c.onMachine fun m => m.letGo b
  | .queue p => c.queue p
  | .deliver => c.deliver
  | .schedule s => c.onMachine fun m => { m with scheduler := s }
  | .countTick => { c with rig := c.rig.countTick }
  | .cycle => { c with rig := c.rig.cycle }
  | .draw => { c with screen := c.screen.draw c.rig.machine.video }
  | .age => c.onMachine Machine.ageButtons
  | .listen => c.listen
  | .collect => c.collect.2

/-- The console after several acts. -/
def acts [Store σ] (c : Console σ) (as : List Act) : Console σ :=
  as.foldl act c

/-- The acts by which a console takes in what has come. -/
def intake (input : Input) : List Act :=
  input.pressed.map .press ++ input.released.map .letGo ++ input.packet.toList.map .queue ++ [.deliver]

variable [Store σ]

/-- The acts of a number of ticks. -/
def tickActs : Nat → Rig σ → List Act
  | 0, _ => []
  | n + 1, r => .countTick :: List.replicate r.tick.1 .cycle ++ tickActs n r.tick.2

/-- The acts of a frame, if it has an end. -/
def frameActs (r : Rig σ) (elapsed : Duration) : Option (List Act) :=
  if r.machine.running then
    (r.machine.scheduler.advance elapsed).map fun (due, s) =>
      .schedule s :: tickActs due ⟨{ r.machine with scheduler := s }, r.host⟩ ++ [.draw, .age]
  else some []

/-- The acts of a call: those before the frame, and if the frame has an end those that follow. -/
def script (c : Console σ) (elapsed : Duration) (input : Input) : List Act :=
  intake input ++
    match frameActs (c.acts (intake input)).rig elapsed with
    | some frame => frame ++ [.listen, .collect]
    | none => []

/-- The acts of calls one after another, up to one that has no end. -/
def history (c : Console σ) : List (Duration × Input) → List Act
  | [] => []
  | (elapsed, input) :: more =>
    c.script elapsed input ++
      match c.update elapsed input with
      | some (_, after) => after.history more
      | none => []

/-- The console after calls one after another, if they all have an end. -/
def updates (c : Console σ) : List (Duration × Input) → Option (Console σ)
  | [] => some c
  | (elapsed, input) :: more => (c.update elapsed input).bind fun (_, after) => after.updates more

theorem frameActs_of_running {r : Rig σ} (running : r.machine.running = true) {elapsed : Duration} {due : Nat}
    {s : Scheduler} (advanced : r.machine.scheduler.advance elapsed = some (due, s)) :
    frameActs r elapsed = some
      (.schedule s :: tickActs due ⟨{ r.machine with scheduler := s }, r.host⟩ ++ [.draw, .age]) := by
  rw [frameActs, if_pos running, advanced, Option.map_some]

theorem frameActs_of_endless {r : Rig σ} (running : r.machine.running = true) {elapsed : Duration}
    (endless : r.machine.scheduler.advance elapsed = none) : frameActs r elapsed = none := by
  rw [frameActs, if_pos running, endless, Option.map_none]

theorem acts_cons (c : Console σ) (a : Act) (as : List Act) : c.acts (a :: as) = (c.act a).acts as := rfl

theorem acts_append (c : Console σ) (first second : List Act) :
    c.acts (first ++ second) = (c.acts first).acts second :=
  List.foldl_append

theorem acts_snoc (c : Console σ) (moment : List Act) (a : Act) :
    c.acts (moment ++ [a]) = (c.acts moment).act a := by
  rw [acts_append]
  rfl

theorem acts_map_onMachine {β : Type} {g : β → Act} {f : Machine → β → Machine}
    (each : ∀ (c : Console σ) b, c.act (g b) = c.onMachine fun m => f m b) (bs : List β)
    (c : Console σ) :
    c.acts (bs.map g) = c.onMachine fun m => bs.foldl f m := by
  induction bs generalizing c with
  | nil => rfl
  | cons b more ih =>
    rw [List.map_cons, acts_cons, ih, each]
    rfl

theorem acts_intake (c : Console σ) (input : Input) :
    c.acts (intake input) =
      ((input.packet.map (c.takeButtons input).queue).getD (c.takeButtons input)).deliver := by
  have buttons : (c.acts (input.pressed.map .press)).acts (input.released.map .letGo) =
      c.takeButtons input := by
    rw [acts_map_onMachine (fun _ _ => rfl), acts_map_onMachine (fun _ _ => rfl)]
    rfl
  rw [intake, acts_append, acts_append, acts_append, buttons]
  cases input.packet <;> rfl

theorem acts_replicate_cycle (n : Nat) (c : Console σ) :
    c.acts (List.replicate n .cycle) = { c with rig := Rig.cycle^[n] c.rig } := by
  induction n generalizing c with
  | zero => rfl
  | succ n ih => exact ih (c.act .cycle)

theorem acts_tickActs (done n : Nat) (c : Console σ) :
    c.acts (tickActs n c.rig) = { c with rig := (Rig.ticks done n c.rig).2 } := by
  induction n generalizing done c with
  | zero => rfl
  | succ n ih =>
    have ticked : c.acts (.countTick :: List.replicate c.rig.tick.1 .cycle) =
        { c with rig := c.rig.tick.2 } := by
      have counted : c.act .countTick = { c with rig := c.rig.countTick } := rfl
      rw [acts_cons, counted, acts_replicate_cycle, Rig.iterate_cycle_eq_tick]
    rw [tickActs, acts_append, ticked, Rig.ticks_succ]
    exact ih (done + c.rig.tick.1) { c with rig := c.rig.tick.2 }

/-- A frame does its acts. -/
theorem map_frame (c : Console σ) (elapsed : Duration) :
    (c.frame elapsed).map Prod.snd = (frameActs c.rig elapsed).map c.acts := by
  obtain ⟨⟨m, host⟩, screen, tone, waiting⟩ := c
  unfold frame
  dsimp only
  by_cases running : m.running = true
  · cases advanced : m.scheduler.advance elapsed with
    | none =>
      have endless := frameActs_of_endless (r := ⟨m, host⟩) running advanced
      rw [Rig.frame_of_endless running advanced, endless]
      rfl
    | some passed =>
      obtain ⟨due, s⟩ := passed
      have ran := (Rig.alike_ticks 0 due ⟨{ m with scheduler := s }, host⟩).running
      have ticked := acts_tickActs 0 due
        (⟨⟨{ m with scheduler := s }, host⟩, screen, tone, waiting⟩ : Console σ)
      have script := frameActs_of_running (r := ⟨m, host⟩) running advanced
      have scheduled : (⟨⟨m, host⟩, screen, tone, waiting⟩ : Console σ).act (.schedule s) =
          ⟨⟨{ m with scheduler := s }, host⟩, screen, tone, waiting⟩ := rfl
      rw [Rig.frame_of_running running advanced, script]
      refine congrArg some ?_
      rw [List.cons_append, acts_cons, acts_append, scheduled, ticked]
      -- the draw and the age that follow do not depend on how the ticks were run
      generalize Rig.ticks 0 due ⟨{ m with scheduler := s }, host⟩ = ticks at ran
      dsimp only
      rw [if_pos (ran.trans running)]
      rfl
  · have still : frameActs (⟨m, host⟩ : Rig σ) elapsed = some [] := if_neg running
    rw [Rig.frame, if_neg running, still]
    dsimp only
    rw [if_neg running]
    rfl

theorem script_of_frameActs {c : Console σ} {elapsed : Duration} {input : Input} {frame : List Act}
    (acted : frameActs (c.acts (intake input)).rig elapsed = some frame) :
    c.script elapsed input = intake input ++ (frame ++ [.listen, .collect]) := by
  rw [script, acted]

theorem script_of_endless {c : Console σ} {elapsed : Duration} {input : Input}
    (endless : frameActs (c.acts (intake input)).rig elapsed = none) :
    c.script elapsed input = intake input := by
  rw [script, endless, List.append_nil]

/-- A call whose frame has an end does its acts, and gives out the packet that its last act takes off
the serial line. -/
theorem update_of_frameActs {c : Console σ} {elapsed : Duration} {input : Input} {frame : List Act}
    (acted : frameActs (c.acts (intake input)).rig elapsed = some frame) :
    ∃ out, c.update elapsed input = some (out, c.acts (c.script elapsed input)) ∧
      out.packet = (c.acts (intake input ++ frame ++ [.listen])).collect.1 := by
  have framed := map_frame (c.acts (intake input)) elapsed
  rw [acted, Option.map_some, Option.map_eq_some_iff] at framed
  obtain ⟨⟨cycles, after⟩, framed, rfl⟩ := framed
  rw [script_of_frameActs acted, acts_append, acts_append, List.append_assoc, acts_append, acts_append, update,
    ← acts_intake]
  dsimp only
  rw [framed]
  exact ⟨_, rfl, rfl⟩

theorem frameActs_of_update {c after : Console σ} {elapsed : Duration} {input : Input} {out : Output}
    (run : c.update elapsed input = some (out, after)) :
    ∃ frame, frameActs (c.acts (intake input)).rig elapsed = some frame := by
  have framed := map_frame (c.acts (intake input)) elapsed
  unfold update at run
  dsimp only at run
  rw [← acts_intake] at run
  split at run
  · cases run
  · rename_i passed
    rw [passed, Option.map_some] at framed
    obtain ⟨frame, acted, -⟩ := Option.map_eq_some_iff.1 framed.symm
    exact ⟨frame, acted⟩

/-- A call does its acts. -/
theorem eq_acts_of_update {c after : Console σ} {elapsed : Duration} {input : Input} {out : Output}
    (run : c.update elapsed input = some (out, after)) : c.acts (c.script elapsed input) = after := by
  obtain ⟨frame, acted⟩ := frameActs_of_update run
  obtain ⟨given, called, -⟩ := update_of_frameActs acted
  exact (Prod.mk.inj (Option.some.inj (called.symm.trans run))).2

/-- Calls one after another do their acts. -/
theorem eq_acts_of_updates {c after : Console σ} {calls : List (Duration × Input)}
    (run : c.updates calls = some after) : c.acts (c.history calls) = after := by
  induction calls generalizing c with
  | nil => exact Option.some.inj run
  | cons call more ih =>
    obtain ⟨elapsed, input⟩ := call
    rw [updates, Option.bind_eq_some_iff] at run
    obtain ⟨⟨out, between⟩, first, rest⟩ := run
    rw [history, first, acts_append, eq_acts_of_update first]
    exact ih rest

/-- No act but one changes anything but the memory and the registers of the machine. -/
theorem alike_act (c : Console σ) {a : Act} (untimed : ∀ s, a ≠ .schedule s) :
    c.rig.machine.Alike (c.act a).rig.machine := by
  have writeIn : ∀ (m : Machine) r offset data, m.Alike (m.writeIn r offset data) := .writeIn
  have refl : ∀ m : Machine, m.Alike m := .refl
  cases a with
  | press b =>
    have pressed : c.rig.machine.Alike (c.rig.machine.press b) := by
      unfold Machine.press
      split
      · exact writeIn _ _ _ _
      · exact refl _
    exact pressed
  | letGo b => exact writeIn _ _ _ _
  | queue p => exact refl _
  | deliver =>
    have delivered : c.rig.machine.Alike c.deliver.rig.machine := by
      unfold deliver
      dsimp only
      split
      · split
        · exact refl _
        · exact (writeIn _ _ _ _).trans (writeIn _ _ _ _)
      · exact refl _
    exact delivered
  | schedule s => exact absurd rfl (untimed s)
  | countTick => exact Rig.alike_countTick c.rig
  | cycle => exact Rig.alike_cycle c.rig
  | draw =>
    rw [act]
    exact refl _
  | age => exact writeIn _ _ _ _
  | listen =>
    rw [act, listen]
    split <;> exact refl _
  | collect =>
    have collected : c.rig.machine.Alike c.collect.2.rig.machine := by
      unfold collect
      dsimp only
      split
      · exact writeIn _ _ _ _
      · exact refl _
    exact collected

theorem alike_acts (c : Console σ) {as : List Act} (untimed : ∀ s, .schedule s ∉ as) :
    c.rig.machine.Alike (c.acts as).rig.machine := by
  induction as generalizing c with
  | nil => exact .refl _
  | cons a more ih =>
    have first := alike_act c fun s same => untimed s (same ▸ List.mem_cons_self)
    exact first.trans (ih (c.act a) fun s member => untimed s (List.mem_cons_of_mem a member))

/-- What comes in changes nothing but the memory of the machine. -/
theorem alike_intake (c : Console σ) (input : Input) :
    c.rig.machine.Alike (c.acts (intake input)).rig.machine :=
  alike_acts c fun s => by cases packet : input.packet <;> simp [intake, packet]

/-- No act changes the program. -/
theorem sameProgram_act (c : Console σ) (a : Act) :
    c.rig.machine.SameProgram (c.act a).rig.machine := by
  by_cases timed : ∃ s, a = .schedule s
  · obtain ⟨s, rfl⟩ := timed
    exact ⟨rfl, rfl, rfl⟩
  · exact (alike_act c fun s same => timed ⟨s, same⟩).sameProgram

theorem sameProgram_acts (c : Console σ) (as : List Act) :
    c.rig.machine.SameProgram (c.acts as).rig.machine := by
  induction as generalizing c with
  | nil => exact .refl _
  | cons a more ih => exact (sameProgram_act c a).trans (ih (c.act a))

/-- A call in which a tick is due starts a cycle. -/
theorem prefix_script {c : Console σ} {elapsed : Duration} {input : Input}
    (running : (c.acts (intake input)).rig.machine.running = true) {n : Nat} {s : Scheduler}
    (advanced : (c.acts (intake input)).rig.machine.scheduler.advance elapsed = some (n + 1, s)) :
    intake input ++ [.schedule s, .countTick, .cycle] <+: c.script elapsed input := by
  generalize taken : (c.acts (intake input)).rig = r at running advanced
  obtain ⟨k, ticked⟩ := Nat.exists_eq_succ_of_ne_zero
    (Nat.ne_of_gt (Rig.tick_pos (⟨{ r.machine with scheduler := s }, r.host⟩ : Rig σ)))
  rw [script, taken, frameActs_of_running running advanced, tickActs, ticked, List.replicate_succ]
  simp only [List.append_assoc, List.cons_append]
  refine (List.prefix_append_right_inj _).2 ?_
  exact List.prefix_append _ _

theorem prefix_history {c : Console σ} {elapsed : Duration} {input : Input}
    (running : (c.acts (intake input)).rig.machine.running = true) {n : Nat} {s : Scheduler}
    (advanced : (c.acts (intake input)).rig.machine.scheduler.advance elapsed = some (n + 1, s))
    (calls : List (Duration × Input)) :
    intake input ++ [.schedule s, .countTick, .cycle] <+: c.history ((elapsed, input) :: calls) :=
  (prefix_script running advanced).trans (List.prefix_append _ _)

/-- A call has an end if its time has. -/
theorem exists_update_of_advance {c : Console σ} {elapsed : Duration}
    (running : c.rig.machine.running = true) {due : Nat} {s : Scheduler}
    (advanced : c.rig.machine.scheduler.advance elapsed = some (due, s)) (input : Input) :
    ∃ out after, c.update elapsed input = some (out, after) := by
  have alike := alike_intake c input
  rw [← alike.running] at running
  rw [← alike.scheduler] at advanced
  obtain ⟨out, run, -⟩ := update_of_frameActs (frameActs_of_running running advanced)
  exact ⟨out, _, run⟩

theorem act_deliver_of_nil {c : Console σ} (empty : c.waiting = []) : c.act .deliver = c := by
  rw [act, deliver]
  dsimp only
  split
  · rw [empty]
  · rfl

/-- The acts of a call without events that lasts a tick, on a console with nothing to catch up on. -/
theorem script_of_fresh {c : Console σ} (running : c.rig.machine.running = true)
    (fresh : c.rig.machine.scheduler = .fresh) (empty : c.waiting = []) {n : Nat}
    (ticked : (Rig.tick ⟨{ c.rig.machine with scheduler := .afterTick }, c.rig.host⟩).1 = n) :
    c.script (.ofNanoseconds 34000000) {} =
      [.deliver, .schedule .afterTick, .countTick] ++
        (List.replicate n .cycle ++ [.draw, .age, .listen, .collect]) := by
  have taken : c.acts (intake {}) = c := act_deliver_of_nil empty
  have advanced : c.rig.machine.scheduler.advance (.ofNanoseconds 34000000) = some (1, .afterTick) :=
    fresh ▸ Scheduler.advance_fresh_eq
  rw [script, taken, frameActs_of_running running advanced, tickActs, tickActs, ticked]
  simp [intake]

/-! ### What holds in the course of acts -/

/-- Something holds of the machine before each cycle in the course of acts. -/
def EveryCycle (c : Console σ) (P : Machine → Prop) (as : List Act) : Prop :=
  ∀ before, before ++ [.cycle] <+: as → P (c.acts before).rig.machine

namespace EveryCycle

variable {c : Console σ} {P Q : Machine → Prop} {a : Act} {first second more : List Act}

theorem imp (every : c.EveryCycle P more) (weaker : ∀ m, P m → Q m) : c.EveryCycle Q more :=
  fun before reached => weaker _ (every before reached)

theorem left (every : c.EveryCycle P (first ++ second)) : c.EveryCycle P first :=
  fun before reached => every before (reached.trans (List.prefix_append _ _))

theorem right (every : c.EveryCycle P (first ++ second)) : (c.acts first).EveryCycle P second := by
  intro before reached
  rw [← acts_append]
  refine every (first ++ before) ?_
  rw [List.append_assoc]
  exact (List.prefix_append_right_inj first).2 reached

theorem tail (every : c.EveryCycle P (a :: more)) : (c.act a).EveryCycle P more := by
  have split : c.EveryCycle P ([a] ++ more) := every
  exact split.right

theorem head (every : c.EveryCycle P (a :: more)) : a = .cycle → P c.rig.machine := by
  rintro rfl
  exact every [] (List.prefix_append _ _)

theorem cons (here : a = .cycle → P c.rig.machine) (later : (c.act a).EveryCycle P more) :
    c.EveryCycle P (a :: more) := by
  rintro (_ | ⟨b, before⟩) reached
  · exact here (List.cons_prefix_cons.1 reached).1.symm
  · obtain ⟨rfl, rest⟩ := List.cons_prefix_cons.1 reached
    exact later before rest

theorem append (every : c.EveryCycle P first) (later : (c.acts first).EveryCycle P second) :
    c.EveryCycle P (first ++ second) := by
  induction first generalizing c with
  | nil => exact later
  | cons a more ih => exact cons every.head (ih every.tail later)

theorem of_not_mem (none : .cycle ∉ more) : c.EveryCycle P more :=
  fun _ reached => absurd (reached.subset (List.mem_append_right _ List.mem_cons_self)) none

end EveryCycle

/-- An operation is carried out in the course of acts. -/
def CarriesOut (c : Console σ) (as : List Act) (op : Opcode) : Prop :=
  ∃ before p, before ++ [.cycle] <+: as ∧ (c.acts before).rig.machine.next? = some (op, p)

theorem not_carriesOut_iff {c : Console σ} {as : List Act} {op : Opcode} :
    ¬ c.CarriesOut as op ↔ c.EveryCycle (fun m => ∀ p, m.next? ≠ some (op, p)) as :=
  ⟨fun absent before reached p next => absent ⟨before, p, reached, next⟩,
    fun every ⟨before, p, reached, next⟩ => every before reached p next⟩

/-- No cycle in the course of acts writes at the memory pointer. -/
def Tame (c : Console σ) (as : List Act) : Prop :=
  ∀ before, before ++ [.cycle] <+: as → ¬ (c.acts before).rig.machine.WritesAtPointer

theorem Tame.everyCycle {c : Console σ} {as : List Act} (tame : c.Tame as) :
    c.EveryCycle (fun m => ¬ m.WritesAtPointer) as :=
  tame

theorem Tame.left {c : Console σ} {first second : List Act} (tame : c.Tame (first ++ second)) :
    c.Tame first :=
  tame.everyCycle.left

theorem Tame.right {c : Console σ} {first second : List Act} (tame : c.Tame (first ++ second)) :
    (c.acts first).Tame second :=
  tame.everyCycle.right

theorem Tame.tail {c : Console σ} {a : Act} {more : List Act} (tame : c.Tame (a :: more)) :
    (c.act a).Tame more :=
  tame.everyCycle.tail

theorem Tame.head {c : Console σ} {a : Act} {more : List Act} (tame : c.Tame (a :: more)) :
    a = .cycle → ¬ c.rig.machine.WritesAtPointer :=
  tame.everyCycle.head

/-- Acts without writes at the memory pointer spare every region. -/
theorem Tame.spares {c : Console σ} {as : List Act} (tame : c.Tame as) (r : Region) :
    c.EveryCycle (fun m => m.Spares r) as :=
  tame.everyCycle.imp fun _ quiet => Machine.spares_of_not_writesAtPointer quiet r

theorem CarriesOut.cons {c : Console σ} {a : Act} {as : List Act} {op : Opcode}
    (later : (c.act a).CarriesOut as op) : c.CarriesOut (a :: as) op := by
  obtain ⟨before, p, reached, next⟩ := later
  exact ⟨a :: before, p, (List.prefix_cons_inj a).2 reached, next⟩

/-- The operations carried out in the course of acts, in order. -/
def operations (c : Console σ) : List Act → List Opcode
  | [] => []
  | .cycle :: more => (c.rig.machine.next?.map Prod.fst).toList ++ (c.act .cycle).operations more
  | a :: more => (c.act a).operations more

theorem operations_cons_of_ne (c : Console σ) {a : Act} (other : a ≠ .cycle) (more : List Act) :
    c.operations (a :: more) = (c.act a).operations more := by
  cases a
  case cycle => exact absurd rfl other
  all_goals rfl

theorem carriesOut_iff {c : Console σ} {as : List Act} {op : Opcode} :
    c.CarriesOut as op ↔ op ∈ c.operations as := by
  rw [← not_iff_not, not_carriesOut_iff]
  induction as generalizing c with
  | nil => exact ⟨fun _ => List.not_mem_nil, fun _ => .of_not_mem List.not_mem_nil⟩
  | cons a more ih =>
    by_cases cycle : a = .cycle
    · subst cycle
      have here : (∀ p, c.rig.machine.next? ≠ some (op, p)) ↔
          op ∉ (c.rig.machine.next?.map Prod.fst).toList := by
        simp
      rw [operations, List.mem_append, not_or, ← here, ← ih]
      exact ⟨fun every => ⟨every.head rfl, every.tail⟩, fun both => .cons (fun _ => both.1) both.2⟩
    · rw [operations_cons_of_ne c cycle, ← ih]
      exact ⟨fun every => every.tail, fun later => .cons (fun same => absurd same cycle) later⟩

instance (c : Console σ) (as : List Act) (op : Opcode) : Decidable (c.CarriesOut as op) :=
  decidable_of_iff _ carriesOut_iff.symm

theorem contains_of_acts {c : Console σ} {as : List Act} {op : Opcode}
    (contains : (c.acts as).rig.machine.Contains op) : c.rig.machine.Contains op := by
  rwa [Machine.Contains, (sameProgram_acts c as).storage] at contains

theorem contains_of_carriesOut {c : Console σ} {as : List Act} {op : Opcode}
    (carried : c.CarriesOut as op) : c.rig.machine.Contains op := by
  obtain ⟨before, p, -, next⟩ := carried
  exact contains_of_acts (Machine.contains_of_next next)

/-- A program without data, pokes and reads is tame. -/
theorem tame_of_plain {c : Console σ} {p : Program} (noData : p.storage = [])
    (plain : ∀ t ∈ p.code.tokens, t.op? ≠ some .poke ∧ t.op? ≠ some .read)
    (loaded : c.rig.machine.storage = (Machine.ofProgram p).storage) (as : List Act) : c.Tame as :=
  fun before _ => Machine.not_writesAtPointer_of_plain noData plain ((sameProgram_acts c before).storage.trans loaded)

theorem tame_load (c : Console σ) {p : Program} (noData : p.storage = [])
    (plain : ∀ t ∈ p.code.tokens, t.op? ≠ some .poke ∧ t.op? ≠ some .read) (as : List Act) :
    (c.load p).Tame as :=
  tame_of_plain noData plain rfl as

end Console

end PocketConsole
