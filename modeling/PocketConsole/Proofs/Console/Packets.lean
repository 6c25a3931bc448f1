import Mathlib.Data.List.Induction
import PocketConsole.Proofs.Console.SerialLine

namespace PocketConsole.Console

variable {σ : Type}

/-- The packets handed over, in order. -/
def handed (as : List Act) : List Packet :=
  as.filterMap Act.packet?

theorem handed_append (first second : List Act) :
    handed (first ++ second) = handed first ++ handed second :=
  List.filterMap_append

theorem handed_eq_nil {as : List Act} (none : ∀ a ∈ as, a.packet? = none) : handed as = [] :=
  List.filterMap_eq_nil_iff.2 none

theorem handed_snoc (moment : List Act) (a : Act) :
    handed (moment ++ [a]) = handed moment ++ a.packet?.toList := by
  rw [handed_append]
  cases a <;> rfl

theorem handed_intake (input : Input) : handed (intake input) = input.packet.toList := by
  have press : handed (input.pressed.map .press) = [] := handed_eq_nil (by simp [Act.packet?])
  have letGo : handed (input.released.map .letGo) = [] := handed_eq_nil (by simp [Act.packet?])
  rw [intake, handed_append, handed_append, handed_append, press, letGo]
  cases input.packet <;> rfl

variable [Store σ]

theorem handed_tickActs (n : Nat) (r : Rig σ) : handed (tickActs n r) = [] := by
  induction n generalizing r with
  | zero => rfl
  | succ n ih =>
    have first : handed (.countTick :: List.replicate r.tick.1 .cycle) = [] :=
      handed_eq_nil (by simp [Act.packet?])
    rw [tickActs, handed_append, first, ih, List.append_nil]

theorem handed_frameActs {r : Rig σ} {elapsed : Duration} {frame : List Act}
    (script : frameActs r elapsed = some frame) : handed frame = [] := by
  rw [frameActs] at script
  split at script
  · obtain ⟨⟨n, s⟩, -, rfl⟩ := Option.map_eq_some_iff.1 script
    have ticks := handed_tickActs n (⟨{ r.machine with scheduler := s }, r.host⟩ : Rig σ)
    rw [handed_append]
    exact List.append_eq_nil_iff.2 ⟨ticks, rfl⟩
  · cases script
    rfl

theorem handed_script (c : Console σ) (elapsed : Duration) (input : Input) :
    handed (c.script elapsed input) = input.packet.toList := by
  rw [script, handed_append, handed_intake]
  split
  · rename_i frame script
    rw [handed_append, handed_frameActs script]
    exact List.append_nil _
  · exact List.append_nil _

theorem handed_history {c after : Console σ} {calls : List (Duration × Input)}
    (run : c.updates calls = some after) :
    handed (c.history calls) = calls.filterMap fun call => call.2.packet := by
  induction calls generalizing c with
  | nil => rfl
  | cons call more ih =>
    obtain ⟨elapsed, input⟩ := call
    rw [updates, Option.bind_eq_some_iff] at run
    obtain ⟨⟨out, between⟩, first, rest⟩ := run
    rw [history, first, handed_append, handed_script, List.filterMap_cons]
    dsimp only
    rw [ih rest]
    cases input.packet <;> rfl

/-- The operations that take pending packets off the serial line, in order. -/
def takers (c : Console σ) : List Act → List Opcode
  | [] => []
  | a :: more => (c.taker? a).toList ++ (c.act a).takers more

theorem takers_append (c : Console σ) (first second : List Act) :
    c.takers (first ++ second) = c.takers first ++ (c.acts first).takers second := by
  induction first generalizing c with
  | nil => rfl
  | cons a more ih => rw [List.cons_append, takers, takers, ih, acts_cons, List.append_assoc]

theorem takers_snoc (c : Console σ) (moment : List Act) (a : Act) :
    c.takers (moment ++ [a]) = c.takers moment ++ ((c.acts moment).taker? a).toList := by
  rw [takers_append]
  exact congrArg _ (List.append_nil _)

omit [Store σ] in
theorem pending_of_taker? {c : Console σ} {a : Act} {o : Opcode} (taker : c.taker? a = some o) :
    c.rig.machine.Pending := by
  cases a with
  | cycle => exact (Option.ite_none_right_eq_some.1 taker).1
  | _ => cases taker

/-- A pending packet stays until an operation takes it off the line. -/
theorem pending_act {c : Console σ} {a : Act} (tame : a = .cycle → ¬ c.rig.machine.WritesAtPointer)
    (pending : c.rig.machine.Pending) (left : c.taker? a = none) : (c.act a).rig.machine.Pending := by
  cases moved_act c a tame with
  | queued p act line waiting => rwa [Machine.Pending, line]
  | delivered p act idle line pins waiting => exact line
  | taken o act taker line waiting =>
    rw [left] at taker
    cases taker
  | kept packet taker line waiting => exact line.2 pending

theorem pending_acts {c : Console σ} {as : List Act} (tame : c.Tame as)
    (pending : c.rig.machine.Pending) (left : c.takers as = []) : (c.acts as).rig.machine.Pending := by
  induction as generalizing c with
  | nil => exact pending
  | cons a more ih =>
    rw [takers, List.append_eq_nil_iff] at left
    obtain ⟨here, rest⟩ := left
    have none : c.taker? a = none := Option.toList_eq_nil_iff.1 here
    exact ih tame.tail (pending_act tame.head pending none) rest

/-- Where the packets handed over are: taken off the line by one operation each, pending on the line,
or waiting for it, in the order in which they were handed over. -/
structure Accounted (c : Console σ) (moment : List Act) (taken : List Packet) (pending : Option Packet) :
    Prop where
  order : handed moment = taken ++ pending.toList ++ (c.acts moment).waiting
  count : (c.takers moment).length = taken.length
  line : pending.isSome = true ↔ (c.acts moment).rig.machine.Pending
  /-- The packet that is pending was put on the pins, and has been pending ever since. -/
  since : ∀ p, pending = some p → ∃ before after, moment = before ++ .deliver :: after ∧
    (c.acts (before ++ [.deliver])).rig.machine.pins = p ∧
    ∀ held, held <+: after → (c.acts (before ++ .deliver :: held)).rig.machine.Pending

namespace Accounted

variable {c : Console σ} {moment : List Act} {taken : List Packet} {pending : Option Packet}

/-- What is pending has been so since it was put on the pins, one act later as well. -/
theorem since_snoc (now : Accounted c moment taken pending) {a : Act}
    (line : (c.acts (moment ++ [a])).rig.machine.Pending) {p : Packet} (same : pending = some p) :
    ∃ before after, moment ++ [a] = before ++ .deliver :: after ∧
      (c.acts (before ++ [.deliver])).rig.machine.pins = p ∧
      ∀ held, held <+: after → (c.acts (before ++ .deliver :: held)).rig.machine.Pending := by
  obtain ⟨before, after, rfl, pins, held⟩ := now.since p same
  refine ⟨before, after ++ [a], by simp, pins, fun more reached => ?_⟩
  rcases List.prefix_concat_iff.1 reached with rfl | reached
  · rwa [List.append_assoc] at line
  · exact held more reached

theorem step (now : Accounted c moment taken pending) {a : Act} (tame : c.Tame (moment ++ [a])) :
    ∃ taken pending, Accounted c (moment ++ [a]) taken pending := by
  have order := now.order
  have count := now.count
  cases moved_act (c.acts moment) a tame.right.head with
  | queued p act line waiting =>
    subst act
    have same : (c.acts (moment ++ [.queue p])).rig.machine.Pending ↔
        (c.acts moment).rig.machine.Pending := by
      rw [acts_snoc, Machine.Pending, line, Machine.Pending]
    refine ⟨taken, pending, ?_, ?_, now.line.trans same.symm, fun q found => ?_⟩
    · rw [handed_snoc, acts_snoc, waiting, order]
      simp [Act.packet?]
    · rw [takers_snoc, ← count]
      simp [taker?]
    · exact now.since_snoc (same.2 (now.line.1 (by rw [found]; rfl))) found
  | delivered p act idle line pins waiting =>
    subst act
    -- the line is idle, so no packet is pending that this one could displace
    have notPending := Machine.not_pending_of_line idle rfl
    have free : pending = none := Option.not_isSome_iff_eq_none.1 (mt now.line.1 notPending)
    refine ⟨taken, some p, ?_, ?_, ?_, ?_⟩
    · rw [handed_snoc, acts_snoc, order, waiting, free]
      simp [Act.packet?]
    · rw [takers_snoc, ← count]
      simp [taker?]
    · rw [acts_snoc]
      exact iff_of_true rfl line
    · rintro q found
      cases found
      refine ⟨moment, [], rfl, ?_, ?_⟩
      · rw [acts_snoc, pins]
      · intro held reached
        rw [List.prefix_nil.1 reached, acts_snoc]
        exact line
  | taken o act taker line waiting =>
    subst act
    -- the pending packet is the oldest that has not been taken
    obtain ⟨p, found⟩ := Option.isSome_iff_exists.1 (now.line.2 (pending_of_taker? taker))
    refine ⟨taken ++ [p], none, ?_, ?_, ?_, fun q none => absurd none (Option.some_ne_none q).symm⟩
    · rw [handed_snoc, acts_snoc, order, waiting, found]
      simp [Act.packet?]
    · rw [takers_snoc, taker, List.length_append, count]
      simp
    · rw [acts_snoc]
      exact iff_of_false (by simp) line
  | kept packet taker line waiting =>
    refine ⟨taken, pending, ?_, ?_, ?_, fun q found => ?_⟩
    · rw [handed_snoc, acts_snoc, packet, waiting, order]
      simp
    · rw [takers_snoc, taker, ← count]
      simp
    · rw [acts_snoc, now.line, line]
    · refine now.since_snoc ?_ found
      rw [acts_snoc, line, ← now.line, found]
      rfl

/-- Every packet is accounted for, at every moment of any acts from a console without packets on. -/
theorem acts (empty : c.waiting = []) (free : ¬ c.rig.machine.Pending) (tame : c.Tame moment) :
    ∃ taken pending, Accounted c moment taken pending := by
  induction moment using List.reverseRecOn with
  | nil =>
    exact ⟨[], none, empty.symm, rfl, iff_of_false (by simp) free,
      fun p none => absurd none (Option.some_ne_none p).symm⟩
  | append_singleton moment a ih =>
    obtain ⟨taken, pending, now⟩ := ih tame.left
    exact now.step tame

end Accounted

theorem takers_eq_nil {c : Console σ} {as : List Act} (noRecv : ¬ c.CarriesOut as .recv)
    (noSend : ¬ c.CarriesOut as .send) : c.takers as = [] := by
  induction as generalizing c with
  | nil => rfl
  | cons a more ih =>
    have here : c.taker? a = none := by
      cases a with
      | cycle =>
        have first : [] ++ [Act.cycle] <+: .cycle :: more := List.prefix_append _ _
        exact taker?_cycle_of_ne c (fun p next => noRecv ⟨[], p, first, next⟩)
          fun p next => noSend ⟨[], p, first, next⟩
      | _ => rfl
    rw [takers, here]
    exact ih (fun later => noRecv later.cons) fun later => noSend later.cons

omit [Store σ] in
theorem idle_load (c : Console σ) (p : Program) : (c.load p).rig.machine.Idle := by
  have zero : ∀ i, (Bank.zero : Memory).getIn .serialState i = low := by
    intro i
    rw [Bank.getIn, Bank.get_zero, ite_self]
    rfl
  exact Prod.ext (zero 0) (zero 1)

/-- A packet handed to an idle console goes on the line at once. -/
theorem acts_intake_packet {c : Console σ} (idle : c.rig.machine.Idle) (empty : c.waiting = [])
    (q : Packet) :
    c.acts (intake { packet := some q }) = { c with
      rig := ⟨(c.rig.machine.writeIn .serialPins 0 q.toList).setSerial low high,
        c.rig.host.note (.packetIn q.toList)⟩
      waiting := [] } := by
  have acts : c.acts (intake { packet := some q }) = (c.queue q).act .deliver := rfl
  have queued : (c.queue q).waiting = [q] := by
    rw [queue, empty]
    rfl
  have still : (c.queue q).rig.machine.Idle := idle
  rw [acts, act_deliver_of_idle still queued]
  rfl

/-- A program that sends first of all takes the line from a packet that has just been put on it. -/
theorem line_of_send_first {c : Console σ} (idle : c.rig.machine.Idle) (empty : c.waiting = [])
    {v : UInt8} (next : c.rig.machine.next? = some (.send, v)) (q : Packet) (s : Scheduler) :
    (c.acts (intake { packet := some q } ++ [.schedule s, .countTick, .cycle])).rig.machine.line =
      (high, low) := by
  have delivered := acts_intake_packet idle empty q
  have registers : (c.acts (intake { packet := some q } ++ [.schedule s, .countTick])).rig.machine.registers =
      c.rig.machine.registers := by
    rw [acts_append, delivered]
    exact Rig.registers_countTick _
  have program := sameProgram_acts c (intake { packet := some q } ++ [.schedule s, .countTick])
  have due := (Machine.next?_congr program.storage registers).trans next
  have last : intake { packet := some q } ++ [.schedule s, .countTick, .cycle] =
      (intake { packet := some q } ++ [.schedule s, .countTick]) ++ [.cycle] := by simp
  have cycled : ∀ d : Console σ, (d.acts [.cycle]).rig = Rig.cycle ⟨d.rig.machine, d.rig.host⟩ :=
    fun _ => rfl
  rw [last, acts_append, cycled]
  exact Rig.line_cycle_of_send due _

/-- A first call that lasts a tick puts its packet on the line and starts a cycle. -/
theorem prefix_history_of_load (c : Console σ) (p : Program) (q : Packet) {s : Scheduler}
    (advanced : Scheduler.fresh.advance (.ofNanoseconds 34000000) = some (1, s)) :
    intake { packet := some q } ++ [.schedule s, .countTick, .cycle] <+:
      (c.load p).history [(.ofNanoseconds 34000000, { packet := some q })] := by
  have delivered := acts_intake_packet (idle_load c p) rfl q
  refine prefix_history (n := 0) ?_ ?_ []
  · rw [delivered]
    rfl
  · rw [delivered]
    exact advanced

/-- The line keeps a packet that has been put on it until the program receives or sends, and so every
packet handed over waits, is pending, or has been taken off the line by just one of the two. -/
theorem packets_accounted (c : Console σ) (p : Program) (calls : List (Duration × Input))
    (tame : (c.load p).Tame ((c.load p).history calls)) {moment : List Act}
    (reached : moment <+: (c.load p).history calls) :
    (∀ before later, moment = before ++ later → ((c.load p).acts before).rig.machine.Pending →
        ¬ ((c.load p).acts before).CarriesOut later .recv →
        ¬ ((c.load p).acts before).CarriesOut later .send →
        ((c.load p).acts moment).rig.machine.Pending) ∧
      (∃ taken pending, Accounted (c.load p) moment taken pending) ∧
      ∀ after, (c.load p).updates calls = some after →
        (c.load p).acts ((c.load p).history calls) = after ∧
          handed ((c.load p).history calls) = calls.filterMap fun call => call.2.packet := by
  obtain ⟨rest, whole⟩ := reached
  rw [← whole] at tame
  have free := Machine.not_pending_of_line (idle_load c p) rfl
  refine ⟨?_, Accounted.acts rfl free tame.left, fun after run =>
    ⟨eq_acts_of_updates run, handed_history run⟩⟩
  rintro before later rfl pending noRecv noSend
  rw [acts_append]
  exact pending_acts tame.left.right pending (takers_eq_nil noRecv noSend)

/-- A packet is accounted for when the program has received it. -/
theorem packets_accounted_of_receiver :
    let c : Console Shelf := { rig := ⟨.fresh, ⟨.empty, #[]⟩⟩ }
    let p : Program := { name := "receiver", code := ⟨[.ofOpcode .recv 0], .empty⟩ }
    let input : Input := { packet := some (Vector.replicate 16 7) }
    ∃ s taken pending,
      Accounted (c.load p) (intake input ++ [.schedule s, .countTick, .cycle]) taken pending := by
  intro c p input
  obtain ⟨s, advanced⟩ := Scheduler.advance_fresh
  have plain : ∀ t ∈ p.code.tokens, t.op? ≠ some .poke ∧ t.op? ≠ some .read := by
    intro t member
    rw [List.mem_singleton.1 member, Token.op?_ofOpcode]
    exact ⟨by decide, by decide⟩
  have tame := tame_load c (p := p) rfl plain
  clear_value c p
  have begun := prefix_history_of_load c p (Vector.replicate 16 7) advanced
  obtain ⟨-, ⟨taken, pending, accounted⟩, -⟩ := packets_accounted c p _ (tame _) begun
  exact ⟨s, taken, pending, accounted⟩

/-- The line does not keep a packet from a program that sends: a pending packet is gone after a cycle
that sends, though nothing has been received. -/
theorem pending_lost_by_send : ¬ ∀ (c : Console Shelf) (p : Program) (calls : List (Duration × Input)),
    (c.load p).Tame ((c.load p).history calls) →
    ∀ moment, moment <+: (c.load p).history calls → ∀ before later, moment = before ++ later →
      ((c.load p).acts before).rig.machine.Pending →
      ¬ ((c.load p).acts before).CarriesOut later .recv →
      ((c.load p).acts moment).rig.machine.Pending := by
  intro kept
  let c : Console Shelf := { rig := ⟨.fresh, ⟨.empty, #[]⟩⟩ }
  let p : Program := { name := "sender", code := ⟨[.ofOpcode .send 0], .empty⟩ }
  let q : Packet := Vector.replicate 16 7
  have noData : p.storage = [] := rfl
  have code : p.code.tokens = [.ofOpcode .send 0] := rfl
  -- what follows needs nothing else of the program, and must not run it
  clear_value c p q
  obtain ⟨s, advanced⟩ := Scheduler.advance_fresh
  have send : ∀ t ∈ p.code.tokens, t.op? = some .send := by
    intro t member
    rw [code] at member
    rw [List.mem_singleton.1 member, Token.op?_ofOpcode]
  have plain : ∀ t ∈ p.code.tokens, t.op? ≠ some .poke ∧ t.op? ≠ some .read := by
    intro t member
    rw [send t member]
    exact ⟨by decide, by decide⟩
  have pending : ((c.load p).acts (intake { packet := some q })).rig.machine.Pending := by
    rw [acts_intake_packet (idle_load c p) rfl q]
    exact Machine.line_setSerial _ _ _
  have noRecv : ¬ ((c.load p).acts (intake { packet := some q })).CarriesOut
      [.schedule s, .countTick, .cycle] .recv := by
    intro carried
    obtain ⟨t, member, decoded⟩ :=
      Machine.mem_of_contains noData (contains_of_acts (contains_of_carriesOut carried))
    rw [send t member] at decoded
    cases decoded
  have begun := prefix_history_of_load c p q advanced
  have after := kept c p _ (tame_load c noData plain _) _ begun _ _ rfl pending noRecv
  have fits : p.code.tokens.length ≤ 32768 := by
    rw [code]
    decide
  have line := line_of_send_first (idle_load c p) rfl (Machine.next?_ofProgram code fits) q s
  exact Machine.not_pending_of_line line rfl after

end PocketConsole.Console
