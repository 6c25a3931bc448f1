import PocketConsole.Proofs.Machine.Contents
import PocketConsole.Proofs.Machine.Continuation
import PocketConsole.Proofs.Machine.Time

namespace PocketConsole

/-- What a rig is asked for from outside. -/
inductive Request
  | advance (elapsed : Duration)
  | pause
  | run

/-- The ticks that become due in the course of requests, and what is left over at the end. Time that passes while the
machine stands still does not count. -/
def Scheduler.due : Scheduler → Bool → List Request → Option (Nat × Scheduler)
  | s, _, [] => some (0, s)
  | s, _, .pause :: more => s.due false more
  | s, _, .run :: more => s.due true more
  | s, false, .advance _ :: more => s.due false more
  | s, true, .advance elapsed :: more =>
    (s.advance elapsed).bind fun (n, rest) => (rest.due true more).map fun (k, last) => (n + k, last)

namespace Rig

variable {σ : Type}

/-- What goes on in a rig, one thing after another. -/
inductive Beat
  | schedule (s : Scheduler)
  /-- A tick begins. -/
  | tick
  | cycle
  | pause
  | run
deriving DecidableEq

variable [Store σ]

def beat (r : Rig σ) : Beat → Rig σ
  | .schedule s => { r with machine := { r.machine with scheduler := s } }
  | .tick => r.countTick
  | .cycle => r.cycle
  | .pause => { r with machine := r.machine.pause }
  | .run => { r with machine := r.machine.run }

def beats (r : Rig σ) (bs : List Beat) : Rig σ :=
  bs.foldl beat r

/-- How many ticks begin while the timer is not paused. -/
def unpaused (r : Rig σ) : List Beat → Nat
  | [] => 0
  | b :: more => (if b = .tick ∧ ¬ isHigh (r.machine.get .tp) then 1 else 0) + (r.beat b).unpaused more

/-- No cycle writes at the memory pointer. -/
def Tame (r : Rig σ) : List Beat → Prop
  | [] => True
  | b :: more => (b = .cycle → ¬ r.machine.WritesAtPointer) ∧ (r.beat b).Tame more

/-- The beats of a number of ticks. -/
def tickBeats : Nat → Rig σ → List Beat
  | 0, _ => []
  | n + 1, r => .tick :: List.replicate r.tick.1 .cycle ++ tickBeats n r.tick.2

/-- The rig after a request, and the number of cycles reported for it. -/
def serve (r : Rig σ) : Request → Option (Nat × Rig σ)
  | .advance elapsed => r.advance elapsed
  | .pause => some (0, r.beat .pause)
  | .run => some (0, r.beat .run)

/-- The rig after several requests, and the sum of the numbers reported. -/
def serveAll (r : Rig σ) : List Request → Option (Nat × Rig σ)
  | [] => some (0, r)
  | q :: more => (r.serve q).bind fun (n, next) => (next.serveAll more).map fun (k, last) => (n + k, last)

/-- The beats by which a rig serves a request. A count of ticks without an end does not get as far as a beat. -/
def serving (r : Rig σ) : Request → List Beat
  | .advance elapsed =>
    if r.machine.running then
      match r.machine.scheduler.advance elapsed with
      | some (due, s) => .schedule s :: tickBeats due (r.beat (.schedule s))
      | none => []
    else []
  | .pause => [.pause]
  | .run => [.run]

/-- The beats by which a rig serves several requests. -/
def course (r : Rig σ) : List Request → List Beat
  | [] => []
  | q :: more => r.serving q ++
    match r.serve q with
    | some (_, next) => next.course more
    | none => []

theorem beats_append (r : Rig σ) (first second : List Beat) :
    r.beats (first ++ second) = (r.beats first).beats second :=
  List.foldl_append

/-- Beats lead from one rig to another, and there are as many ticks and cycles among them as stated. -/
structure Leads (r : Rig σ) (bs : List Beat) (k n : Nat) (after : Rig σ) : Prop where
  reached : r.beats bs = after
  ticks : bs.count .tick = k
  cycles : bs.count .cycle = n
  /-- No tick goes without a cycle. -/
  least : k ≤ n
  most : n ≤ cyclesPerTick * k

namespace Leads

theorem none (r : Rig σ) : r.Leads [] 0 0 r where
  reached := rfl
  ticks := rfl
  cycles := rfl
  least := Nat.le_refl 0
  most := Nat.zero_le _

theorem trans {r mid after : Rig σ} {bs cs : List Beat} {k n j m : Nat} (first : r.Leads bs k n mid)
    (second : mid.Leads cs j m after) : r.Leads (bs ++ cs) (k + j) (n + m) after where
  reached := by rw [beats_append, first.reached, second.reached]
  ticks := by rw [List.count_append, first.ticks, second.ticks]
  cycles := by rw [List.count_append, first.cycles, second.cycles]
  least := Nat.add_le_add first.least second.least
  most := by
    rw [Nat.mul_add]
    exact Nat.add_le_add first.most second.most

/-- A beat that is neither a tick nor a cycle. -/
theorem aside (r : Rig σ) {b : Beat} (noTick : b ≠ .tick) (noCycle : b ≠ .cycle) :
    r.Leads [b] 0 0 (r.beat b) where
  reached := rfl
  ticks := List.count_eq_zero.2 fun member => noTick (List.mem_singleton.1 member).symm
  cycles := List.count_eq_zero.2 fun member => noCycle (List.mem_singleton.1 member).symm
  least := Nat.le_refl 0
  most := Nat.zero_le _

end Leads

theorem beats_replicate_cycle (n : Nat) (r : Rig σ) : r.beats (List.replicate n .cycle) = cycle^[n] r := by
  induction n generalizing r with
  | zero => rfl
  | succ n ih => exact ih r.cycle

theorem beats_tick (r : Rig σ) : r.beats (.tick :: List.replicate r.tick.1 .cycle) = r.tick.2 := by
  rw [beats, List.foldl_cons, ← beats, beats_replicate_cycle]
  exact iterate_cycle_eq_tick r

theorem leads_tick (r : Rig σ) : r.Leads (.tick :: List.replicate r.tick.1 .cycle) 1 r.tick.1 r.tick.2 where
  reached := beats_tick r
  ticks := by rw [List.count_cons_self, List.count_replicate, if_neg (by decide)]
  cycles := by rw [List.count_cons_of_ne (by decide), List.count_replicate_self]
  least := tick_pos r
  most := (Nat.mul_one cyclesPerTick).symm ▸ tick_le r

theorem leads_ticks (done n : Nat) (r : Rig σ) :
    ∃ k, (ticks done n r).1 = done + k ∧ r.Leads (tickBeats n r) n k (ticks done n r).2 := by
  induction n generalizing done r with
  | zero => exact ⟨0, rfl, .none r⟩
  | succ n ih =>
    obtain ⟨k, sum, rest⟩ := ih (done + r.tick.1) r.tick.2
    have together := (leads_tick r).trans rest
    rw [Nat.add_comm 1 n, ← ticks_succ] at together
    rw [Nat.add_assoc, ← ticks_succ] at sum
    exact ⟨r.tick.1 + k, sum, together⟩

/-! ### Requests -/

theorem leads_advance {r : Rig σ} (running : r.machine.running = true) {elapsed : Duration} {k : Nat}
    {s : Scheduler} (advanced : r.machine.scheduler.advance elapsed = some (k, s)) :
    ∃ n next, r.advance elapsed = some (n, next) ∧ r.Leads (r.serving (.advance elapsed)) k n next ∧
      next.machine.scheduler = s ∧ next.machine.running = true := by
  let started := r.beat (.schedule s)
  obtain ⟨n, sum, leads⟩ := leads_ticks 0 k started
  rw [Nat.zero_add] at sum
  have kept := alike_ticks 0 k started
  have served : r.serving (.advance elapsed) = [.schedule s] ++ tickBeats k started := by
    rw [serving, if_pos running, advanced]
    rfl
  refine ⟨n, (ticks 0 k started).2, ?_, ?_, kept.scheduler, kept.running.trans running⟩
  · exact (advance_of_running running advanced r.host).trans (congrArg some (Prod.ext sum rfl))
  · rw [served]
    simpa only [Nat.zero_add] using (Leads.aside r (b := .schedule s) nofun nofun).trans leads

/-- How a rig serves the first of several requests. -/
theorem leads_serve {r : Rig σ} {q : Request} {more : List Request} {k : Nat} {s : Scheduler}
    (due : r.machine.scheduler.due r.machine.running (q :: more) = some (k, s)) :
    ∃ j n next rest, r.serve q = some (n, next) ∧ r.Leads (r.serving q) j n next ∧
      next.machine.scheduler.due next.machine.running more = some (rest, s) ∧ j + rest = k := by
  cases q with
  | pause => exact ⟨0, 0, _, k, rfl, .aside r nofun nofun, due, Nat.zero_add k⟩
  | run => exact ⟨0, 0, _, k, rfl, .aside r nofun nofun, due, Nat.zero_add k⟩
  | advance elapsed =>
    cases running : r.machine.running with
    | true =>
      rw [running, Scheduler.due, Option.bind_eq_some_iff] at due
      obtain ⟨⟨j, t⟩, advanced, later⟩ := due
      obtain ⟨⟨rest, u⟩, later, same⟩ := Option.map_eq_some_iff.1 later
      cases same
      obtain ⟨n, next, served, leads, scheduler, stillRunning⟩ := leads_advance running advanced
      rw [← scheduler, ← stillRunning] at later
      exact ⟨j, n, next, rest, served, leads, later, rfl⟩
    | false =>
      rw [running] at due
      have nothing : r.serving (.advance elapsed) = [] := by
        rw [serving, running, if_neg Bool.false_ne_true]
      exact ⟨0, 0, r, k, advance_of_stopped running elapsed r.host, nothing ▸ .none r, running ▸ due, Nat.zero_add k⟩

/-- How a rig serves requests that make known numbers of ticks due. -/
theorem leads_serveAll {r : Rig σ} {qs : List Request} {k : Nat} {s : Scheduler}
    (due : r.machine.scheduler.due r.machine.running qs = some (k, s)) :
    ∃ n after, r.serveAll qs = some (n, after) ∧ r.Leads (r.course qs) k n after ∧
      after.machine.scheduler = s := by
  induction qs generalizing r k with
  | nil =>
    cases due
    exact ⟨0, r, rfl, .none r, rfl⟩
  | cons q more ih =>
    obtain ⟨j, n, next, rest, served, first, remaining, rfl⟩ := leads_serve due
    obtain ⟨m, after, later, second, last⟩ := ih remaining
    refine ⟨n + m, after, ?_, ?_, last⟩
    · rw [serveAll, served, Option.bind_some]
      dsimp only
      rw [later, Option.map_some]
    · rw [course, served]
      exact first.trans second

/-! ### The timer -/

/-- No operation changes the timer. -/
theorem timer_cycle {m : Machine} (tame : ¬ m.WritesAtPointer) (host : Host σ) :
    (cycle ⟨m, host⟩).machine.timer = m.timer := by
  have foreign : ∀ op : Opcode, op.region? ≠ some .timer := by
    intro op
    cases op <;> decide
  have leaves : m.Leaves .timer := ⟨Machine.spares_of_not_writesAtPointer tame .timer, fun op _ _ => foreign op⟩
  exact Bank.getIn_congr (sameIn_cycle (by decide) leaves host) 0

omit [Store σ] in
theorem timer_countTick (r : Rig σ) :
    r.countTick.machine.timer = r.machine.timer + UInt8.ofNat (if isHigh (r.machine.get .tp) then 0 else 1) := by
  obtain ⟨m, host⟩ := r
  by_cases paused : isHigh (m.get .tp) = true
  · simp only [countTick, if_pos paused]
    exact (UInt8.add_zero _).symm
  · simp only [countTick, if_neg paused]
    exact Bank.getIn_writeIn_singleton m.memory (by decide) (by decide) 0 (m.timer + 1)

theorem timer_beats {r : Rig σ} {bs : List Beat} (tame : r.Tame bs) :
    (r.beats bs).machine.timer = r.machine.timer + UInt8.ofNat (r.unpaused bs) := by
  induction bs generalizing r with
  | nil => exact (UInt8.add_zero _).symm
  | cons b more ih =>
    have rest := ih tame.2
    have first : (r.beat b).machine.timer =
        r.machine.timer + UInt8.ofNat (if b = .tick ∧ ¬ isHigh (r.machine.get .tp) then 1 else 0) := by
      cases b with
      | tick =>
        refine (timer_countTick r).trans ?_
        by_cases paused : isHigh (r.machine.get .tp) = true <;> simp [paused]
      | cycle => exact (timer_cycle (tame.1 rfl) r.host).trans (UInt8.add_zero _).symm
      | schedule | pause | run => exact (UInt8.add_zero _).symm
    rw [beats, List.foldl_cons, unpaused, UInt8.ofNat_add, ← UInt8.add_assoc, ← first]
    exact rest

theorem storage_beat (r : Rig σ) (b : Beat) : (r.beat b).machine.storage = r.machine.storage := by
  cases b with
  | tick => exact (alike_countTick r).storage
  | cycle => exact (alike_cycle r).storage
  | schedule | pause | run => rfl

/-- In a program without data, pokes and reads no cycle writes at the memory pointer. -/
theorem tame_of_plain {r : Rig σ} {p : Program} (noData : p.storage = [])
    (plain : ∀ t ∈ p.code.tokens, t.op? ≠ some .poke ∧ t.op? ≠ some .read)
    (loaded : r.machine.storage = (Machine.ofProgram p).storage) (bs : List Beat) : r.Tame bs := by
  induction bs generalizing r with
  | nil => trivial
  | cons b more ih =>
    exact ⟨fun _ => Machine.not_writesAtPointer_of_plain noData plain loaded, ih ((storage_beat r b).trans loaded)⟩

/-- The timer counts the ticks that begin while it is not paused. The numbers reported add up to the number of cycles,
of which each tick has at least one and at most 2880. A stopped machine takes no notice of the time that passes. -/
theorem timer_of_course {r : Rig σ} {qs : List Request} {k : Nat} {s : Scheduler} (tame : r.Tame (r.course qs))
    (due : r.machine.scheduler.due r.machine.running qs = some (k, s)) :
    (∃ n after, r.serveAll qs = some (n, after) ∧ r.beats (r.course qs) = after ∧
      (r.course qs).count .tick = k ∧ (r.course qs).count .cycle = n ∧ k ≤ n ∧ n ≤ 2880 * k ∧
      after.machine.scheduler = s ∧
      after.machine.timer.toNat = (r.machine.timer.toNat + r.unpaused (r.course qs)) % 256) ∧
    ∀ (stopped : Rig σ) (elapsed : Duration), stopped.machine.running = false →
      stopped.advance elapsed = some (0, stopped) := by
  obtain ⟨n, after, served, leads, scheduler⟩ := leads_serveAll due
  have counted := timer_beats tame
  rw [leads.reached] at counted
  refine ⟨⟨n, after, served, leads.reached, leads.ticks, leads.cycles, leads.least, leads.most, scheduler, ?_⟩,
    fun stopped elapsed still => advance_of_stopped still elapsed stopped.host⟩
  rw [counted, UInt8.toNat_add, UInt8.toNat_ofNat', Nat.add_mod_mod]

/-- A program that pauses the timer: of two ticks the first one is counted, and what is left of the time passes while
the machine is stopped. -/
theorem timer_of_course_paused :
    let p : Program := { name := "stopwatch", code := ⟨[.ofOpcode .set 255, .ofOpcode .mov 12], .empty⟩ }
    let r : Rig Shelf := ⟨.ofProgram p, ⟨.empty, #[]⟩⟩
    let qs : List Request := [.advance (.ofNanoseconds 67000000), .pause, .advance ⟨7200, 0⟩]
    r.Tame (r.course qs) ∧
      r.machine.scheduler.due r.machine.running qs = some (2, Scheduler.afterTwoTicks) ∧
      ∃ n after, r.serveAll qs = some (n, after) ∧ 2 ≤ n ∧ n ≤ 5760 ∧ after.machine.timer.toNat = 1 := by
  intro p r qs
  have tame : r.Tame (r.course qs) := tame_of_plain (p := p) rfl (by decide) rfl _
  have advanced : r.machine.scheduler.advance (.ofNanoseconds 67000000) = some (2, .afterTwoTicks) :=
    Scheduler.advance_fresh_twice
  have running : r.machine.running = true := rfl
  have due : r.machine.scheduler.due r.machine.running qs = some (2, .afterTwoTicks) := by
    rw [running, Scheduler.due, advanced]
    rfl
  obtain ⟨⟨n, after, served, -, -, -, least, most, -, counted⟩, -⟩ := timer_of_course tame due
  have course : r.course qs =
      .schedule .afterTwoTicks :: tickBeats 2 (r.beat (.schedule .afterTwoTicks)) ++ [.pause] := by
    have first : r.serving (.advance (.ofNanoseconds 67000000)) =
        .schedule .afterTwoTicks :: tickBeats 2 (r.beat (.schedule .afterTwoTicks)) := by
      rw [serving, running, if_pos rfl, advanced]
    have stopped (next : Rig Shelf) : next.course [.pause, .advance ⟨7200, 0⟩] = [.pause] := rfl
    rw [course, first, serve, advance_of_running running advanced]
    exact congrArg _ (stopped _)
  have once : r.unpaused (r.course qs) = 1 := by
    rw [course]
    decide +kernel
  have zero : r.machine.timer = 0 := by decide +kernel
  rw [once, zero] at counted
  exact ⟨tame, due, n, after, served, least, most, counted⟩

end Rig

end PocketConsole
