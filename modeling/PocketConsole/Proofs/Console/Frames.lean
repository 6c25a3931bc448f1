import PocketConsole.Proofs.Console.Standstill
import PocketConsole.Proofs.Machine.Timer

namespace PocketConsole

theorem Machine.video_congr {m n : Machine} (same : m.SameIn n .video) : n.video = m.video := by
  rw [video, video]
  exact congrArg Vector.ofFn (funext fun i => Bank.getIn_congr same i)

namespace Console

variable {σ : Type}

/-- What a call comes to on a running machine, in the course of which ticks are due. -/
structure Ran (c : Console σ) (due : Nat) (s : Scheduler) (out : Output) (after : Console σ) : Prop where
  running : after.rig.machine.running = true
  scheduler : after.rig.machine.scheduler = s
  least : due ≤ out.cycles
  most : out.cycles ≤ cyclesPerTick * due
  /-- The screen shows what is in video memory at the end. -/
  screen : after.screen = c.screen.draw after.rig.machine.video
  pixels : out.pixels = after.screen.pixels

variable [Store σ] {c : Console σ} {elapsed : Duration} {input : Input}

/-- A frame of a running machine passes the time, then draws, and the buttons age. -/
theorem frame_of_running (running : c.rig.machine.running = true) {due : Nat} {s : Scheduler}
    (advanced : c.rig.machine.scheduler.advance elapsed = some (due, s)) :
    ∃ n r, c.frame elapsed = some (n, ({ c with rig := r } : Console σ).acts [.draw, .age]) ∧
      r.machine.running = true ∧ r.machine.scheduler = s ∧ due ≤ n ∧ n ≤ cyclesPerTick * due := by
  obtain ⟨n, r, passed, leads, scheduler, still⟩ := Rig.leads_advance running advanced
  have framed : c.rig.frame elapsed = some ⟨r, n, some r.machine.video⟩ := by
    rw [Rig.frame, if_pos running, passed, Option.map_some]
  refine ⟨n, r, ?_, still, scheduler, leads.least, leads.most⟩
  obtain ⟨rig, screen, tone, waiting⟩ := c
  obtain ⟨m, host⟩ := r
  unfold frame
  dsimp only
  rw [framed]
  dsimp only
  rw [if_pos still]
  rfl

theorem update_of_frame {n : Nat} {framed : Console σ}
    (run : (c.acts (intake input)).frame elapsed = some (n, framed)) :
    ∃ out, c.update elapsed input = some (out, framed.acts [.listen, .collect]) ∧ out.cycles = n ∧
      out.pixels = (framed.acts [.listen, .collect]).screen.pixels := by
  rw [update, ← acts_intake]
  dsimp only
  rw [run]
  exact ⟨_, rfl, rfl, rfl⟩

theorem update_of_running (running : c.rig.machine.running = true) {due : Nat} {s : Scheduler}
    (advanced : c.rig.machine.scheduler.advance elapsed = some (due, s)) (input : Input) :
    ∃ out after, c.update elapsed input = some (out, after) ∧ c.Ran due s out after := by
  have taken : c.Hears (c.acts (intake input)) := c.hears_acts fun _ member => peripheral_of_mem_intake member
  rw [← taken.machine.alike.scheduler] at advanced
  obtain ⟨n, r, framed, still, scheduler, least, most⟩ := frame_of_running (taken.running.trans running) advanced
  obtain ⟨out, run, rfl, pixels⟩ := update_of_frame framed
  generalize ended : ({ c.acts (intake input) with rig := r } : Console σ).acts [.draw, .age] = drawn at run pixels
  have screen : drawn.screen = c.screen.draw r.machine.video := by
    rw [← ended, ← taken.screen]
    rfl
  have aged : r.machine.Alike drawn.rig.machine ∧ r.machine.SameIn drawn.rig.machine .video := by
    rw [← ended]
    exact ⟨alike_acts { c.acts (intake input) with rig := r } (by simp),
      sameIn_acts (by decide) (by decide) (.of_not_mem (by simp))⟩
  -- after the frame the tone is noted and a packet is taken off the serial line
  have heard : drawn.Hears (drawn.acts [.listen, .collect]) := drawn.hears_acts (by simp [Act.Peripheral])
  have same : drawn.rig.machine.SameIn (drawn.acts [.listen, .collect]).rig.machine .video :=
    sameIn_acts (by decide) (by decide) (.of_not_mem (by simp))
  have alike := aged.1.trans heard.machine.alike
  refine ⟨out, _, run, alike.running.trans still, alike.scheduler.trans scheduler, least, most, ?_, pixels⟩
  rw [heard.screen, screen, Machine.video_congr (aged.2.trans same)]

/-- Only a cycle reaches the store. -/
theorem store_act (c : Console σ) {a : Act} (other : a ≠ .cycle) :
    (c.act a).rig.host.store = c.rig.host.store := by
  cases a with
  | cycle => exact absurd rfl other
  | countTick =>
    rw [act, Rig.countTick]
    split <;> rfl
  | draw => rw [act]
  | schedule | age => rfl
  | press b => exact (c.hears_act (a := .press b) trivial).store
  | letGo b => exact (c.hears_act (a := .letGo b) trivial).store
  | queue p => rfl
  | deliver => exact (c.hears_act (a := .deliver) trivial).store
  | listen => exact (c.hears_act (a := .listen) trivial).store
  | collect => exact (c.hears_act (a := .collect) trivial).store

theorem store_acts (c : Console σ) {as : List Act} (noCycle : .cycle ∉ as) :
    (c.acts as).rig.host.store = c.rig.host.store := by
  induction as generalizing c with
  | nil => rfl
  | cons a more ih =>
    rw [List.mem_cons, not_or] at noCycle
    exact (ih (c.act a) noCycle.2).trans (c.store_act (Ne.symm noCycle.1))

/-- A call in which no tick is due leaves video memory and the store as they are. -/
theorem still_of_update (running : c.rig.machine.running = true) {s : Scheduler}
    (advanced : c.rig.machine.scheduler.advance elapsed = some (0, s)) {out : Output} {after : Console σ}
    (run : c.update elapsed input = some (out, after)) :
    after.rig.machine.video = c.rig.machine.video ∧ after.rig.host.store = c.rig.host.store := by
  have noCycle : .cycle ∉ c.script elapsed input := by
    rw [cycle_mem_script_iff running, advanced]
    rintro ⟨due, t, later⟩
    cases later
  have foreign (a : Act) : .video ∉ a.regions := by
    cases a <;> (rw [Act.regions]; decide)
  rw [← eq_acts_of_update run]
  exact ⟨Machine.video_congr (sameIn_acts (by decide) (fun a _ => foreign a) (.of_not_mem noCycle)),
    c.store_acts noCycle⟩

/-- A call on a running machine has an end exactly if its time has. -/
theorem update_eq_none_iff (running : c.rig.machine.running = true) :
    c.update elapsed input = none ↔ c.rig.machine.scheduler.advance elapsed = none := by
  cases advanced : c.rig.machine.scheduler.advance elapsed with
  | some passed =>
    obtain ⟨out, after, run, -⟩ := update_of_running running advanced input
    rw [run]
    exact iff_of_false nofun nofun
  | none =>
    refine iff_of_true ?_ rfl
    cases run : c.update elapsed input with
    | none => rfl
    | some result =>
      obtain ⟨out, after⟩ := result
      have alike := alike_intake c input
      obtain ⟨frame, acted⟩ := frameActs_of_update run
      rw [frameActs_of_endless (alike.running.trans running) (alike.scheduler ▸ advanced)] at acted
      cases acted

theorem ran_of_update (running : c.rig.machine.running = true) {out : Output} {after : Console σ}
    (run : c.update elapsed input = some (out, after)) :
    ∃ due s, c.rig.machine.scheduler.advance elapsed = some (due, s) ∧ c.Ran due s out after := by
  cases advanced : c.rig.machine.scheduler.advance elapsed with
  | none =>
    rw [(update_eq_none_iff running).2 advanced] at run
    cases run
  | some passed =>
    obtain ⟨given, next, called, ran⟩ := update_of_running running advanced input
    rw [called] at run
    cases run
    exact ⟨passed.1, passed.2, rfl, ran⟩

/-! ### Calls with sums of 64 bits -/

theorem checkedUpdate_eq_none_iff (running : c.rig.machine.running = true) :
    c.checkedUpdate elapsed input = .ok none ↔ c.rig.machine.scheduler.advance elapsed = none := by
  rw [← update_eq_none_iff running, checkedUpdate]
  cases c.update elapsed input with
  | none => exact iff_of_true rfl rfl
  | some result =>
    refine iff_of_false (fun same => ?_) nofun
    dsimp only at same
    split at same <;> cases same

theorem checkedUpdate_eq_error_iff :
    c.checkedUpdate elapsed input = .error .addOverflow ↔
      ∃ out after, c.update elapsed input = some (out, after) ∧ (UInt64.size ≤ out.cycles ∨ c.isFull = true) := by
  rw [checkedUpdate]
  cases c.update elapsed input with
  | none => exact iff_of_false nofun nofun
  | some result =>
    obtain ⟨out, after⟩ := result
    dsimp only
    by_cases large : UInt64.size ≤ out.cycles ∨ c.isFull = true
    · rw [if_pos large]
      exact iff_of_true rfl ⟨out, after, rfl, large⟩
    · rw [if_neg large]
      refine iff_of_false nofun ?_
      rintro ⟨_, _, ⟨⟩, other⟩
      exact large other

theorem checkedUpdate_eq_some_iff {out : Output} {after : Console σ} :
    c.checkedUpdate elapsed input = .ok (some (out, after)) ↔
      c.update elapsed input = some (out, after) ∧ out.cycles < UInt64.size ∧ c.isFull = false := by
  rw [checkedUpdate]
  cases c.update elapsed input with
  | none => exact iff_of_false nofun nofun
  | some result =>
    obtain ⟨given, next⟩ := result
    dsimp only
    by_cases large : UInt64.size ≤ given.cycles ∨ c.isFull = true
    · rw [if_pos large]
      refine iff_of_false nofun ?_
      rintro ⟨⟨⟩, few, room⟩
      exact large.elim (Nat.not_le_of_lt few) (Bool.eq_false_iff.1 room)
    · obtain ⟨few, room⟩ := not_or.1 large
      rw [if_neg large]
      constructor
      · rintro ⟨⟩
        exact ⟨rfl, Nat.lt_of_not_le few, Bool.eq_false_iff.2 room⟩
      · rintro ⟨⟨⟩, -⟩
        rfl

omit [Store σ] in
theorem isFull_iff (running : c.rig.machine.running = true) :
    c.isFull = true ↔ c.screen.frames + 1 = UInt64.size := by
  have bound : c.screen.frames < UInt64.size := c.screen.count.toNat_lt
  rw [isFull, running, Bool.true_and, Screen.isFull, decide_eq_true_eq]
  omega

end Console

end PocketConsole
