import PocketConsole.Proofs.CommandLine.Presses
import PocketConsole.Proofs.Console.Frames
import PocketConsole.Proofs.Files.ReadBack
import PocketConsole.Proofs.Time.CatchingUp

namespace PocketConsole

namespace Arguments

/-- A run comes to its first frame: there are a source text, a store, and a time from one frame to the next. -/
structure Ready (args : Arguments) (files : FileTree) (source : String) (store : AnyStore) (elapsed : Duration) :
    Prop where
  positive : args.rate.isPositive = true
  source : readSource files args.source = .ok source
  store : openStore files args.saves = .ok store
  period : args.rate.period? = some elapsed

theorem readSource_of_read {files : FileTree} {path text : String} (read : files.read path = .ok text.toUTF8) :
    readSource files path = .ok text := by
  rw [readSource, read]
  dsimp only
  rw [FileTree.fromUTF8?_toUTF8]

theorem isPositive_defaultRate : defaultRate.isPositive = true := by
  decide +kernel

theorem period_defaultRate : defaultRate.period? = some ⟨0, 33333333⟩ := by
  decide +kernel

variable {args : Arguments} {files : FileTree} {source : String} {store : AnyStore} {elapsed : Duration}

/-- From the first frame on a run depends on its start alone. -/
theorem Ready.execute_eq (ready : args.Ready files source store elapsed) (writer : ImageWriter) :
    execute files args writer = args.playOut writer files elapsed (args.start source store) := by
  obtain ⟨positive, read, opened, period⟩ := ready
  rw [execute, if_pos positive, read]
  dsimp only
  rw [opened]
  dsimp only
  rw [period]

/-- A run that breaks off in one of its frames leaves what the break tells of. -/
theorem Ready.execute_of_broken (ready : args.Ready files source store elapsed) {b : Progress.Break}
    (broken : Progress.checkedPlay args.presses elapsed args.frames.toNat 0 (args.start source store) = .error b)
    (writer : ImageWriter) : execute files args writer = b.conduct files := by
  rw [ready.execute_eq, playOut]
  dsimp only
  rw [broken]

/-- A run that prints its screen has come to its first frame. -/
theorem ready_of_shown {writer : ImageWriter} {pixels : Vector UInt32 512} {saved : Bool}
    (shown : (execute files args writer).ending = .shown pixels saved) :
    ∃ source store elapsed, args.Ready files source store elapsed := by
  unfold execute at shown
  by_cases positive : args.rate.isPositive = true
  · rw [if_pos positive] at shown
    cases read : readSource files args.source with
    | error f =>
      rw [read] at shown
      cases shown
    | ok source =>
      rw [read] at shown
      cases opened : openStore files args.saves with
      | error f =>
        rw [opened] at shown
        cases shown
      | ok store =>
        rw [opened] at shown
        cases period : args.rate.period? with
        | none =>
          rw [period] at shown
          cases shown
        | some elapsed => exact ⟨source, store, elapsed, positive, read, opened, period⟩
  · rw [if_neg positive] at shown
    cases shown

end Arguments

namespace Progress

variable {presses : List Press} {elapsed : Duration} {p q : Progress}

/-- The machine of a run is running, and nothing has happened to its scheduler but that time has passed. -/
structure UnderWay (p : Progress) : Prop where
  running : p.console.rig.machine.running = true
  reached : p.console.rig.machine.scheduler.Reached

theorem underWay_start (args : Arguments) (source : String) (store : AnyStore) :
    (args.start source store).UnderWay where
  running := rfl
  reached := .fresh

/-- What a frame leaves of a run: it is still under way, has counted no more cycles than those of the ticks that can be
due, and has shown one more picture. -/
theorem UnderWay.step (underWay : p.UnderWay) {frame : Nat} (stepped : p.step presses elapsed frame = some q) :
    q.UnderWay ∧ q.cycles ≤ p.cycles + 2880 * (1000 * (elapsed.seconds.toNat + 2)) ∧
      ∃ picture, q.console.screen = p.console.screen.draw picture := by
  obtain ⟨out, after, run, machine, screen, cycles⟩ := update_of_step stepped
  obtain ⟨due, s, advanced, ran⟩ := Console.ran_of_update underWay.running run
  have counted := ran.most.trans (Nat.mul_le_mul_left cyclesPerTick (underWay.reached.due_le advanced))
  refine ⟨⟨?_, ?_⟩, ?_, _, screen.trans ran.screen⟩
  · rw [machine]
    exact ran.running
  · rw [machine, ran.scheduler]
    exact underWay.reached.advance advanced
  · rw [cycles]
    exact Nat.add_le_add_left counted p.cycles

/-- A run stays under way, and a frame adds no more than the cycles of the ticks that can be due in it. -/
theorem UnderWay.play (underWay : p.UnderWay) {n frame : Nat} (played : play presses elapsed n frame p = some q) :
    q.UnderWay ∧ q.cycles ≤ p.cycles + n * (2880 * (1000 * (elapsed.seconds.toNat + 2))) := by
  induction n generalizing q with
  | zero =>
    cases played
    exact ⟨underWay, Nat.le_add_right _ _⟩
  | succ n ih =>
    rw [play_succ, Option.bind_eq_some_iff] at played
    obtain ⟨before, played, stepped⟩ := played
    obtain ⟨between, sum⟩ := ih played
    obtain ⟨after, more, -⟩ := between.step stepped
    refine ⟨after, ?_⟩
    rw [Nat.succ_mul, ← Nat.add_assoc]
    exact more.trans (Nat.add_le_add_right sum _)

/-- As long as they can be counted, every frame counts as one picture shown. -/
theorem UnderWay.frames_of_play (underWay : p.UnderWay) {n frame : Nat}
    (played : Progress.play presses elapsed n frame p = some q) (room : p.console.screen.frames + n < UInt64.size) :
    q.console.screen.frames = p.console.screen.frames + n := by
  induction n generalizing q with
  | zero =>
    cases played
    rfl
  | succ n ih =>
    rw [play_succ, Option.bind_eq_some_iff] at played
    obtain ⟨before, played, stepped⟩ := played
    have counted := ih played (by omega)
    obtain ⟨-, -, picture, drawn⟩ := (underWay.play played).1.step stepped
    have free : before.console.screen.isFull = false := decide_eq_false (by omega)
    rw [drawn, Screen.frames_draw free, counted, Nat.add_assoc]

/-- A call that takes no time runs no cycle, and finds video memory and the store as they are. -/
theorem UnderWay.last_update (underWay : p.UnderWay) (e : Event) :
    ∃ out final, (p.note e).console.update .zero {} = some (out, final) ∧
      (p.note e).console.checkedUpdate .zero {} =
        (if p.console.screen.frames + 1 = UInt64.size then .error .addOverflow else .ok (some (out, final))) ∧
      final.rig.machine.video = p.console.rig.machine.video ∧ final.rig.host.store = p.console.rig.host.store := by
  obtain ⟨running, reached⟩ := underWay
  have running : (p.note e).console.rig.machine.running = true := running
  obtain ⟨out, final, run, ran⟩ := Console.update_of_running running reached.advance_zero {}
  obtain ⟨video, store⟩ := Console.still_of_update running reached.advance_zero run
  refine ⟨out, final, run, ?_, video, store⟩
  have few : out.cycles < UInt64.size := Nat.lt_of_le_of_lt ran.most (by decide)
  have full := Console.isFull_iff running
  by_cases last : p.console.screen.frames + 1 = UInt64.size
  · rw [if_pos last]
    exact Console.checkedUpdate_eq_error_iff.2 ⟨out, final, run, .inr (full.2 last)⟩
  · rw [if_neg last]
    exact Console.checkedUpdate_eq_some_iff.2 ⟨run, few, Bool.eq_false_iff.2 (mt full.1 last)⟩

end Progress

end PocketConsole
