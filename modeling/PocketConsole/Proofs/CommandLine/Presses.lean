import PocketConsole.CommandLine.Run
import PocketConsole.Proofs.Console.Presses

namespace PocketConsole

namespace Arguments

/-- A press of a button is meant for a frame. -/
def Begins (presses : List Press) (frame : Nat) (b : Button) : Prop :=
  ∃ p ∈ presses, p.frame.toNat = frame ∧ p.button = b

/-- A press of a button is meant for the frame before. -/
def Ends (presses : List Press) (frame : Nat) (b : Button) : Prop :=
  ∃ p ∈ presses, p.frame.toNat + 1 = frame ∧ p.button = b

instance (presses : List Press) (frame : Nat) (b : Button) : Decidable (Begins presses frame b) :=
  inferInstanceAs (Decidable (∃ p ∈ presses, _))

instance (presses : List Press) (frame : Nat) (b : Button) : Decidable (Ends presses frame b) :=
  inferInstanceAs (Decidable (∃ p ∈ presses, _))

theorem ends_succ_iff {presses : List Press} {frame : Nat} {b : Button} :
    Ends presses (frame + 1) b ↔ Begins presses frame b := by
  simp [Ends, Begins]

/-- The byte at which a button is found in a frame of a scripted run. A press is let go in the next frame,
after any press of that frame, which then has no effect. -/
def buttonByte (presses : List Press) (frame : Nat) (b : Button) : UInt8 :=
  if Begins presses frame b ∧ ¬ Ends presses frame b then Button.justPressed else Button.up

/-- What comes in with a frame of a scripted run. -/
def input (presses : List Press) (frame : Nat) : Input :=
  { pressed := pressedIn presses frame, released := releasedIn presses frame }

theorem mem_pressed_input_iff {presses : List Press} {frame : Nat} {b : Button} :
    b ∈ (input presses frame).pressed ↔ Begins presses frame b := by
  simp [input, pressedIn, Begins, and_assoc]

theorem mem_released_input_iff {presses : List Press} {frame : Nat} {b : Button} :
    b ∈ (input presses frame).released ↔ Ends presses frame b := by
  simp [input, releasedIn, Ends, and_assoc]

/-- A frame that finds a button up, if it does not let it go, finds it at its byte. -/
theorem taken_input {presses : List Press} {frame : Nat} {b : Button} {v : UInt8}
    (up : ¬ Ends presses frame b → v = Button.up) :
    (input presses frame).taken b v = buttonByte presses frame b := by
  rw [Input.taken, buttonByte, if_congr mem_released_input_iff rfl rfl]
  by_cases ends : Ends presses frame b
  · rw [if_pos ends, if_neg fun both => both.2 ends]
  · rw [if_neg ends, up ends]
    exact if_congr (and_congr mem_pressed_input_iff (iff_of_true rfl ends)) rfl rfl

theorem buttonByte_of_not_begins {presses : List Press} {frame : Nat} {b : Button}
    (quiet : ¬ Begins presses frame b) : buttonByte presses frame b = Button.up :=
  if_neg fun both => quiet both.1

end Arguments

namespace Progress

variable {presses : List Press} {elapsed : Duration}

theorem play_succ (presses : List Press) (elapsed : Duration) (n frame : Nat) (p : Progress) :
    play presses elapsed (n + 1) frame p =
      (play presses elapsed n frame p).bind (step presses elapsed (frame + n)) := by
  induction n generalizing frame p with
  | zero =>
    rw [play, Nat.add_zero, play, Option.bind_some]
    cases p.step presses elapsed frame <;> rfl
  | succ n ih =>
    rw [play]
    cases stepped : p.step presses elapsed frame with
    | none => rw [play, stepped]; rfl
    | some after =>
      have shifted : frame + 1 + n = frame + (n + 1) := by omega
      rw [play, stepped]
      dsimp only
      rw [ih, shifted]

/-- The second run is the first one with more noted. -/
structure Noted (p q : Progress) : Prop where
  machine : q.console.rig.machine = p.console.rig.machine
  screen : q.console.screen = p.console.screen
  cycles : q.cycles = p.cycles

theorem noted_noteTone (p : Progress) (frame : Nat) (hertz : UInt16) : p.Noted (p.noteTone frame hertz) := by
  unfold noteTone
  split <;> exact ⟨rfl, rfl, rfl⟩

theorem noted_notePacket (p : Progress) (frame : Nat) (packet : Option Packet) :
    p.Noted (p.notePacket frame packet) := by
  cases packet <;> exact ⟨rfl, rfl, rfl⟩

/-- A frame of a scripted run is a call of the console; what is noted of it besides does not touch machine and
screen. -/
theorem update_of_step {frame : Nat} {p q : Progress} (stepped : p.step presses elapsed frame = some q) :
    ∃ out after, p.console.update elapsed (Arguments.input presses frame) = some (out, after) ∧
      q.console.rig.machine = after.rig.machine ∧ q.console.screen = after.screen ∧
      q.cycles = p.cycles + out.cycles := by
  obtain ⟨console, cycles, tone⟩ := p
  obtain ⟨⟨out, after⟩, run, made⟩ := Option.map_eq_some_iff.1 stepped
  dsimp only at made
  generalize toned : noteTone _ frame out.tone = heard at made
  have first : Noted _ heard := toned ▸ noted_noteTone _ frame out.tone
  have second : heard.Noted q := made ▸ noted_notePacket heard frame out.packet
  exact ⟨out, after, run, second.machine.trans first.machine, second.screen.trans first.screen,
    second.cycles.trans first.cycles⟩

theorem step_eq_none_iff {frame : Nat} {p : Progress} :
    p.step presses elapsed frame = none ↔
      p.console.update elapsed (Arguments.input presses frame) = none := by
  obtain ⟨console, cycles, tone⟩ := p
  exact Option.map_eq_none_iff

/-- A frame of a run is reached unless the one before is not, or has no end. -/
theorem exists_play_or_endless (presses : List Press) (elapsed : Duration) (frame : Nat) (start : Progress) :
    (∃ p, play presses elapsed frame 0 start = some p) ∨
      ∃ before < frame, ∃ p, play presses elapsed before 0 start = some p ∧
        p.console.update elapsed (Arguments.input presses before) = none := by
  induction frame with
  | zero => exact .inl ⟨start, rfl⟩
  | succ frame ih =>
    rcases ih with ⟨p, played⟩ | ⟨before, earlier, p, played, endless⟩
    · rw [play_succ, played, Option.bind_some, Nat.zero_add]
      cases stepped : p.step presses elapsed frame with
      | some after => exact .inl ⟨after, rfl⟩
      | none => exact .inr ⟨frame, Nat.lt_succ_self frame, p, played, step_eq_none_iff.1 stepped⟩
    · exact .inr ⟨before, Nat.lt_succ_of_lt earlier, p, played, endless⟩

/-- In every frame before a given one that is reached, the program leaves the buttons alone. -/
def SparesButtons (presses : List Press) (elapsed : Duration) (start : Progress) (frames : Nat) : Prop :=
  ∀ frame < frames, ∀ p, play presses elapsed frame 0 start = some p →
    p.console.EveryCycle (fun m => m.Spares .buttons)
      (p.console.script elapsed (Arguments.input presses frame))

/-- A frame finds every button up that it does not let go. -/
theorem button_of_play {c : Console AnyStore} {program : Program} {frame : Nat} {p : Progress}
    (spared : SparesButtons presses elapsed { console := c.load program } frame)
    (played : play presses elapsed frame 0 { console := c.load program } = some p) {b : Button}
    (kept : ¬ Arguments.Ends presses frame b) : p.console.rig.machine.button b.index = Button.up := by
  induction frame generalizing p with
  | zero =>
    cases played
    exact Console.button_load c program b.index
  | succ frame ih =>
    rw [play_succ, Option.bind_eq_some_iff, Nat.zero_add] at played
    obtain ⟨before, played, stepped⟩ := played
    obtain ⟨out, after, run, same, -⟩ := update_of_step stepped
    have up := ih (fun earlier bound => spared earlier (Nat.lt_succ_of_lt bound)) played
    have ended := (Console.button_call (spared frame (Nat.lt_succ_self frame) before played) b).2 out after run
    have quiet : ¬ Arguments.Begins presses frame b := mt Arguments.ends_succ_iff.2 kept
    -- ageing leaves a button alone that is up
    rw [Arguments.taken_input up, Arguments.buttonByte_of_not_begins quiet, Machine.aged_of_ne (by decide),
      ite_self] at ended
    rw [same, ended]

/-- No frame of a run changes the program. -/
theorem sameProgram_play {start p : Progress} {frame : Nat}
    (played : play presses elapsed frame 0 start = some p) :
    start.console.rig.machine.SameProgram p.console.rig.machine := by
  induction frame generalizing p with
  | zero =>
    cases played
    exact .refl _
  | succ frame ih =>
    rw [play_succ, Option.bind_eq_some_iff] at played
    obtain ⟨before, played, stepped⟩ := played
    obtain ⟨out, after, run, same, -⟩ := update_of_step stepped
    rw [same, ← Console.eq_acts_of_update run]
    exact (ih played).trans (Console.sameProgram_acts _ _)

theorem sparesButtons_load (c : Console AnyStore) {program : Program} (noData : program.storage = [])
    (plain : ∀ t ∈ program.code.tokens, t.op? ≠ some .poke ∧ t.op? ≠ some .read) (presses : List Press)
    (elapsed : Duration) (frames : Nat) :
    SparesButtons presses elapsed { console := c.load program } frames := by
  intro frame _ p played
  exact (Console.tame_of_plain noData plain (sameProgram_play played).storage _).spares .buttons

/-- In a scripted run of a program that leaves the buttons alone, what is scripted for a frame and for the
frame before decides what the frame finds a button at, once it has taken in its presses and releases and
in each of its cycles. -/
theorem button_in_frame {c : Console AnyStore} {program : Program} {frames : Nat}
    (spared : SparesButtons presses elapsed { console := c.load program } frames) {frame : Nat}
    (bound : frame < frames) :
    ((∃ p, play presses elapsed frame 0 { console := c.load program } = some p) ∨
        ∃ before < frame, ∃ p, play presses elapsed before 0 { console := c.load program } = some p ∧
          p.console.update elapsed (Arguments.input presses before) = none) ∧
      ∀ p, play presses elapsed frame 0 { console := c.load program } = some p → ∀ b : Button,
        (p.console.acts (Console.intake (Arguments.input presses frame))).rig.machine.button b.index =
            Arguments.buttonByte presses frame b ∧
          p.console.EveryCycle (fun m => m.button b.index = Arguments.buttonByte presses frame b)
            (p.console.script elapsed (Arguments.input presses frame)) := by
  refine ⟨exists_play_or_endless presses elapsed frame _, fun p played b => ?_⟩
  have taken := Arguments.taken_input
    (button_of_play (fun earlier before => spared earlier (Nat.lt_trans before bound)) played (b := b))
  have every := (Console.button_call (spared frame bound p played) b).1
  rw [taken] at every
  exact ⟨(Console.button_intake p.console _ b).trans taken, every⟩

/-- A button pressed twice in the first frame is found just pressed by the cycles of that frame, and one
pressed in the next frame is found up. -/
theorem button_in_first_frame :
    let c : Console AnyStore := { rig := ⟨.fresh, ⟨.shelf .empty, #[]⟩⟩ }
    let presses : List Press := [⟨0, .left⟩, ⟨1, .right⟩, ⟨0, .left⟩]
    let elapsed : Duration := .ofNanoseconds 34000000
    let input : Input := Arguments.input presses 0
    .cycle ∈ (c.load (.single .btn)).script elapsed input ∧
      (c.load (.single .btn)).EveryCycle (fun m => m.button 0 = Button.justPressed)
        ((c.load (.single .btn)).script elapsed input) ∧
      (c.load (.single .btn)).EveryCycle (fun m => m.button 2 = Button.up)
        ((c.load (.single .btn)).script elapsed input) := by
  intro c presses elapsed input
  have spared : SparesButtons presses elapsed { console := c.load (.single .btn) } 2 :=
    sparesButtons_load c rfl (by decide) presses elapsed 2
  obtain ⟨-, found⟩ := button_in_frame spared (show 0 < 2 by decide)
  obtain ⟨s, advanced⟩ := Scheduler.advance_fresh
  exact ⟨(Console.cycle_mem_script_iff rfl).2 ⟨0, s, advanced⟩, (found _ rfl .left).2, (found _ rfl .right).2⟩

/-- A press is not seen if the button is pressed in the frame before as well: the release of the one comes
after the other. -/
theorem press_unseen_after_press : ¬ ∀ (c : Console AnyStore) (program : Program) (presses : List Press)
    (elapsed : Duration) (frames : Nat),
    (∀ entry ∈ presses, entry.frame.toNat + 1 < UInt64.size) →
    SparesButtons presses elapsed { console := c.load program } frames →
    ∀ entry ∈ presses, entry.frame.toNat < frames → ∀ p,
      play presses elapsed entry.frame.toNat 0 { console := c.load program } = some p →
      (p.console.acts
        (Console.intake (Arguments.input presses entry.frame.toNat))).rig.machine.button entry.button.index ≠
          Button.up := by
  intro seen
  let c : Console AnyStore := { rig := ⟨.fresh, ⟨.shelf .empty, #[]⟩⟩ }
  let presses : List Press := [⟨0, .left⟩, ⟨1, .left⟩]
  have running : (c.load (.single .btn)).rig.machine.running = true := rfl
  have fresh : (c.load (.single .btn)).rig.machine.scheduler = .fresh := rfl
  have spared : SparesButtons presses (.ofNanoseconds 34000000) { console := c.load (.single .btn) } 2 :=
    sparesButtons_load c rfl (by decide) presses _ 2
  -- what follows needs nothing else of the console, and must not run it
  clear_value c
  obtain ⟨reached, found⟩ := button_in_frame spared (show 1 < 2 by decide)
  obtain ⟨s, advanced⟩ := Scheduler.advance_fresh
  rcases reached with ⟨p, played⟩ | ⟨before, earlier, p, played, endless⟩
  · exact seen c _ presses _ 2 (by decide) spared ⟨1, .left⟩ (by decide) (by decide) p played
      (found p played .left).1
  · obtain rfl : before = 0 := by omega
    cases played
    rw [← fresh] at advanced
    obtain ⟨out, after, run⟩ := Console.exists_update_of_advance running advanced (Arguments.input presses 0)
    rw [endless] at run
    cases run

end Progress

end PocketConsole
