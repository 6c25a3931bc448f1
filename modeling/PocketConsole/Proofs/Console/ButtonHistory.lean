import PocketConsole.Proofs.Console.Presses

namespace PocketConsole

namespace Input

/-- The input has something to say of a button. -/
def Names (input : Input) (b : Button) : Prop :=
  b ∈ input.pressed ∨ b ∈ input.released

instance (input : Input) (b : Button) : Decidable (input.Names b) :=
  inferInstanceAs (Decidable (_ ∨ _))

/-- The last of several inputs that names a button. -/
def latest? (inputs : List Input) (b : Button) : Option Input :=
  inputs.reverse.find? fun input => input.Names b

/-- The byte of a button after calls with several inputs, from the byte before them. -/
def settled (inputs : List Input) (b : Button) (v : UInt8) : UInt8 :=
  match latest? inputs b with
  | some input => if b ∈ input.released then Button.up else Button.held
  | none => v

theorem latest?_cons (input : Input) (more : List Input) (b : Button) :
    latest? (input :: more) b = (latest? more b).or (if input.Names b then some input else none) := by
  rw [latest?, List.reverse_cons, List.find?_append, latest?]
  congr 1
  by_cases named : input.Names b
  · rw [if_pos named]
    exact List.find?_cons_of_pos (decide_eq_true named)
  · rw [if_neg named]
    exact List.find?_cons_of_neg fun holds => named (of_decide_eq_true holds)

theorem settled_cons (input : Input) (more : List Input) (b : Button) (v : UInt8) :
    settled (input :: more) b v = settled more b (settled [input] b v) := by
  rw [settled, settled, settled, latest?_cons, latest?_cons]
  cases latest? more b <;> rfl

/-- Between calls a button is up or held. -/
def AtRest (v : UInt8) : Prop :=
  v = Button.up ∨ v = Button.held

theorem AtRest.ne_justPressed {v : UInt8} (rest : AtRest v) : v ≠ Button.justPressed := by
  rcases rest with rfl | rfl <;> decide

theorem atRest_settled (inputs : List Input) (b : Button) {v : UInt8} (rest : AtRest v) :
    AtRest (settled inputs b v) := by
  unfold settled
  split
  · split
    · exact .inl rfl
    · exact .inr rfl
  · exact rest

theorem settled_singleton (input : Input) (b : Button) (v : UInt8) :
    settled [input] b v =
      if b ∈ input.released then Button.up else if b ∈ input.pressed then Button.held else v := by
  have single : latest? [input] b = if input.Names b then some input else none := latest?_cons input [] b
  rw [settled, single]
  by_cases released : b ∈ input.released
  · rw [if_pos (show input.Names b from .inr released)]
    simp only [if_pos released]
  by_cases pressed : b ∈ input.pressed
  · rw [if_pos (show input.Names b from .inl pressed)]
    simp only [if_neg released, if_pos pressed]
  · rw [if_neg (show ¬ input.Names b from not_or.2 ⟨pressed, released⟩)]
    simp only [if_neg released, if_neg pressed]

/-- What one call with its ageing makes of a button at rest. -/
theorem aged_taken (input : Input) (b : Button) {v : UInt8} (rest : AtRest v) :
    Machine.aged (input.taken b v) = settled [input] b v := by
  rw [settled_singleton, taken]
  by_cases released : b ∈ input.released
  · rw [if_pos released, if_pos released]
    exact Machine.aged_of_ne (by decide)
  rw [if_neg released, if_neg released]
  by_cases pressed : b ∈ input.pressed
  · rw [if_pos pressed]
    rcases rest with rfl | rfl
    · rw [if_pos ⟨pressed, rfl⟩]
      exact if_pos rfl
    · rw [if_neg fun both => absurd both.2 (by decide)]
      exact Machine.aged_of_ne (by decide)
  · rw [if_neg pressed, if_neg fun both => pressed both.1]
    exact Machine.aged_of_ne rest.ne_justPressed

/-- A button at rest is just pressed in a call just if it is up, and the call presses it and does not let it go. -/
theorem taken_eq_justPressed_iff (input : Input) (b : Button) {v : UInt8} (rest : AtRest v) :
    input.taken b v = Button.justPressed ↔ v = Button.up ∧ b ∈ input.pressed ∧ b ∉ input.released := by
  rw [taken]
  by_cases released : b ∈ input.released
  · rw [if_pos released]
    exact iff_of_false (by decide) fun all => all.2.2 released
  by_cases fresh : b ∈ input.pressed ∧ v = Button.up
  · rw [if_neg released, if_pos fresh]
    exact iff_of_true rfl ⟨fresh.2, fresh.1, released⟩
  · rw [if_neg released, if_neg fresh]
    exact iff_of_false rest.ne_justPressed fun all => fresh ⟨all.2.1, all.1⟩

end Input

namespace Console

variable {σ : Type} [Store σ]

theorem running_acts (c : Console σ) (as : List Act) : (c.acts as).rig.machine.running = c.rig.machine.running := by
  induction as generalizing c with
  | nil => rfl
  | cons a more ih =>
    have first : (c.act a).rig.machine.running = c.rig.machine.running := by
      cases a
      case schedule s => rfl
      all_goals exact (alike_act c (by simp)).running
    exact (ih (c.act a)).trans first

theorem history_append {c d : Console σ} {before : List (Duration × Input)} (run : c.updates before = some d)
    (later : List (Duration × Input)) : c.history (before ++ later) = c.history before ++ d.history later := by
  induction before generalizing c with
  | nil =>
    cases run
    rfl
  | cons call more ih =>
    obtain ⟨elapsed, input⟩ := call
    rw [updates, Option.bind_eq_some_iff] at run
    obtain ⟨⟨out, between⟩, first, rest⟩ := run
    rw [List.cons_append, history, history, first, List.append_assoc]
    exact congrArg _ (ih rest)

/-- Calls settle every button by the last of them that names it. -/
theorem button_updates {c after : Console σ} {calls : List (Duration × Input)}
    (running : c.rig.machine.running = true)
    (spared : c.EveryCycle (fun m => m.Spares .buttons) (c.history calls)) (run : c.updates calls = some after)
    {b : Button} (rest : Input.AtRest (c.rig.machine.button b.index)) :
    after.rig.machine.button b.index = Input.settled (calls.map Prod.snd) b (c.rig.machine.button b.index) := by
  induction calls generalizing c with
  | nil =>
    cases run
    rfl
  | cons call more ih =>
    obtain ⟨elapsed, input⟩ := call
    rw [updates, Option.bind_eq_some_iff] at run
    obtain ⟨⟨out, between⟩, first, later⟩ := run
    have acted := eq_acts_of_update first
    rw [history, first] at spared
    have ended := (button_call spared.left b).2 out between first
    rw [if_pos running, Input.aged_taken input b rest] at ended
    have still := running_acts c (c.script elapsed input)
    have onwards := spared.right
    rw [acted] at still onwards
    have settled := ih (still.trans running) onwards later (ended ▸ Input.atRest_settled [input] b rest)
    rw [settled, ended, List.map_cons]
    exact (Input.settled_cons input _ b _).symm

/-- After a load the calls decide the buttons. After any of them a button is held if the last one that names it presses
it and does not let it go, and else up: it is never just pressed. It is just pressed in the cycles of a call, as long as
these leave the buttons alone, just if it was up and the call presses it and does not let it go. A call has an end if
its time has. -/
theorem button_of_history {c : Console σ} {p : Program} {calls : List (Duration × Input)}
    (spared : (c.load p).EveryCycle (fun m => m.Spares .buttons) ((c.load p).history calls)) (b : Button) :
    ∀ before later, calls = before ++ later → ∀ d, (c.load p).updates before = some d →
      d.rig.machine.button b.index = Input.settled (before.map Prod.snd) b Button.up ∧
        d.rig.machine.button b.index ≠ Button.justPressed ∧
        ∀ elapsed input rest, later = (elapsed, input) :: rest →
          d.EveryCycle (fun m => m.button b.index = Button.justPressed ↔
              d.rig.machine.button b.index = Button.up ∧ b ∈ input.pressed ∧ b ∉ input.released)
            (d.script elapsed input) ∧
          ∀ due s, d.rig.machine.scheduler.advance elapsed = some (due, s) →
            ∃ out next, d.update elapsed input = some (out, next) := by
  rintro before later rfl d run
  have loaded : (c.load p).rig.machine.running = true := rfl
  have up : (c.load p).rig.machine.button b.index = Button.up := button_load c p b.index
  have acted := eq_acts_of_updates run
  rw [history_append run] at spared
  have onwards := spared.right
  have running := running_acts (c.load p) ((c.load p).history before)
  rw [acted] at onwards running
  have settled := button_updates loaded spared.left run (b := b) (.inl up)
  rw [up] at settled
  have rest : Input.AtRest (d.rig.machine.button b.index) := settled ▸ Input.atRest_settled _ b (.inl rfl)
  refine ⟨settled, rest.ne_justPressed, ?_⟩
  rintro elapsed input more rfl
  refine ⟨(button_call onwards.left b).1.imp fun m found => ?_, fun due s advanced =>
    exists_update_of_advance (running.trans loaded) advanced input⟩
  rw [found]
  exact Input.taken_eq_justPressed_iff input b rest

/-- Of two buttons pressed in a call one is let go in it as well: after the call one is held and one up. The other is
just pressed in the next call, though the first one is pressed there too. -/
theorem button_of_history_of_two :
    let c : Console Shelf := { rig := ⟨.fresh, ⟨.empty, #[]⟩⟩ }
    let first : Input := { pressed := [.left, .right, .left], released := [.right] }
    let second : Input := { pressed := [.right, .left] }
    ∃ d, (c.load (.single .btn)).updates [(.ofNanoseconds 34000000, first)] = some d ∧
      d.rig.machine.button Button.left.index = Button.held ∧ d.rig.machine.button Button.right.index = Button.up ∧
      d.EveryCycle (fun m => m.button Button.right.index = Button.justPressed)
        (d.script (.ofNanoseconds 34000000) second) ∧
      d.EveryCycle (fun m => m.button Button.left.index ≠ Button.justPressed)
        (d.script (.ofNanoseconds 34000000) second) := by
  intro c first second
  let calls : List (Duration × Input) := [(.ofNanoseconds 34000000, first), (.ofNanoseconds 34000000, second)]
  have spared := spares_single c ((c.load (.single .btn)).history calls)
  have running : (c.load (.single .btn)).rig.machine.running = true := rfl
  obtain ⟨s, advanced⟩ := Scheduler.advance_fresh
  obtain ⟨out, d, called⟩ := exists_update_of_advance running advanced first
  have run : (c.load (.single .btn)).updates [(.ofNanoseconds 34000000, first)] = some d := by
    rw [updates, called]
    rfl
  have found := fun b => button_of_history spared b [(.ofNanoseconds 34000000, first)]
    [(.ofNanoseconds 34000000, second)] rfl d run
  obtain ⟨left, -, leftLater⟩ := found .left
  obtain ⟨right, -, rightLater⟩ := found .right
  have held : d.rig.machine.button Button.left.index = Button.held := left.trans (by decide)
  have up : d.rig.machine.button Button.right.index = Button.up := right.trans (by decide)
  refine ⟨d, run, held, up, ?_, ?_⟩
  · exact (rightLater _ _ _ rfl).1.imp fun m seen => seen.2 ⟨up, by decide, by decide⟩
  · refine (leftLater _ _ _ rfl).1.imp fun m seen pressed => ?_
    exact absurd (held.symm.trans (seen.1 pressed).1) (by decide)

end Console

end PocketConsole
