import PocketConsole.Proofs.Console.Footprint

namespace PocketConsole

namespace Machine

theorem button_writeIn (m : Machine) (b : Button) (n : Nat) (v : UInt8) :
    (m.writeIn .buttons n [v]).button b.index = if b.index = n then v else m.button b.index :=
  Bank.getIn_writeIn_singleton m.memory (by decide) b.index_lt n v

theorem button_press (m : Machine) (a b : Button) :
    (m.press a).button b.index =
      if b = a ∧ m.button b.index = Button.up then Button.justPressed else m.button b.index := by
  by_cases same : b = a
  · subst same
    rw [press]
    by_cases up : m.button b.index = Button.up
    · rw [if_pos up, button_writeIn, if_pos rfl, if_pos ⟨rfl, up⟩]
    · rw [if_neg up, if_neg fun both => up both.2]
  · have apart : b.index ≠ a.index := fun index => same (Button.index_injective index)
    rw [if_neg fun both => same both.1, press]
    split
    · rw [button_writeIn, if_neg apart]
    · rfl

theorem button_letGo (m : Machine) (a b : Button) :
    (m.letGo a).button b.index = if b = a then Button.up else m.button b.index := by
  rw [letGo, button_writeIn]
  exact if_congr ⟨Button.index_injective, congrArg Button.index⟩ rfl rfl

theorem button_foldl_press (bs : List Button) (m : Machine) (b : Button) :
    (bs.foldl press m).button b.index =
      if b ∈ bs ∧ m.button b.index = Button.up then Button.justPressed else m.button b.index := by
  induction bs generalizing m with
  | nil => exact (if_neg fun both => List.not_mem_nil both.1).symm
  | cons a more ih =>
    rw [List.foldl_cons, ih, button_press]
    by_cases up : m.button b.index = Button.up
    · by_cases same : b = a
      · -- pressed for good: what a further press finds is not up
        have down : Button.justPressed ≠ Button.up := by decide
        simp [same, down, same ▸ up]
      · simp [same, up]
    · simp [up]

theorem button_foldl_letGo (bs : List Button) (m : Machine) (b : Button) :
    (bs.foldl letGo m).button b.index = if b ∈ bs then Button.up else m.button b.index := by
  induction bs generalizing m with
  | nil => rfl
  | cons a more ih =>
    rw [List.foldl_cons, ih, button_letGo]
    by_cases same : b = a <;> simp [same]

theorem button_ageButtons (m : Machine) (b : Button) :
    m.ageButtons.button b.index = aged (m.button b.index) := by
  have inside : Region.buttons.stop ≤ 3200 := by decide
  have within : b.index < Region.buttons.len := b.index_lt
  have written := Bank.get_writeIn_zero m.memory inside within ((m.memory.slice .buttons).map aged)
  rw [List.getElem?_map, Bank.getElem?_slice _ inside, if_pos within, Option.map_some,
    Option.getD_some] at written
  rw [button, button, Bank.getIn_eq_get _ _ within, Bank.getIn_eq_get _ _ within]
  exact written

theorem aged_of_ne {v : UInt8} (other : v ≠ Button.justPressed) : aged v = v :=
  if_neg other

/-- No operation changes the buttons. -/
theorem leaves_buttons {m : Machine} (spared : m.Spares .buttons) : m.Leaves .buttons := by
  refine ⟨spared, fun op p next => ?_⟩
  cases op <;> decide

end Machine

/-- The byte of a button after what has come in, from the byte before. -/
def Input.taken (input : Input) (b : Button) (v : UInt8) : UInt8 :=
  if b ∈ input.released then Button.up
  else if b ∈ input.pressed ∧ v = Button.up then Button.justPressed
  else v

namespace Console

variable {σ : Type} [Store σ]

/-- Acts other than presses, releases and ageing leave the buttons alone, before each cycle and at the
end. -/
theorem button_acts {c : Console σ} {as : List Act} (others : ∀ a ∈ as, .buttons ∉ a.regions)
    (spared : c.EveryCycle (fun m => m.Spares .buttons) as) (n : Nat) :
    c.EveryCycle (fun m => m.button n = c.rig.machine.button n) as ∧
      (c.acts as).rig.machine.button n = c.rig.machine.button n := by
  have leaves : c.EveryCycle (fun m => m.Leaves .buttons) as := spared.imp fun _ => Machine.leaves_buttons
  have named : Region.buttons ∈ Region.all := by decide
  refine ⟨everyCycle_of_sameIn named others leaves ?_ rfl, Bank.getIn_congr (sameIn_acts named others leaves) n⟩
  intro m next same held
  exact (Bank.getIn_congr same n).trans held

theorem button_intake (c : Console σ) (input : Input) (b : Button) :
    (c.acts (intake input)).rig.machine.button b.index = input.taken b (c.rig.machine.button b.index) := by
  have others : ∀ a ∈ input.packet.toList.map Act.queue ++ [.deliver], Region.buttons ∉ a.regions := by
    intro a member
    rcases List.mem_append.1 member with queued | delivered
    · obtain ⟨p, -, rfl⟩ := List.mem_map.1 queued
      exact List.not_mem_nil
    · rw [List.mem_singleton.1 delivered]
      decide
  have noCycle : Act.cycle ∉ input.packet.toList.map Act.queue ++ [.deliver] := by simp
  rw [intake, List.append_assoc, List.append_assoc, acts_append, acts_append,
    (button_acts others (.of_not_mem noCycle) _).2, acts_map_onMachine (fun _ _ => rfl),
    acts_map_onMachine (fun _ _ => rfl)]
  exact (Machine.button_foldl_letGo _ _ b).trans
    (if_congr Iff.rfl rfl (Machine.button_foldl_press _ _ b))

theorem button_ending (c : Console σ) (running : Bool) (b : Button) :
    (c.acts ((if running then [.age] else []) ++ [.listen, .collect])).rig.machine.button b.index =
      if running then Machine.aged (c.rig.machine.button b.index) else c.rig.machine.button b.index := by
  have others : ∀ a ∈ [Act.listen, .collect], Region.buttons ∉ a.regions := by
    simp [Act.regions, Region.buttons, Region.serialState]
  rw [acts_append, (button_acts others (.of_not_mem (by simp)) _).2]
  cases running with
  | true => exact Machine.button_ageButtons _ b
  | false => rfl

omit [Store σ] in
theorem button_load (c : Console σ) (p : Program) (n : Nat) : (c.load p).rig.machine.button n = Button.up := by
  have zero : (c.load p).rig.machine.button n = (Bank.zero : Memory).getIn .buttons n := rfl
  rw [zero, Bank.getIn, Bank.get_zero, ite_self]
  rfl

/-- What comes in with a call decides what the program finds a button at in all of its cycles; after them
the button ages if the machine runs, however many cycles there were. -/
theorem button_call {c : Console σ} {elapsed : Duration} {input : Input}
    (spared : c.EveryCycle (fun m => m.Spares .buttons) (c.script elapsed input)) (b : Button) :
    let v := input.taken b (c.rig.machine.button b.index)
    c.EveryCycle (fun m => m.button b.index = v) (c.script elapsed input) ∧
      ∀ out after, c.update elapsed input = some (out, after) →
        after.rig.machine.button b.index = if c.rig.machine.running then Machine.aged v else v := by
  intro v
  have taken : (c.acts (intake input)).rig.machine.button b.index = v := button_intake c input b
  have before : ∀ P, c.EveryCycle P (intake input) := fun P => .of_not_mem (cycle_not_mem_intake input)
  cases acted : frameActs (c.acts (intake input)).rig elapsed with
  | none =>
    rw [script_of_endless acted]
    refine ⟨before _, fun out after run => ?_⟩
    obtain ⟨frame, ended⟩ := frameActs_of_update run
    rw [acted] at ended
    cases ended
  | some frame =>
    obtain ⟨body, timed, rfl⟩ := split_frameActs acted
    have others : ∀ a ∈ body, .buttons ∉ a.regions := fun a member own =>
      absurd (timed a member _ own) (by decide)
    rw [(alike_intake c input).running] at acted
    have whole : c.script elapsed input = intake input ++
        (body ++ ((if c.rig.machine.running then [.age] else []) ++ [.listen, .collect])) := by
      rw [script_of_frameActs acted, List.append_assoc]
    have quiet : Act.cycle ∉ (if c.rig.machine.running then [Act.age] else []) ++ [.listen, .collect] := by
      split <;> simp
    rw [whole] at spared ⊢
    obtain ⟨every, unchanged⟩ := button_acts others spared.right.left b.index
    rw [taken] at every unchanged
    refine ⟨(before _).append (every.append (.of_not_mem quiet)), fun out after run => ?_⟩
    rw [← eq_acts_of_update run, whole, acts_append, acts_append, button_ending, unchanged]

theorem taken_of_held {input : Input} {b : Button} (kept : b ∉ input.released) :
    input.taken b Button.held = Button.held := by
  rw [Input.taken, if_neg kept, if_neg fun both => absurd both.2 (by decide)]

theorem taken_held_ne (input : Input) (b : Button) : input.taken b Button.held ≠ Button.justPressed := by
  by_cases released : b ∈ input.released
  · rw [Input.taken, if_pos released]
    decide
  · rw [taken_of_held released]
    decide

/-- No cycle finds a held button just pressed, until the button is let go. -/
theorem everyCycle_history_of_held {c : Console σ} {b : Button} {calls : List (Duration × Input)}
    (held : c.rig.machine.button b.index = Button.held)
    (same : ∀ call ∈ calls.dropLast, b ∉ call.2.released)
    (spared : c.EveryCycle (fun m => m.Spares .buttons) (c.history calls)) :
    c.EveryCycle (fun m => m.button b.index ≠ Button.justPressed) (c.history calls) := by
  induction calls generalizing c with
  | nil => exact .of_not_mem List.not_mem_nil
  | cons call more ih =>
    obtain ⟨elapsed, input⟩ := call
    rw [history] at spared ⊢
    obtain ⟨every, ended⟩ := button_call spared.left b
    rw [held] at every ended
    refine (every.imp fun m found => found.trans_ne (taken_held_ne input b)).append ?_
    have later := spared.right
    cases run : c.update elapsed input with
    | none => exact .of_not_mem List.not_mem_nil
    | some called =>
      obtain ⟨out, after⟩ := called
      rw [run, eq_acts_of_update run] at later
      rw [eq_acts_of_update run]
      cases more with
      | nil => exact .of_not_mem List.not_mem_nil
      | cons next rest =>
        have kept : b ∉ input.released := same _ List.mem_cons_self
        have still := ended out after run
        rw [taken_of_held kept, Machine.aged_of_ne (by decide), ite_self] at still
        exact ih still (fun call member => same call (List.mem_cons_of_mem _ member)) later

/-- A program that does nothing but ask for a button leaves all of them alone. -/
theorem spares_single (c : Console σ) (as : List Act) :
    (c.load (.single .btn)).EveryCycle (fun m => m.Spares .buttons) as :=
  (tame_load c rfl (by decide) as).spares .buttons

/-- A button that is pressed is found just pressed by every cycle of that call, and by no cycle of a later
call until it is let go. There is such a cycle just if a tick is due in the call: after it the button is
held in any case. -/
theorem press_seen_in_one_call {c : Console σ} {elapsed : Duration} {input : Input} {b : Button}
    {calls : List (Duration × Input)} (running : c.rig.machine.running = true)
    (up : c.rig.machine.button b.index = Button.up) (pressed : b ∈ input.pressed)
    (kept : b ∉ input.released) (same : ∀ call ∈ calls.dropLast, b ∉ call.2.released)
    (spared : c.EveryCycle (fun m => m.Spares .buttons) (c.history ((elapsed, input) :: calls))) :
    c.EveryCycle (fun m => m.button b.index = Button.justPressed) (c.script elapsed input) ∧
      (.cycle ∈ c.script elapsed input ↔
        ∃ n s, c.rig.machine.scheduler.advance elapsed = some (n + 1, s)) ∧
      ∀ due s, c.rig.machine.scheduler.advance elapsed = some (due, s) →
        ∃ out after, c.update elapsed input = some (out, after) ∧
          after.rig.machine.button b.index = Button.held ∧
          after.EveryCycle (fun m => m.button b.index ≠ Button.justPressed) (after.history calls) := by
  have taken : input.taken b Button.up = Button.justPressed := by
    rw [Input.taken, if_neg kept, if_pos ⟨pressed, rfl⟩]
  rw [history] at spared
  obtain ⟨every, ended⟩ := button_call spared.left b
  rw [up, taken] at every ended
  refine ⟨every, cycle_mem_script_iff running, fun due s advanced => ?_⟩
  obtain ⟨out, after, run⟩ := exists_update_of_advance running advanced input
  have held : after.rig.machine.button b.index = Button.held := (ended out after run).trans (if_pos running)
  have later := spared.right
  rw [run, eq_acts_of_update run] at later
  exact ⟨out, after, run, held, everyCycle_history_of_held held same later⟩

/-- A press in a call that lasts a tick is seen in that call alone. -/
theorem press_seen_of_single :
    let c : Console Shelf := { rig := ⟨.fresh, ⟨.empty, #[]⟩⟩ }
    let calls : List (Duration × Input) :=
      [(.ofNanoseconds 34000000, {}), (.ofNanoseconds 34000000, { released := [.left] })]
    let input : Input := { pressed := [.left] }
    .cycle ∈ (c.load (.single .btn)).script (.ofNanoseconds 34000000) input ∧
      (c.load (.single .btn)).EveryCycle (fun m => m.button 0 = Button.justPressed)
        ((c.load (.single .btn)).script (.ofNanoseconds 34000000) input) ∧
      ∃ out after, (c.load (.single .btn)).update (.ofNanoseconds 34000000) input = some (out, after) ∧
        after.rig.machine.button 0 = Button.held ∧
        after.EveryCycle (fun m => m.button 0 ≠ Button.justPressed) (after.history calls) := by
  intro c calls input
  obtain ⟨s, advanced⟩ := Scheduler.advance_fresh
  have up : (c.load (.single .btn)).rig.machine.button Button.left.index = Button.up := by decide +kernel
  have pressed : Button.left ∈ input.pressed := List.mem_singleton_self _
  have same : ∀ call ∈ calls.dropLast, Button.left ∉ call.2.released := by simp [calls]
  have spared := spares_single c ((c.load (.single .btn)).history ((.ofNanoseconds 34000000, input) :: calls))
  obtain ⟨every, ran, ended⟩ := press_seen_in_one_call rfl up pressed List.not_mem_nil same spared
  exact ⟨ran.2 ⟨0, s, advanced⟩, every, ended 1 s advanced⟩

/-- A press in a call in which no tick is due is not seen at all. -/
theorem press_unseen_without_tick : ¬ ∀ (c : Console Shelf) (elapsed : Duration) (input : Input) (b : Button),
    c.rig.machine.running = true → c.rig.machine.button b.index = Button.up → b ∈ input.pressed →
    b ∉ input.released →
    c.EveryCycle (fun m => m.Spares .buttons) (c.script elapsed input) →
    ∀ out after, c.update elapsed input = some (out, after) →
      after.rig.machine.button b.index = Button.held →
      ∃ before, before ++ [.cycle] <+: c.script elapsed input ∧
        (c.acts before).rig.machine.button b.index = Button.justPressed := by
  intro seen
  let c : Console Shelf := { rig := ⟨.fresh, ⟨.empty, #[]⟩⟩ }
  let input : Input := { pressed := [.left] }
  obtain ⟨s, advanced⟩ := Scheduler.advance_fresh_zero
  have up : (c.load (.single .btn)).rig.machine.button Button.left.index = Button.up := by decide +kernel
  have spared := spares_single c ((c.load (.single .btn)).script .zero input)
  have running : (c.load (.single .btn)).rig.machine.running = true := rfl
  obtain ⟨out, after, run⟩ := exists_update_of_advance running advanced input
  have held := (button_call spared .left).2 out after run
  rw [up, if_pos running] at held
  obtain ⟨before, reached, -⟩ := seen (c.load (.single .btn)) .zero input .left running up
    (List.mem_singleton_self _) List.not_mem_nil spared out after run held
  have ran := reached.subset (List.mem_append_right _ List.mem_cons_self)
  obtain ⟨n, t, ticked⟩ := (cycle_mem_script_iff running).1 ran
  cases advanced.symm.trans ticked

end Console

end PocketConsole
