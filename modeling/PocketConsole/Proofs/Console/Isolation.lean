import PocketConsole.Console.Basic
import PocketConsole.Proofs.Machine.Lockstep

namespace PocketConsole

open SaveRecord (Agree)

/-- What can be told of a console after a call. -/
structure Observation where
  output : Output
  frames : Nat
  machine : Machine
  /-- The text that its store has for the record. -/
  text : Option String

namespace Console

variable {σ τ : Type} [Store σ] [Store τ]

/-- What is seen of a console that has just given something out. -/
def observe (c : Console σ) (out : Output) : Observation where
  output := out
  frames := c.screen.frames
  machine := c.rig.machine
  text := Store.get c.rig.host.store SaveRecord.key

/-- What is seen after each of several calls; a call without an end is the last. -/
def observations (c : Console σ) : List (Duration × Input) → List (Option Observation)
  | [] => []
  | (elapsed, input) :: more =>
    match c.update elapsed input with
    | some (out, after) => some (after.observe out) :: after.observations more
    | none => [none]

/-- Two consoles in the same state, on hosts that may differ in all but what their stores hold as the
record. -/
structure Twin (c : Console σ) (d : Console τ) : Prop where
  rig : c.rig.Twin d.rig
  screen : d.screen = c.screen
  tone : d.tone = c.tone
  waiting : d.waiting = c.waiting

namespace Twin

variable {c : Console σ} {d : Console τ}

theorem symm (twin : c.Twin d) : d.Twin c :=
  ⟨twin.rig.symm, twin.screen.symm, twin.tone.symm, twin.waiting.symm⟩

theorem load {c : Console σ} {d : Console τ} (agree : Agree c.rig.host.store d.rig.host.store) (p : Program) :
    (c.load p).Twin (d.load p) :=
  ⟨⟨rfl, agree⟩, rfl, rfl, rfl⟩

theorem takeButtons (twin : c.Twin d) (input : Input) : (c.takeButtons input).Twin (d.takeButtons input) := by
  refine ⟨⟨?_, twin.rig.store⟩, twin.screen, twin.tone, twin.waiting⟩
  simp only [Console.takeButtons, twin.rig.machine]

theorem queue (twin : c.Twin d) (packet : Option Packet) :
    ((packet.map c.queue).getD c).Twin ((packet.map d.queue).getD d) := by
  cases packet with
  | none => exact twin
  | some p => exact ⟨twin.rig, twin.screen, twin.tone, congrArg (· ++ [p]) twin.waiting⟩

theorem deliver (twin : c.Twin d) : c.deliver.Twin d.deliver := by
  obtain ⟨⟨m, g⟩, screen, tone, waiting⟩ := c
  obtain ⟨⟨n, h⟩, _, _, _⟩ := d
  obtain ⟨⟨machine, store⟩, screens, tones, queues⟩ := twin
  dsimp only at machine store screens tones queues
  subst machine screens tones queues
  simp only [Console.deliver]
  split
  · split
    · exact ⟨⟨rfl, store⟩, rfl, rfl, rfl⟩
    · exact ⟨⟨rfl, store⟩, rfl, rfl, rfl⟩
  · exact ⟨⟨rfl, store⟩, rfl, rfl, rfl⟩

theorem frame (twin : c.Twin d) {elapsed : Duration} {cycles : Nat} {after : Console σ}
    (framed : c.frame elapsed = some (cycles, after)) :
    ∃ other, d.frame elapsed = some (cycles, other) ∧ after.Twin other := by
  obtain ⟨⟨m, g⟩, screen, tone, waiting⟩ := c
  obtain ⟨rig, _, _, _⟩ := d
  obtain ⟨rigs, screens, tones, queues⟩ := twin
  dsimp only at rigs screens tones queues
  subst screens tones queues
  unfold Console.frame at framed ⊢
  dsimp only at framed ⊢
  split at framed
  · cases framed
  · rename_i spent
    obtain ⟨⟨⟨n, h⟩, count, picture⟩, run, ⟨machine, store⟩, sameCount, samePicture⟩ := rigs.frame spent
    dsimp only at machine store sameCount samePicture
    subst machine sameCount samePicture
    obtain ⟨rfl, rfl⟩ := Prod.mk.inj (Option.some.inj framed)
    rw [run]
    exact ⟨_, rfl, ⟨rfl, store⟩, rfl, rfl, rfl⟩

theorem listen (twin : c.Twin d) : c.listen.Twin d.listen := by
  simp only [Console.listen, twin.rig.machine, twin.tone]
  split
  · exact twin
  · exact ⟨⟨twin.rig.machine, twin.rig.store⟩, twin.screen, rfl, twin.waiting⟩

theorem collect (twin : c.Twin d) : d.collect.1 = c.collect.1 ∧ c.collect.2.Twin d.collect.2 := by
  simp only [Console.collect, twin.rig.machine]
  split
  · exact ⟨rfl, ⟨rfl, twin.rig.store⟩, twin.screen, twin.tone, twin.waiting⟩
  · exact ⟨rfl, twin⟩

/-- Twins give out the same and stay twins. -/
theorem update (twin : c.Twin d) {elapsed : Duration} {input : Input} {out : Output} {after : Console σ}
    (run : c.update elapsed input = some (out, after)) :
    ∃ other, d.update elapsed input = some (out, other) ∧ after.Twin other := by
  have ready := ((twin.takeButtons input).queue input.packet).deliver
  unfold Console.update at run ⊢
  dsimp only at run ⊢
  split at run
  · cases run
  · rename_i cycles framed spent
    obtain ⟨other, ran, framedTwin⟩ := ready.frame spent
    obtain ⟨packet, final⟩ := framedTwin.listen.collect
    obtain ⟨rfl, rfl⟩ := Prod.mk.inj (Option.some.inj run)
    rw [ran]
    dsimp only
    rw [packet, final.screen, final.tone, final.rig.machine]
    exact ⟨_, rfl, final⟩

theorem update_eq_none (twin : c.Twin d) {elapsed : Duration} {input : Input}
    (endless : c.update elapsed input = none) : d.update elapsed input = none := by
  cases run : d.update elapsed input with
  | none => rfl
  | some called =>
    obtain ⟨other, ended, -⟩ := twin.symm.update run
    rw [endless] at ended
    cases ended

theorem observe (twin : c.Twin d) (out : Output) : c.observe out = d.observe out := by
  rw [Console.observe, Console.observe, twin.screen, twin.rig.machine, twin.rig.store.get]

/-- Twins are never told apart. -/
theorem observations (twin : c.Twin d) (calls : List (Duration × Input)) :
    c.observations calls = d.observations calls := by
  induction calls generalizing c d with
  | nil => rfl
  | cons call more ih =>
    obtain ⟨elapsed, input⟩ := call
    rw [Console.observations, Console.observations]
    cases run : c.update elapsed input with
    | none => rw [twin.update_eq_none run]
    | some called =>
      obtain ⟨out, after⟩ := called
      obtain ⟨other, ran, later⟩ := twin.update run
      rw [ran]
      dsimp only
      rw [later.observe, ih later]

end Twin

/-- After a program has been loaded nothing tells what a console has been used for before: it shows what any
other console shows whose store has had the same text for the record. -/
theorem observations_of_load {c : Console σ} {d : Console τ}
    (keptFirst : ∀ (s : σ) text, Store.get (Store.set s SaveRecord.key text) SaveRecord.key = some text)
    (keptSecond : ∀ (t : τ) text, Store.get (Store.set t SaveRecord.key text) SaveRecord.key = some text)
    (same : Store.get c.rig.host.store SaveRecord.key = Store.get d.rig.host.store SaveRecord.key)
    (p : Program) (calls : List (Duration × Input)) :
    (c.load p).observations calls = (d.load p).observations calls :=
  (Twin.load (.of_kept keptFirst keptSecond same) p).observations calls

/-- A console that nothing has been done with is not told from one that is playing a tone, has a packet waiting,
runs a machine with something on its stack and keeps something else in its store. -/
theorem observations_of_load_after_use :
    let c : Console Shelf := { rig := ⟨.fresh, ⟨.empty, #[]⟩⟩ }
    let d : Console Shelf :=
      { rig := ⟨(Machine.fresh.push 9).run, ⟨Store.set Shelf.empty "other" "text", #[.halted 3]⟩⟩
        tone := 440
        waiting := [Vector.replicate 16 7] }
    let p : Program := { name := "pet", code := ⟨[.ofOpcode .btn 0, .ofOpcode .save 0], .empty⟩ }
    let calls : List (Duration × Input) := [(.ofNanoseconds 34000000, { pressed := [.left] }), (.zero, {})]
    Store.get c.rig.host.store SaveRecord.key = Store.get d.rig.host.store SaveRecord.key ∧
      (c.load p).observations calls = (d.load p).observations calls := by
  intro c d p calls
  have kept := fun (s : Shelf) text => LawfulStore.get_set_self s SaveRecord.key text
  have same : Store.get c.rig.host.store SaveRecord.key = Store.get d.rig.host.store SaveRecord.key := by decide
  exact ⟨same, observations_of_load kept kept same p calls⟩

end Console

end PocketConsole
