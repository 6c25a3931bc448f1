import PocketConsole.Proofs.Console.Script

namespace PocketConsole.Console

variable {σ : Type}

/-- The regions that an act other than a cycle may change. -/
def Act.regions : Act → List Region
  | .press _ | .letGo _ | .age => [.buttons]
  | .deliver => [.serialPins, .serialState]
  | .countTick => [.timer]
  | .collect => [.serialState]
  | .queue _ | .schedule _ | .cycle | .draw | .listen => []

theorem Act.mem_all_of_mem_regions {a : Act} {r : Region} (own : r ∈ a.regions) : r ∈ Region.all := by
  have named : a.regions ⊆ Region.all := by
    cases a <;> simp [regions, Region.all]
  exact named own

variable [Store σ]

/-- An act leaves a region alone that is none of its own. -/
theorem sameIn_act {c : Console σ} {a : Act} {r : Region} (named : r ∈ Region.all)
    (other : r ∉ a.regions) (leaves : a = .cycle → c.rig.machine.Leaves r) :
    c.rig.machine.SameIn (c.act a).rig.machine r := by
  have writeIn : ∀ (m : Machine) {own} offset data, own ∈ a.regions → m.SameIn (m.writeIn own offset data) r :=
    fun m own offset data written =>
      m.sameIn_writeIn named (Act.mem_all_of_mem_regions written) (fun same => other (same ▸ written))
        offset data
  have refl : ∀ m : Machine, m.SameIn m r := fun m => .refl m r
  cases a with
  | press b =>
    have pressed : c.rig.machine.SameIn (c.rig.machine.press b) r := by
      unfold Machine.press
      split
      · exact writeIn _ _ _ (.head _)
      · exact refl _
    exact pressed
  | letGo b => exact writeIn _ _ _ (.head _)
  | queue p => exact refl _
  | deliver =>
    have delivered : c.rig.machine.SameIn c.deliver.rig.machine r := by
      unfold deliver
      dsimp only
      split
      · split
        · exact refl _
        · exact (writeIn _ _ _ (.head _)).trans (writeIn _ _ _ (.tail _ (.head _)))
      · exact refl _
    exact delivered
  | schedule s => exact refl _
  | countTick =>
    obtain ⟨⟨m, host⟩, screen, tone, waiting⟩ := c
    have counted : m.SameIn (Rig.countTick ⟨m, host⟩).machine r := by
      simp only [Rig.countTick]
      split
      · exact refl m
      · exact writeIn m _ _ (.head _)
    exact counted
  | cycle => exact Rig.sameIn_cycle named (leaves rfl) c.rig.host
  | draw =>
    rw [act]
    exact refl _
  | age => exact writeIn _ _ _ (.head _)
  | listen =>
    rw [act, listen]
    split <;> exact refl _
  | collect =>
    have collected : c.rig.machine.SameIn c.collect.2.rig.machine r := by
      unfold collect
      dsimp only
      split
      · exact writeIn _ _ _ (.head _)
      · exact refl _
    exact collected

theorem sameIn_acts {c : Console σ} {as : List Act} {r : Region} (named : r ∈ Region.all)
    (others : ∀ a ∈ as, r ∉ a.regions) (leaves : c.EveryCycle (fun m => m.Leaves r) as) :
    c.rig.machine.SameIn (c.acts as).rig.machine r := by
  induction as generalizing c with
  | nil => exact .refl _ r
  | cons a more ih =>
    have first := sameIn_act named (others a List.mem_cons_self) leaves.head
    exact first.trans (ih (fun b member => others b (List.mem_cons_of_mem _ member)) leaves.tail)

/-- What depends on the bytes of a region alone holds before each cycle in the course of acts that leave
the region alone, if it holds at the start. -/
theorem everyCycle_of_sameIn {c : Console σ} {as : List Act} {r : Region} (named : r ∈ Region.all)
    (others : ∀ a ∈ as, r ∉ a.regions) (leaves : c.EveryCycle (fun m => m.Leaves r) as)
    {P : Machine → Prop} (congr : ∀ m n : Machine, m.SameIn n r → P m → P n) (start : P c.rig.machine) :
    c.EveryCycle P as := by
  rintro before ⟨rest, rfl⟩
  rw [List.append_assoc] at others leaves
  exact congr _ _ (sameIn_acts named (fun a member => others a (List.mem_append_left _ member)) leaves.left)
    start

/-! ### What stands in the acts of a call -/

theorem cycle_not_mem_intake (input : Input) : .cycle ∉ intake input := by
  cases packet : input.packet <;> simp [intake, packet]

theorem eq_of_mem_tickActs {a : Act} {n : Nat} {r : Rig σ} (member : a ∈ tickActs n r) :
    a = .countTick ∨ a = .cycle := by
  induction n generalizing r with
  | zero => cases member
  | succ n ih =>
    rw [tickActs] at member
    rcases List.mem_append.1 member with first | later
    · rcases List.mem_cons.1 first with counted | cycled
      · exact .inl counted
      · exact .inr (List.eq_of_mem_replicate cycled)
    · exact ih later

/-- A frame ends with the ageing of the buttons if the machine runs; the other acts change the timer at
most, cycles apart. -/
theorem split_frameActs {r : Rig σ} {elapsed : Duration} {frame : List Act}
    (acted : frameActs r elapsed = some frame) :
    ∃ body, (∀ a ∈ body, ∀ own ∈ a.regions, own = .timer) ∧
      frame = body ++ if r.machine.running then [.age] else [] := by
  rw [frameActs] at acted
  split at acted
  · rename_i running
    obtain ⟨⟨due, s⟩, -, rfl⟩ := Option.map_eq_some_iff.1 acted
    refine ⟨.schedule s :: tickActs due ⟨{ r.machine with scheduler := s }, r.host⟩ ++ [.draw], ?_, ?_⟩
    · intro a member own changed
      rcases List.mem_append.1 member with early | drawn
      · rcases List.mem_cons.1 early with rfl | ticked
        · cases changed
        · rcases eq_of_mem_tickActs ticked with rfl | rfl
          · exact List.mem_singleton.1 changed
          · cases changed
      · rw [List.mem_singleton.1 drawn] at changed
        cases changed
    · rw [if_pos running, List.append_assoc]
      rfl
  · rename_i stopped
    refine ⟨[], fun a member => absurd member List.not_mem_nil, ?_⟩
    rw [if_neg stopped, ← Option.some.inj acted, List.append_nil]

theorem eq_of_mem_regions_of_frameActs {r : Rig σ} {elapsed : Duration} {frame : List Act}
    (acted : frameActs r elapsed = some frame) {a : Act} (member : a ∈ frame) {own : Region}
    (changed : own ∈ a.regions) : own = .timer ∨ own = .buttons := by
  obtain ⟨body, timed, rfl⟩ := split_frameActs acted
  rcases List.mem_append.1 member with early | ending
  · exact .inl (timed a early own changed)
  · split at ending
    · rw [List.mem_singleton.1 ending] at changed
      exact .inr (List.mem_singleton.1 changed)
    · cases ending

/-- A running machine runs a cycle in a call just if a tick is due. -/
theorem cycle_mem_script_iff {c : Console σ} {elapsed : Duration} {input : Input}
    (running : c.rig.machine.running = true) :
    .cycle ∈ c.script elapsed input ↔
      ∃ n s, c.rig.machine.scheduler.advance elapsed = some (n + 1, s) := by
  have alike := alike_intake c input
  have ran := alike.running.trans running
  rw [← alike.scheduler]
  constructor
  · intro member
    cases advanced : (c.acts (intake input)).rig.machine.scheduler.advance elapsed with
    | none =>
      rw [script_of_endless (frameActs_of_endless ran advanced)] at member
      exact absurd member (cycle_not_mem_intake input)
    | some passed =>
      obtain ⟨due, s⟩ := passed
      rw [script_of_frameActs (frameActs_of_running ran advanced), List.mem_append,
        or_iff_right (cycle_not_mem_intake input)] at member
      cases due with
      | zero => simp [tickActs] at member
      | succ n => exact ⟨n, s, rfl⟩
  · rintro ⟨n, s, advanced⟩
    exact (prefix_script ran advanced).subset (by simp)

end PocketConsole.Console
