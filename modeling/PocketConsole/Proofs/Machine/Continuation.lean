import PocketConsole.Proofs.Machine.Cycle
import PocketConsole.Proofs.Machine.Image

namespace PocketConsole

namespace Rig

variable {σ : Type} [Store σ]

theorem alike_cycles (n : Nat) (r : Rig σ) : r.machine.Alike (cycles n r).2.machine := by
  induction n generalizing r with
  | zero => exact .refl _
  | succ n ih =>
    rw [cycles]
    split
    · exact alike_cycle r
    · exact (alike_cycle r).trans (ih r.cycle)

omit [Store σ] in
theorem alike_countTick (r : Rig σ) : r.machine.Alike r.countTick.machine := by
  obtain ⟨m, host⟩ := r
  simp only [countTick]
  split
  · exact .refl m
  · exact .writeIn m _ _ _

theorem alike_tick (r : Rig σ) : r.machine.Alike r.tick.2.machine :=
  (alike_countTick r).trans (alike_cycles _ _)

theorem alike_ticks (done n : Nat) (r : Rig σ) : r.machine.Alike (ticks done n r).2.machine := by
  induction n generalizing done r with
  | zero => exact .refl _
  | succ n ih =>
    have first := alike_tick r
    rw [ticks]
    split
    rename_i k after ran
    rw [ran] at first
    exact first.trans (ih (done + k) after)

end Rig

namespace Machine

/-- The second machine holds the program of the first. -/
structure SameProgram (m n : Machine) : Prop where
  storage : n.storage = m.storage
  name : n.name = m.name
  labels : n.labels = m.labels

theorem Alike.sameProgram {m n : Machine} (alike : m.Alike n) : m.SameProgram n :=
  ⟨alike.storage, alike.name, alike.labels⟩

namespace SameProgram

theorem refl (m : Machine) : m.SameProgram m :=
  (Alike.refl m).sameProgram

theorem trans {a b c : Machine} (first : a.SameProgram b) (second : b.SameProgram c) :
    a.SameProgram c where
  storage := second.storage.trans first.storage
  name := second.name.trans first.name
  labels := second.labels.trans first.labels

theorem advance {σ : Type} [Store σ] {m : Machine} {host : Host σ} {elapsed : Duration} {k : Nat}
    {after : Rig σ} (run : Rig.advance ⟨m, host⟩ elapsed = some (k, after)) :
    m.SameProgram after.machine := by
  unfold Rig.advance at run
  dsimp only at run
  split at run
  · split at run
    · cases run
    · rename_i due scheduler _
      have ran := (Rig.alike_ticks 0 due ⟨{ m with scheduler := scheduler }, host⟩).sameProgram
      rw [Option.some.inj run] at ran
      exact ⟨ran.storage, ran.name, ran.labels⟩
  · rw [← (Prod.mk.inj (Option.some.inj run)).2]
    exact refl m

theorem frame {σ : Type} [Store σ] {m : Machine} {host : Host σ} {elapsed : Duration}
    {after : Rig.Frame σ} (run : Rig.frame ⟨m, host⟩ elapsed = some after) :
    m.SameProgram after.rig.machine := by
  unfold Rig.frame at run
  split at run
  · obtain ⟨⟨k, rig⟩, ran, rfl⟩ := Option.map_eq_some_iff.1 run
    exact advance ran
  · cases run
    exact refl m

/-- A machine that holds a program has its tokens in storage, as far as they fit. -/
theorem bytes_of_token {p : Program} {m : Machine} (program : (ofProgram p).SameProgram m) {i : Nat}
    (inside : i < 32768) {t : Token} (token : p.code.tokens[i]? = some t) :
    m.storage.get (2 * i) = t.opcode ∧ m.storage.get (2 * i + 1) = t.parameter := by
  have stored : (p.code.tokens.take 32768)[i]? = some t := by
    rw [List.getElem?_take, if_pos inside, token]
  have held := holds_ofProgram_take p i t stored
  rwa [← program.storage, Nat.zero_add] at held

end SameProgram

/-- What can become of a machine as long as no program is loaded: it runs on any hosts, its
registers are set and its stack is used from outside, and its peripherals write to its memory. -/
inductive Later (m : Machine) : Machine → Prop
  | start : Later m m
  | cycle {n : Machine} {σ : Type} [Store σ] (host : Host σ) :
      Later m n → Later m (Rig.cycle ⟨n, host⟩).machine
  | tick {n : Machine} {σ : Type} [Store σ] (host : Host σ) :
      Later m n → Later m (Rig.tick ⟨n, host⟩).2.machine
  | advance {n : Machine} {σ : Type} [Store σ] {host : Host σ} {elapsed : Duration} {k : Nat}
      {after : Rig σ} :
      Later m n → Rig.advance ⟨n, host⟩ elapsed = some (k, after) → Later m after.machine
  | frame {n : Machine} {σ : Type} [Store σ] {host : Host σ} {elapsed : Duration}
      {after : Rig.Frame σ} :
      Later m n → Rig.frame ⟨n, host⟩ elapsed = some after → Later m after.rig.machine
  | push {n : Machine} (v : Int) : Later m n → Later m (n.push v)
  | drop {n : Machine} : Later m n → Later m n.drop
  | set {n : Machine} (r : Register) (v : Int) : Later m n → Later m (n.set r v)
  | goto {n : Machine} (a : Address) : Later m n → Later m (n.goto a)
  | write {n : Machine} (memory : Memory) : Later m n → Later m { n with memory := memory }
  | run {n : Machine} : Later m n → Later m n.run
  | pause {n : Machine} : Later m n → Later m n.pause
  | reset {n : Machine} : Later m n → Later m n.reset

/-- Nothing but loading replaces the program of a machine. -/
theorem Later.sameProgram {m n : Machine} (later : m.Later n) : m.SameProgram n := by
  induction later with
  | start => exact .refl m
  | cycle host _ ih => exact ih.trans (Rig.alike_cycle ⟨_, host⟩).sameProgram
  | tick host _ ih => exact ih.trans (Rig.alike_tick ⟨_, host⟩).sameProgram
  | advance _ run ih => exact ih.trans (.advance run)
  | frame _ run ih => exact ih.trans (.frame run)
  | push v _ ih => exact ih.trans (Alike.push _ v).sameProgram
  | drop _ ih => exact ih.trans (Alike.put _ .si _).sameProgram
  | set r v _ ih => exact ih.trans (Alike.put _ r _).sameProgram
  | goto a _ ih => exact ih.trans (Alike.goto _ a).sameProgram
  | write _ _ ih => exact ih.trans ⟨rfl, rfl, rfl⟩
  | run _ ih => exact ih.trans ⟨rfl, rfl, rfl⟩
  | pause _ ih => exact ih.trans ⟨rfl, rfl, rfl⟩
  | reset _ ih => exact ih.trans ⟨rfl, rfl, rfl⟩

end Machine

end PocketConsole
