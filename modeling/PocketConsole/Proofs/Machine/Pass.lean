import Mathlib.Algebra.Order.Floor.Div
import PocketConsole.Proofs.Machine.Halting
import PocketConsole.Proofs.Machine.StraightLine

namespace PocketConsole

/-- A program of straight tokens that fit into storage, with an empty cell after the last of them. -/
structure Program.Straight (p : Program) : Prop where
  fits : p.code.tokens.length ≤ 32768
  tokens : ∀ t ∈ p.code.tokens, t.Straight
  ended : 2 * p.code.tokens.length < 65536 → (p.storage[2 * p.code.tokens.length]?).getD 0 = 0

/-- What a cycle does: it stalls, or halts, or carries out the token at a place. -/
inductive Deed
  | stall
  | halt
  | token (place : Nat) (t : Token)

/-- A pass through a program: its tokens in order, and a halt. -/
def Program.pass (p : Program) : List Deed :=
  p.code.tokens.mapIdx .token ++ [.halt]

/-- How many ticks a pass takes. -/
def Program.passTicks (p : Program) : Nat :=
  (p.code.tokens.length + 1) ⌈/⌉ cyclesPerTick

/-- The batches of a list one after another. -/
theorem flatMap_take_drop {α : Type} (l : List α) (size count : Nat) :
    (List.range count).flatMap (fun t => (l.drop (size * t)).take size) = l.take (size * count) := by
  induction count with
  | zero => rfl
  | succ count ih =>
    rw [List.range_succ, List.flatMap_append, ih, List.flatMap_singleton, Nat.mul_succ, List.take_add]

namespace Program

variable (p : Program)

theorem length_pass : p.pass.length = p.code.tokens.length + 1 := by
  rw [pass, List.length_append, List.length_mapIdx, List.length_singleton]

theorem lt_passTicks_iff {t : Nat} : t < p.passTicks ↔ cyclesPerTick * t ≤ p.code.tokens.length := by
  rw [← Nat.not_le, passTicks, ceilDiv_le_iff_le_mul (by decide), Nat.not_le, Nat.lt_succ_iff]

theorem length_pass_le : p.pass.length ≤ cyclesPerTick * p.passTicks := by
  rw [length_pass]
  exact Nat.lt_of_not_le fun less => Nat.lt_irrefl _ (p.lt_passTicks_iff.2 less)

end Program

namespace Machine

/-- The machine has come to a place in a pass through a program. -/
structure Passing (p : Program) (place : Nat) (m : Machine) : Prop where
  storage : m.storage = (ofProgram p).storage
  index : m.index.toNat = place
  awake : m.get .sc = 0

/-- The second machine goes on where the first one is. Its memory may have changed meanwhile. -/
structure Resumed (m n : Machine) : Prop where
  storage : n.storage = m.storage
  registers : n.registers = m.registers

theorem Resumed.get {m n : Machine} (resumed : m.Resumed n) (r : Register) : n.get r = m.get r :=
  congrArg (Registers.get · r) resumed.registers

theorem passing_ofProgram (p : Program) : (ofProgram p).Passing p 0 where
  storage := rfl
  index := by
    rw [index_ofProgram]
    rfl
  awake := get_ofProgram p .sc

theorem Passing.resumed {p : Program} {place : Nat} {m n : Machine} (passing : m.Passing p place)
    (resumed : m.Resumed n) : n.Passing p place where
  storage := resumed.storage.trans passing.storage
  index := by
    rw [index_congr (resumed.get .pch) (resumed.get .pcl), passing.index]
  awake := (resumed.get .sc).trans passing.awake

end Machine

namespace Rig

variable {σ : Type}

/-- The token at the program counter. -/
def token (r : Rig σ) : Token :=
  ⟨r.opcode, r.machine.storage.get (2 * r.machine.index.toNat + 1)⟩

/-- What the next cycle does. -/
def deed (r : Rig σ) : Deed :=
  if r.machine.get .sc ≠ 0 then .stall
  else if r.opcode = 0 then .halt
  else .token r.machine.index.toNat r.token

variable [Store σ]

/-- The rig after a deed. -/
def afterDeed (r : Rig σ) : Deed → Rig σ
  | .stall => ⟨r.machine.set .sc ((r.machine.get .sc).toNat - 1), r.host⟩
  | .halt => ⟨r.machine.goto .origin, r.host.note (.halted r.machine.index)⟩
  | .token _ t => (t.op?.map (perform ⟨r.machine.past, r.host⟩ · t.parameter)).getD ⟨r.machine.past, r.host⟩

/-- A cycle does what its deed says. -/
theorem cycle_eq_afterDeed (r : Rig σ) : r.cycle = r.afterDeed r.deed := by
  unfold deed
  by_cases awake : r.machine.get .sc = 0
  · rw [if_neg (not_not.2 awake)]
    by_cases empty : r.opcode = 0
    · rw [if_pos empty]
      exact cycle_of_empty awake empty r.host
    · rw [if_neg empty, afterDeed, Token.op?]
      cases decoded : Opcode.ofByte? r.token.opcode with
      | none => exact cycle_of_unknown awake empty decoded r.host
      | some op => exact cycle_of_next (Machine.next?_eq_some_iff.2 ⟨awake, decoded, rfl⟩) r.host
  · rw [if_pos awake]
    exact cycle_of_asleep awake r.host

/-- What the cycles of the next tick do, one after another. -/
def deeds (r : Rig σ) : List Deed :=
  (List.range r.tick.1).map fun j => (cycle^[j] r.countTick).deed

theorem foldl_afterDeed (r : Rig σ) (n : Nat) :
    ((List.range n).map fun j => (cycle^[j] r).deed).foldl afterDeed r = cycle^[n] r := by
  induction n with
  | zero => rfl
  | succ n ih =>
    rw [List.range_succ, List.map_append, List.foldl_append, ih, List.map_singleton, List.foldl_cons, List.foldl_nil,
      ← cycle_eq_afterDeed, Function.iterate_succ_apply']

/-- A tick is counted, and then comes to its deeds one after another. -/
theorem tick_eq_foldl_deeds (r : Rig σ) : r.tick.2 = r.deeds.foldl afterDeed r.countTick := by
  rw [deeds, foldl_afterDeed, tick, iterate_cycle_eq_cycles]

theorem length_deeds (r : Rig σ) : r.deeds.length = r.tick.1 := by
  rw [deeds, List.length_map, List.length_range]

section Passing

variable {p : Program} (straight : p.Straight) {r : Rig σ} {place : Nat} (passing : r.machine.Passing p place)

include straight passing

theorem passing_iterate_cycle {k : Nat} (within : place + k ≤ p.code.tokens.length) :
    (cycle^[k] r).machine.Passing p (place + k) := by
  have held := Machine.holds_ofProgram straight.fits
  rw [← List.take_append_drop place p.code.tokens] at held
  have rest := held.right
  rw [List.length_take_of_le (by omega), Nat.zero_add, ← passing.storage, ← passing.index] at rest
  have ahead := ahead_iterate_cycle passing.awake rest (fun t member => straight.tokens t (List.mem_of_mem_drop member))
    r.host (k := k) (by rw [List.length_drop, passing.index]; omega)
  exact ⟨ahead.storage.trans passing.storage, by rw [ahead.index, passing.index], ahead.awake⟩

omit [Store σ] in
theorem token_of_passing (within : place < p.code.tokens.length) : r.token = p.code.tokens[place] := by
  obtain ⟨opcode, parameter⟩ := Machine.holds_ofProgram straight.fits place _ (List.getElem?_eq_getElem within)
  rw [Nat.zero_add] at opcode parameter
  rw [token, Rig.opcode, passing.storage, passing.index, opcode, parameter]

omit [Store σ] in
theorem opcode_ne_zero_of_passing (within : place < p.code.tokens.length) : r.opcode ≠ 0 := by
  have full := (straight.tokens _ (List.getElem_mem within)).full
  rw [← token_of_passing straight passing within] at full
  exact full

omit [Store σ] in
theorem opcode_of_passed (last : place = p.code.tokens.length) : r.opcode = 0 := by
  subst last
  rw [opcode, passing.storage, passing.index]
  by_cases room : 2 * p.code.tokens.length < 65536
  · rw [Machine.get_storage_ofProgram p room, Program.image, Program.getElem?_flatMap_bytes,
      List.getElem?_eq_none (by omega)]
    exact straight.ended room
  · exact Bank.get_of_le _ (Nat.le_of_not_lt room)

omit [Store σ] in
theorem atEmptyCell_of_passing (within : place ≤ p.code.tokens.length) :
    r.AtEmptyCell ↔ place = p.code.tokens.length := by
  rw [atEmptyCell_iff]
  refine ⟨fun empty => ?_, opcode_of_passed straight passing⟩
  by_contra other
  exact opcode_ne_zero_of_passing straight passing (by omega) empty

omit [Store σ] in
theorem deed_of_passing (within : place ≤ p.code.tokens.length) : p.pass[place]? = some r.deed := by
  rw [deed, if_neg (not_not.2 passing.awake), Program.pass]
  by_cases last : place = p.code.tokens.length
  · have past : (p.code.tokens.mapIdx Deed.token).length = place := by rw [List.length_mapIdx, last]
    rw [if_pos (opcode_of_passed straight passing last), List.getElem?_append_right (Nat.le_of_eq past), past,
      Nat.sub_self]
    rfl
  · have before : place < p.code.tokens.length := by omega
    rw [if_neg (opcode_ne_zero_of_passing straight passing before), passing.index,
      token_of_passing straight passing before, List.getElem?_append_left (by rwa [List.length_mapIdx]),
      List.getElem?_mapIdx, List.getElem?_eq_getElem before]
    rfl

/-- A batch of cycles takes as many as it may, but no more than are left of the pass. -/
theorem fst_cycles_of_passing (within : place ≤ p.code.tokens.length) (n : Nat) :
    (cycles n r).1 = min n (p.code.tokens.length + 1 - place) := by
  have empty {k : Nat} (inside : place + k ≤ p.code.tokens.length) :
      (cycle^[k] r).AtEmptyCell ↔ place + k = p.code.tokens.length :=
    atEmptyCell_of_passing straight (passing_iterate_cycle straight passing inside) inside
  have ended := ended_cycles n r
  -- the only empty cell of the pass is the one past its last token
  by_cases enough : p.code.tokens.length - place < n
  · have last : place + (p.code.tokens.length - place) = p.code.tokens.length := by omega
    rw [ended.fst_eq_succ enough (fun j before none => ?_) ((empty (Nat.le_of_eq last)).2 last)]
    · omega
    · have here := (empty (by omega)).1 none
      omega
  · have full {k : Nat} (before : k < n) : ¬ (cycle^[k] r).AtEmptyCell := fun none => by
      have here := (empty (by omega)).1 none
      omega
    generalize cycles n r = e at ended ⊢
    cases ended with
    | complete => exact (Nat.min_eq_left (by omega)).symm
    | halted before _ halts => exact absurd halts.2 (full before)
    | dozed before _ dozes => exact absurd dozes.2 (full before)

/-- What a batch of cycles does is what comes next in the pass. -/
theorem map_deed_of_passing (within : place ≤ p.code.tokens.length) (n : Nat) :
    (List.range (cycles n r).1).map (fun j => (cycle^[j] r).deed) = (p.pass.drop place).take n := by
  have pass := p.length_pass
  rw [fst_cycles_of_passing straight passing within]
  apply List.ext_getElem?
  intro j
  rw [List.getElem?_map, List.getElem?_take, List.getElem?_drop]
  by_cases during : j < min n (p.code.tokens.length + 1 - place)
  · have inside : place + j ≤ p.code.tokens.length := by omega
    rw [List.getElem?_range during, if_pos (by omega),
      deed_of_passing straight (passing_iterate_cycle straight passing inside) inside]
    rfl
  · rw [List.getElem?_eq_none (by rw [List.length_range]; omega), Option.map_none]
    split
    · exact (List.getElem?_eq_none (by omega)).symm
    · rfl

theorem passing_cycles {n : Nat} (within : place + n ≤ p.code.tokens.length) :
    (cycles n r).2.machine.Passing p (place + n) := by
  rw [← iterate_cycle_eq_cycles, fst_cycles_of_passing straight passing (by omega), Nat.min_eq_left (by omega)]
  exact passing_iterate_cycle straight passing within

/-- The last batch of a pass halts, and another pass may begin. -/
theorem passing_cycles_of_last (within : place ≤ p.code.tokens.length) {n : Nat}
    (last : p.code.tokens.length < place + n) : (cycles n r).2.machine.Passing p 0 := by
  have ended : place + (p.code.tokens.length - place) = p.code.tokens.length := by omega
  have there := passing_iterate_cycle straight passing (Nat.le_of_eq ended)
  have empty := (atEmptyCell_of_passing straight there (Nat.le_of_eq ended)).2 ended
  have taken : min n (p.code.tokens.length + 1 - place) = p.code.tokens.length - place + 1 := by omega
  rw [← iterate_cycle_eq_cycles, fst_cycles_of_passing straight passing within, taken, Function.iterate_succ_apply',
    cycle_of_halts ⟨there.awake, empty⟩]
  refine ⟨there.storage, ?_, (Machine.get_goto _ _ (by decide)).trans there.awake⟩
  rw [Machine.index, Machine.counter_goto]
  rfl

/-! ### The ticks of a pass -/

omit straight [Store σ] in
theorem passing_countTick : r.countTick.machine.Passing p place :=
  passing.resumed ⟨(alike_countTick r).storage, registers_countTick r⟩

theorem fst_tick_of_passing (within : place ≤ p.code.tokens.length) :
    r.tick.1 = min cyclesPerTick (p.code.tokens.length + 1 - place) := by
  rw [tick]
  exact fst_cycles_of_passing straight (passing_countTick passing) within cyclesPerTick

theorem deeds_of_passing (within : place ≤ p.code.tokens.length) :
    r.deeds = (p.pass.drop place).take cyclesPerTick := by
  rw [deeds, tick]
  exact map_deed_of_passing straight (passing_countTick passing) within cyclesPerTick

theorem passing_tick (within : place + cyclesPerTick ≤ p.code.tokens.length) :
    r.tick.2.machine.Passing p (place + cyclesPerTick) := by
  rw [tick]
  exact passing_cycles straight (passing_countTick passing) within

theorem passing_tick_of_last (within : place ≤ p.code.tokens.length)
    (last : p.code.tokens.length < place + cyclesPerTick) : r.tick.2.machine.Passing p 0 := by
  rw [tick]
  exact passing_cycles_of_last straight (passing_countTick passing) within last

end Passing

section Ticks

variable {p : Program} (straight : p.Straight) {r : Nat → Rig σ} (start : (r 0).machine.Passing p 0)
  (onward : ∀ t, (r t).tick.2.machine.Resumed (r (t + 1)).machine)

include straight start onward

/-- Each tick of a pass begins a whole number of batches into it. -/
theorem passing_of_ticks {t : Nat} (within : cyclesPerTick * t ≤ p.code.tokens.length) :
    (r t).machine.Passing p (cyclesPerTick * t) := by
  induction t with
  | zero => exact start
  | succ t ih =>
    rw [Nat.mul_succ] at within ⊢
    exact (passing_tick straight (ih (by omega)) within).resumed (onward t)

/-- A program of straight tokens is passed through once, token after token, and a cycle that halts ends the pass. Each
tick is what its deeds come to. All ticks but the last take all their cycles, and after them the next pass may begin. -/
theorem deeds_of_straight :
    (List.range p.passTicks).flatMap (fun t => (r t).deeds) = p.pass ∧
      (∀ t, (r t).tick.2 = (r t).deeds.foldl afterDeed (r t).countTick) ∧
      (∀ t, t + 1 < p.passTicks → (r t).tick.1 = 2880) ∧
      ((List.range p.passTicks).map fun t => (r t).tick.1).sum = p.code.tokens.length + 1 ∧
      (r p.passTicks).machine.Passing p 0 := by
  have here {t : Nat} (during : t < p.passTicks) : (r t).machine.Passing p (cyclesPerTick * t) :=
    passing_of_ticks straight start onward (p.lt_passTicks_iff.1 during)
  have pass : (List.range p.passTicks).flatMap (fun t => (r t).deeds) = p.pass := by
    rw [← List.take_of_length_le p.length_pass_le, ← flatMap_take_drop]
    refine List.flatMap_congr fun t member => ?_
    have during := List.mem_range.1 member
    exact deeds_of_passing straight (here during) (p.lt_passTicks_iff.1 during)
  refine ⟨pass, fun t => tick_eq_foldl_deeds (r t), fun t before => ?_, ?_, ?_⟩
  · have next := p.lt_passTicks_iff.1 before
    rw [Nat.mul_succ] at next
    rw [fst_tick_of_passing straight (here (Nat.lt_of_succ_lt before)) (by omega)]
    exact Nat.min_eq_left (by omega)
  · rw [← p.length_pass, ← pass, List.length_flatMap]
    simp only [length_deeds]
  -- a tick after the last one would begin beyond the pass, so the last one reaches its end
  · obtain ⟨t, last⟩ := Nat.exists_eq_succ_of_ne_zero (Nat.ne_of_gt (p.lt_passTicks_iff.2 (Nat.zero_le _)))
    have during : t < p.passTicks := last ▸ t.lt_succ_self
    have after := mt p.lt_passTicks_iff.2 (Nat.lt_irrefl p.passTicks)
    rw [last, Nat.mul_succ] at after
    rw [last]
    have ended := passing_tick_of_last straight (here during) (p.lt_passTicks_iff.1 during) (by omega)
    exact ended.resumed (onward t)

end Ticks

/-- A program whose tokens take a whole tick halts in another one. -/
theorem deeds_of_idle :
    let p : Program := { name := "idle", code := ⟨.replicate 2880 (.ofOpcode .nop 0), .empty⟩ }
    let r (t : Nat) : Rig Shelf := (fun r => (tick r).2)^[t] ⟨.ofProgram p, ⟨.empty, #[]⟩⟩
    p.Straight ∧ (r 0).tick.1 = 2880 ∧ (r 1).tick.1 = 1 ∧ (r 0).deeds ++ (r 1).deeds = p.pass := by
  intro p r
  have length : p.code.tokens.length = 2880 := List.length_replicate
  have straight : p.Straight := by
    refine ⟨by omega, fun t member => ?_, fun _ => ?_⟩
    · rw [List.eq_of_mem_replicate member]
      exact .ofOpcode (by decide) (by decide) 0
    · rw [List.getElem?_nil, Option.getD_none]
  have start : (r 0).machine.Passing p 0 := Machine.passing_ofProgram p
  have onward (t : Nat) : (r t).tick.2.machine.Resumed (r (t + 1)).machine := by
    have same : r (t + 1) = (r t).tick.2 := Function.iterate_succ_apply' _ _ _
    rw [same]
    exact ⟨rfl, rfl⟩
  clear_value r
  have two : p.passTicks = 2 := by
    rw [Program.passTicks, length]
    rfl
  obtain ⟨pass, -, early, total, -⟩ := deeds_of_straight straight start onward
  have first := early 0 (by omega)
  have ticks : List.range 2 = [0, 1] := rfl
  rw [two, ticks, List.flatMap_cons, List.flatMap_singleton] at pass
  rw [two, ticks, List.map_cons, List.map_singleton, List.sum_cons, List.sum_singleton, length] at total
  exact ⟨straight, first, by omega, pass⟩

end Rig

end PocketConsole
