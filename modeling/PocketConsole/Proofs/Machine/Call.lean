import PocketConsole.Proofs.Machine.Sleep
import PocketConsole.Proofs.Machine.StraightLine

namespace PocketConsole

/-- Apart from moves, only jumps change the return pointer. -/
theorem Opcode.isJump_of_mem_targets {op : Opcode} {p : UInt8} {r : Register} (target : r ∈ op.targets p)
    (saved : r ∈ [Register.rph, .rpl]) : op = .mov ∧ Register.ofByte? p = some r ∨ op.isJump = true := by
  have each : ∀ r ∈ [Register.rph, .rpl], r ∈ op.targets 0 → op.isJump = true := by
    cases op <;> decide
  exact (mov_or_mem_targets target 0).imp_right (each r saved)

namespace Machine

/-- The next cycle takes a jump. -/
def Calls (m : Machine) : Prop :=
  ∃ op p, m.next? = some (op, p) ∧ op.Jumps m.second m.top

/-- The next cycle moves a byte to the return pointer. -/
def MovesReturn (m : Machine) : Prop :=
  ∃ p, m.next? = some (.mov, p) ∧ Register.ofByte? p ∈ [some Register.rph, some .rpl]

/-- What a machine comes to by cycles, on any hosts, that neither take a jump nor move a byte to the return
pointer. -/
inductive Uncalled (m : Machine) : Machine → Prop
  | start : Uncalled m m
  | cycle {n : Machine} {σ : Type} [Store σ] (host : Host σ) :
      Uncalled m n → ¬ n.Calls → ¬ n.MovesReturn → Uncalled m (Rig.cycle ⟨n, host⟩).machine

end Machine

namespace Rig

variable {σ : Type} [Store σ]

theorem returnPointer_cycle_of_calls {m : Machine} (calls : m.Calls) (host : Host σ) :
    (cycle ⟨m, host⟩).machine.returnPointer = .ofUInt16 (m.index + 1) := by
  obtain ⟨op, p, next, taken⟩ := calls
  have family := ((op.jumps_iff _ _).1 taken).1
  exact ((jumped_cycle next family host).1.taken taken).2

/-- Without a call a cycle keeps the return pointer. -/
theorem returnPointer_cycle {m : Machine} (noCall : ¬ m.Calls) (noMove : ¬ m.MovesReturn) (host : Host σ) :
    (cycle ⟨m, host⟩).machine.returnPointer = m.returnPointer := by
  -- a jump that is not taken keeps both bytes, and nothing else but a move has them among its targets
  by_cases jump : ∃ op p, m.next? = some (op, p) ∧ op.isJump = true
  · obtain ⟨op, p, next, family⟩ := jump
    exact ((jumped_cycle next family host).1.passed fun taken => noCall ⟨op, p, next, taken⟩).2
  · have elsewhere : ∀ r ∈ [Register.rph, .rpl], r ∉ [Register.pch, .pcl] ∧ r ≠ .sc := by decide
    have kept : ∀ r ∈ [Register.rph, .rpl], (cycle ⟨m, host⟩).machine.get r = m.get r := by
      intro r saved
      have spared (op : Opcode) (p : UInt8) (next : m.next? = some (op, p)) : r ∉ op.targets p := by
        intro target
        obtain ⟨rfl, named⟩ | family := Opcode.isJump_of_mem_targets target saved
        · exact noMove ⟨p, next, named ▸ List.mem_map_of_mem saved⟩
        · exact jump ⟨op, p, next, family⟩
      exact get_cycle spared (elsewhere r saved).1 (fun same => absurd same (elsewhere r saved).2) host
    rw [Machine.returnPointer, kept .rph (by decide), kept .rpl (by decide)]
    rfl

theorem counter_cycle_of_rtn {m : Machine} {p : UInt8} (next : m.next? = some (.rtn, p)) (host : Host σ) :
    (cycle ⟨m, host⟩).machine.counter = m.returnPointer := by
  rw [cycle_of_quiet (Opcode.quiet_of_silent (by decide) rfl) next, Machine.perform, Machine.counter_goto,
    Machine.returnPointer_past]

end Rig

namespace Machine

theorem Uncalled.returnPointer {m n : Machine} (uncalled : m.Uncalled n) : n.returnPointer = m.returnPointer := by
  induction uncalled with
  | start => rfl
  | cycle host _ noCall noMove ih => exact (Rig.returnPointer_cycle noCall noMove host).trans ih

end Machine

namespace Rig

variable {σ τ : Type} [Store σ] [Store τ]

/-- A call returns to the token after it, whatever is done in between other than to call or to move a byte to the
return pointer. -/
theorem index_of_return {m : Machine} (calls : m.Calls) (host : Host σ) {n : Machine}
    (uncalled : (cycle ⟨m, host⟩).machine.Uncalled n) {p : UInt8} (returns : n.next? = some (.rtn, p))
    (later : Host τ) : (cycle ⟨n, later⟩).machine.index.toNat = m.index.toNat + 1 := by
  rw [Machine.index, counter_cycle_of_rtn returns, uncalled.returnPointer, returnPointer_cycle_of_calls calls,
    Address.toUInt16_ofUInt16]
  obtain ⟨op, q, next, -⟩ := calls
  exact toNat_index_add_one_of_next next

/-- Where results wrap, a call returns to a token whose place ends in the last byte. -/
theorem index_of_return_when_wrapping :
    let body : List Token := [.ofOpcode .mov Register.wv.toByte, .ofOpcode .rtn 0]
    let p : Program :=
      { name := "call"
        code := ⟨body ++ (.replicate 252 (.ofOpcode .nop 0) ++ [.ofOpcode .jump 7]), .ofList [(7, .origin)]⟩ }
    let m := ((Machine.ofProgram p).put .wv 1).goto ⟨0, 254⟩
    m.Calls ∧ ∀ host : Host Shelf, ∃ n, (cycle ⟨m, host⟩).machine.Uncalled n ∧ n.next? = some (.rtn, 0) ∧
      (cycle ⟨n, host⟩).machine.index.toNat = 255 := by
  intro body p m
  have length : p.code.tokens.length = 255 := by
    simp only [p, body, List.length_append, List.length_cons, List.length_nil, List.length_replicate]
  have held := Machine.holds_ofProgram (p := p) (by omega)
  have loaded : (Machine.ofProgram p).Alike m := (Machine.Alike.put _ .wv 1).trans (.goto _ _)
  rw [← loaded.storage] at held
  have awake : m.get .sc = 0 := by decide
  have index : m.index.toNat = 254 := by decide
  have next : m.next? = some (.jump, 7) := by
    have here := held.right.right.head
    rw [List.length_replicate, show 0 + body.length + 252 = 254 from rfl, ← index] at here
    exact Machine.next?_of_token awake here.1 here.2
  refine ⟨⟨_, _, next, trivial⟩, fun host => ?_⟩
  have jumped := (jumped_cycle next rfl host).1
  have storage := (alike_cycle ⟨m, host⟩).storage
  generalize called : (cycle ⟨m, host⟩).machine = a at jumped storage ⊢
  have first : a.index.toNat = 0 := by
    have target : p.code.labels.get? 7 = some .origin := by
      simp only [p]
      decide
    have labels : (Machine.ofProgram p).labels = p.code.labels := rfl
    rw [Machine.index, (jumped.taken trivial).1, loaded.labels, labels, target]
    rfl
  have awakeFirst : a.get .sc = 0 := (jumped.registers .sc (by decide)).trans awake
  have heldBody : a.storage.Holds a.index.toNat body := by
    rw [storage, first]
    exact held.left
  have moves : a.next? = some (.mov, Register.wv.toByte) :=
    Machine.next?_of_token awakeFirst heldBody.head.1 heldBody.head.2
  have straight : (Token.ofOpcode .mov Register.wv.toByte).Straight := ⟨by decide, by decide, by decide⟩
  have ahead := ahead_cycle awakeFirst straight heldBody.head.1 heldBody.head.2 host
  have back := ahead.token heldBody (t := .ofOpcode .rtn 0) rfl
  have returns := Machine.next?_of_token ahead.awake back.1 back.2
  have uncalled : a.Uncalled (cycle ⟨a, host⟩).machine := by
    refine .cycle host .start ?_ ?_
    · rintro ⟨op, q, next, taken⟩
      cases Option.some.inj (moves.symm.trans next)
      exact taken
    · rintro ⟨q, next, named⟩
      cases Option.some.inj (moves.symm.trans next)
      revert named
      decide
  subst called
  refine ⟨_, uncalled, returns, ?_⟩
  rw [index_of_return ⟨_, _, next, trivial⟩ host uncalled returns host, index]

end Rig

end PocketConsole
