import Mathlib.Logic.Function.Iterate
import PocketConsole.Proofs.Machine.Contents
import PocketConsole.Proofs.Machine.Words

namespace PocketConsole

/-- The operation that carries out an operator. -/
def Operator.opcode : Operator → Opcode
  | add => .add
  | sub => .sub
  | mul => .mul
  | div => .div
  | mod => .mod
  | and => .and
  | or => .or
  | xor => .xor
  | lshft => .lshft
  | rshft => .rshft

/-- Expressions over bytes. -/
inductive Expression
  | literal (n : UInt8)
  | not (e : Expression)
  | apply (o : Operator) (left right : Expression)

namespace Expression

/-- Postfix code: operands first, each followed by what is done to it. -/
def code : Expression → List Token
  | literal n => [.ofOpcode .push n]
  | not e => e.code ++ [.ofOpcode .not 0]
  | apply o left right => left.code ++ (right.code ++ [.ofOpcode o.opcode 0])

/-- How many cells of the stack the code needs. A right operand is computed above the left one. -/
def cells : Expression → Nat
  | literal _ => 1
  | not e => e.cells
  | apply _ left right => max left.cells (right.cells + 1)

/-- The value, each result on the way kept as a byte. -/
def value (wraps : Bool) : Expression → Int
  | literal n => limit wraps n.toNat
  | not e => limit wraps (~~~ word (e.value wraps)).toInt
  | apply o left right => limit wraps (o.exact (left.value wraps) (right.value wraps))

theorem cells_pos (e : Expression) : 0 < e.cells := by
  induction e with
  | literal n => exact Nat.one_pos
  | not e ih => exact ih
  | apply o left right => exact Nat.lt_of_lt_of_le (Nat.succ_pos _) (Nat.le_max_right _ _)

end Expression

namespace Machine

/-- The memory address of a cell of the stack. -/
def cellAddress (i : UInt8) : Nat :=
  Region.stack.addr + i.toNat

theorem cell_eq_get (m : Machine) (i : UInt8) : m.cell i = m.memory.get (cellAddress i) :=
  Bank.getIn_eq_get _ _ i.toNat_lt

theorem cellAddress_inj {i j : UInt8} : cellAddress i = cellAddress j ↔ i = j := by
  rw [cellAddress, cellAddress, Nat.add_left_cancel_iff, UInt8.toNat_inj]

theorem get_memory_push (m : Machine) (v : Int) (x : Nat) :
    (m.push v).memory.get x =
      if x = cellAddress (m.get .si + 1) then fit m.wraps v else m.memory.get x := by
  have bound := (m.get .si + 1).toNat_lt
  have inside : Region.stack.stop ≤ 3200 := by decide
  rw [memory_push, Bank.get_writeIn _ inside]
  have here : (Region.stack.addr + (m.get .si + 1).toNat ≤ x ∧
      x < Region.stack.addr + (m.get .si + 1).toNat + [fit m.wraps v].length ∧ x < Region.stack.stop) ↔
      x = cellAddress (m.get .si + 1) := by
    simp only [cellAddress, Region.stop, Region.stack, List.length_cons, List.length_nil]
    omega
  by_cases same : x = cellAddress (m.get .si + 1)
  · rw [dif_pos (here.2 same), if_pos same]
    simp
  · rw [dif_neg (mt here.1 same), if_neg same]

theorem get_push (m : Machine) (v : Int) (r : Register) :
    (m.push v).get r = if r = .si then m.get .si + 1 else m.get r := by
  have moved : (m.push v).get r = (m.put .si (m.get .si + 1)).get r := rfl
  rw [moved, get_put]
  simp only [eq_comm]

theorem top_push (m : Machine) (v : Int) : (m.push v).top = fit m.wraps v := by
  rw [top, cell_eq_get, get_push, if_pos rfl, get_memory_push, if_pos rfl]

/-- Code of a given length has put one more byte on the stack, and has changed no more than a given
number of cells above the stack index. -/
structure Gains (m n : Machine) (length cells : Nat) (v : Int) : Prop where
  top : (n.top.toNat : Int) = v
  stackIndex : n.get .si = m.get .si + 1
  index : n.index.toNat = m.index.toNat + length
  registers : ∀ r, r ∉ [Register.pch, .pcl, .si] → n.get r = m.get r
  memory : ∀ x, (∀ k, 1 ≤ k → k ≤ cells → x ≠ cellAddress (m.get .si + UInt8.ofNat k)) →
    n.memory.get x = m.memory.get x
  alike : m.Alike n

theorem cellAddress_ne_above (i : UInt8) {k : Nat} (lower : 1 ≤ k) (upper : k ≤ 255) :
    cellAddress i ≠ cellAddress (i + UInt8.ofNat k) := by
  intro same
  have moved := congrArg UInt8.toNat (cellAddress_inj.1 same)
  have bound := i.toNat_lt
  simp only [UInt8.toNat_add, UInt8.toNat_ofNat'] at moved
  omega

theorem index_push (m : Machine) (v : Int) : (m.push v).index = m.index := by
  rw [index, index, counter, counter, get_push, get_push, if_neg (by decide), if_neg (by decide)]

theorem index_lower (m : Machine) (n : UInt8) : (m.lower n).index = m.index := by
  rw [index, index, counter, counter, lower, get_put, get_put, if_neg (by decide), if_neg (by decide)]

theorem toNat_index_past {m : Machine} {n : Nat} (index : m.index.toNat = n) (room : n < 32768) :
    m.past.index.toNat = n + 1 := by
  have one : (1 : UInt16).toNat = 1 := rfl
  rw [index_past, UInt16.toNat_add, index, one]
  omega

namespace Gains

variable {m n k : Machine} {length more cells above : Nat} {v w : Int}

theorem get (gained : m.Gains n length cells v) {r : Register}
    (other : r ∉ [Register.pch, .pcl, .si]) : n.get r = m.get r :=
  gained.registers r other

theorem wraps (gained : m.Gains n length cells v) : n.wraps = m.wraps := by
  rw [Machine.wraps, Machine.wraps, gained.registers .wv (by decide)]

/-- A result pushed where the stack index is back where it was. -/
theorem ofPush {b : Machine} (stackIndex : b.get .si = m.get .si)
    (index : b.index.toNat = m.index.toNat + length)
    (registers : ∀ r, r ∉ [Register.pch, .pcl, .si] → b.get r = m.get r)
    (memory : ∀ x, (∀ k, 1 ≤ k → k ≤ cells → x ≠ cellAddress (m.get .si + UInt8.ofNat k)) →
      b.memory.get x = m.memory.get x)
    (alike : m.Alike b) (used : 0 < cells) (v : Int) :
    m.Gains (b.push v) length cells (limit m.wraps v) where
  top := by
    have policy : b.wraps = m.wraps := by
      rw [Machine.wraps, Machine.wraps, registers .wv (by decide)]
    rw [top_push, toNat_fit, policy]
  stackIndex := by rw [get_push, if_pos rfl, stackIndex]
  index := by rw [index_push, index]
  registers r other := by
    have notStack : r ≠ .si := by
      rintro rfl
      exact other (by decide)
    rw [get_push, if_neg notStack, registers r other]
  memory x away := by
    have here : x ≠ cellAddress (m.get .si + 1) := away 1 (Nat.le_refl 1) used
    rw [get_memory_push, stackIndex, if_neg here, memory x away]
  alike := alike.trans (.push b v)

theorem literal (m : Machine) (v : Int) (room : m.index.toNat < 32768) :
    m.Gains (m.past.push v) 1 1 (limit m.wraps v) := by
  refine ofPush (get_past m (by decide) (by decide)) (toNat_index_past rfl room) (fun r other => ?_)
    (fun x _ => rfl) (.goto m _) Nat.one_pos v
  simp only [List.mem_cons, List.not_mem_nil, or_false, not_or] at other
  exact get_past m other.1 other.2.1

/-- A token that replaces the top of the stack keeps the byte gained one byte. -/
theorem replaced (gained : m.Gains n length cells v) (used : 0 < cells)
    (room : m.index.toNat + length < 32768) (w : Int) :
    m.Gains (n.past.drop.push w) (length + 1) cells (limit m.wraps w) := by
  refine ofPush (b := n.past.drop) ?_ ?_ (fun r other => ?_) gained.memory ?_ used w
  · rw [drop, lower, get_put, if_pos rfl, get_past n (by decide) (by decide), gained.stackIndex,
      UInt8.add_sub_cancel]
  · rw [drop, index_lower, toNat_index_past gained.index room, Nat.add_assoc]
  · simp only [List.mem_cons, List.not_mem_nil, or_false, not_or] at other
    rw [drop, lower, get_put, if_neg (Ne.symm other.2.2), get_past n other.1 other.2.1,
      gained.registers r (by simp [other])]
  · exact gained.alike.trans ((Alike.goto n _).trans (.put _ .si _))

/-- The cell below the top is what was on top before the last byte was gained, unless the code for
that byte needed the whole ring. -/
theorem second_eq_top (gained : m.Gains n length cells v) (few : cells ≤ 255) : n.second = m.top := by
  rw [second, gained.stackIndex, UInt8.add_sub_cancel, Machine.top, cell_eq_get, cell_eq_get]
  exact gained.memory _ fun k lower upper => cellAddress_ne_above _ lower (upper.trans few)

/-- A token that puts a result in the place of two bytes gained leaves one. -/
theorem combined (first : m.Gains n length cells v) (second : n.Gains k more above w)
    (room : m.index.toNat + (length + more) < 32768) (u : Int) :
    m.Gains (k.past.drop.drop.push u) (length + (more + 1)) (max cells (above + 1)) (limit m.wraps u) := by
  have two : m.get .si + 1 + 1 - 1 - 1 = m.get .si := by
    rw [UInt8.add_sub_cancel, UInt8.add_sub_cancel]
  refine ofPush ?_ ?_ (fun r other => ?_) (fun x away => ?_) ?_ (by omega) u
  · simp only [drop, lower, get_put, if_true, get_past k (r := .si) (by decide) (by decide),
      second.stackIndex, first.stackIndex, two]
  · have index : k.index.toNat = m.index.toNat + (length + more) := by
      rw [second.index, first.index, Nat.add_assoc]
    rw [drop, index_lower, drop, index_lower, toNat_index_past index room, Nat.add_assoc, Nat.add_assoc]
  · have both := (second.registers r other).trans (first.registers r other)
    simp only [List.mem_cons, List.not_mem_nil, or_false, not_or] at other
    rw [drop, lower, get_put, if_neg (Ne.symm other.2.2), drop, lower, get_put,
      if_neg (Ne.symm other.2.2), get_past k other.1 other.2.1, both]
  -- the cells of the second byte are counted from one cell further up
  · have left := first.memory x fun j lower upper => away j lower (by omega)
    have right := second.memory x fun j lower upper => by
      have shifted := away (j + 1) (by omega) (by omega)
      rw [first.stackIndex, UInt8.add_assoc, UInt8.add_comm 1]
      rwa [UInt8.ofNat_add] at shifted
    exact right.trans left
  · have both := first.alike.trans second.alike
    exact both.trans ((Alike.goto k _).trans (.dropTwo _))

end Gains

end Machine

namespace Opcode

/-- Whether carrying out an operation has nothing to do with a host. -/
def Quiet (op : Opcode) : Prop :=
  op ≠ .save ∧ op ≠ .load ∧ ∀ (m : Machine) (p : UInt8), m.report op p = none

/-- Only saves, logs and jumps have to do with a host: a jump may miss its label. -/
theorem quiet_of_silent {op : Opcode} (silent : op ∉ [save, load, logr, logs]) (straight : op.isJump = false) :
    op.Quiet := by
  simp only [List.mem_cons, List.not_mem_nil, or_false, not_or] at silent
  obtain ⟨noSave, noLoad, noRegister, noTop⟩ := silent
  refine ⟨noSave, noLoad, fun m p => ?_⟩
  cases op
  case logr => exact absurd rfl noRegister
  case logs => exact absurd rfl noTop
  case jump | jeq | jneq | jgt | jgte | jlt | jlte => cases straight
  all_goals rfl

end Opcode

namespace Rig

variable {σ : Type} [Store σ]

theorem cycle_of_quiet {m : Machine} {op : Opcode} {p : UInt8} (quiet : op.Quiet)
    (next : m.next? = some (op, p)) (host : Host σ) :
    cycle ⟨m, host⟩ = ⟨m.past.perform op p, host⟩ := by
  obtain ⟨noSave, noLoad, silent⟩ := quiet
  rw [cycle_of_next next, perform_eq _ noSave noLoad, silent]
  rfl

theorem quiet_push : Opcode.Quiet .push :=
  Opcode.quiet_of_silent (by decide) rfl

theorem quiet_operator (o : Operator) : o.opcode.Quiet := by
  cases o <;> exact Opcode.quiet_of_silent (by decide) rfl

theorem perform_operator (m : Machine) (o : Operator) (p : UInt8) :
    m.perform o.opcode p = m.drop.drop.push (o.exact m.second.toNat m.top.toNat) := by
  rw [← Operator.eval_eq_exact]
  cases o <;> rfl

/-- After a number of cycles the machine has gained a byte, and the host is as before. -/
def Computes (m : Machine) (host : Host σ) (length cells : Nat) (v : Int) : Prop :=
  ∃ n, cycle^[length] ⟨m, host⟩ = ⟨n, host⟩ ∧ m.Gains n length cells v

/-- A cycle at the token of an operation that has nothing to do with the host. -/
theorem cycle_at_token {m : Machine} {op : Opcode} {p : UInt8} (quiet : op.Quiet) (awake : m.get .sc = 0)
    {place : Nat} (here : m.index.toNat = place) {ts : List Token}
    (held : m.storage.Holds place (.ofOpcode op p :: ts)) (host : Host σ) :
    cycle ⟨m, host⟩ = ⟨m.past.perform op p, host⟩ :=
  cycle_of_quiet quiet (Machine.next?_of_holds awake here held) host

theorem Computes.not {m : Machine} {host : Host σ} {code : List Token} {cells : Nat} {v : Int}
    (operand : Computes m host code.length cells v) (used : 0 < cells) (awake : m.get .sc = 0)
    (room : m.index.toNat + code.length < 32768)
    (held : m.storage.Holds m.index.toNat (code ++ [.ofOpcode .not 0])) :
    Computes m host (code.length + 1) cells (limit m.wraps (~~~ word v).toInt) := by
  obtain ⟨n, ran, gained⟩ := operand
  have token := held.right
  rw [← gained.alike.storage] at token
  have stillAwake : n.get .sc = 0 := by rw [gained.get (by decide), awake]
  have performed : n.past.perform .not 0 = n.past.drop.push (complement n.top) := by
    rw [← Machine.top_past]
    rfl
  have value : complement n.top = (~~~ word v).toInt := by rw [complement_eq_not, gained.top]
  refine ⟨n.past.perform .not 0, ?_, ?_⟩
  · rw [Function.iterate_succ_apply', ran,
        cycle_at_token (Opcode.quiet_of_silent (by decide) rfl) stillAwake gained.index token]
  · rw [performed, ← value]
    exact gained.replaced used room _

theorem Computes.apply {m n : Machine} {host : Host σ} {left right : List Token} {cells above : Nat}
    {v w : Int} (o : Operator) (ran : cycle^[left.length] ⟨m, host⟩ = ⟨n, host⟩)
    (first : m.Gains n left.length cells v) (operand : Computes n host right.length above w)
    (few : above ≤ 255) (awake : m.get .sc = 0)
    (room : m.index.toNat + (left.length + right.length) < 32768)
    (held : m.storage.Holds m.index.toNat (left ++ (right ++ [.ofOpcode o.opcode 0]))) :
    Computes m host (left.length + (right.length + 1)) (max cells (above + 1))
      (limit m.wraps (o.exact v w)) := by
  obtain ⟨k, ranRight, second⟩ := operand
  have token := held.right.right
  rw [← first.index, ← first.alike.storage, ← second.alike.storage] at token
  have stillAwake : k.get .sc = 0 := by
    rw [second.get (by decide), first.get (by decide), awake]
  have value : o.exact k.second.toNat k.top.toNat = o.exact v w := by
    rw [second.second_eq_top few, first.top, second.top]
  refine ⟨k.past.perform o.opcode 0, ?_, ?_⟩
  · rw [Nat.add_comm, Function.iterate_add_apply, ran, Function.iterate_succ_apply', ranRight,
      cycle_at_token (quiet_operator o) stillAwake second.index token]
  · rw [perform_operator, Machine.top_past, Machine.second_past, ← value]
    exact first.combined second room _

/-- Postfix code computes its expression, and leaves alone what is not above the stack index. -/
theorem iterate_cycle_code (e : Expression) (few : e.cells ≤ 256) {m : Machine}
    (awake : m.get .sc = 0) (room : m.index.toNat + e.code.length ≤ 32768)
    (held : m.storage.Holds m.index.toNat e.code) (host : Host σ) :
    ∃ n, cycle^[e.code.length] ⟨m, host⟩ = ⟨n, host⟩ ∧
      m.Gains n e.code.length e.cells (e.value m.wraps) := by
  induction e generalizing m with
  | literal n =>
    exact ⟨_, cycle_at_token quiet_push awake rfl held host, Machine.Gains.literal m _ room⟩
  | not e ih =>
    rw [Expression.code, List.length_append, List.length_singleton] at room ⊢
    have operand := ih few awake (by omega) held.left
    exact Computes.not operand e.cells_pos awake (by omega) held
  | apply o left right ihLeft ihRight =>
    -- the right operand is computed by the machine that the left one leaves, one cell higher
    rw [Expression.cells] at few
    rw [Expression.code, List.length_append, List.length_append, List.length_singleton] at room ⊢
    obtain ⟨n, ran, first⟩ := ihLeft (by omega) awake (by omega) held.left
    have heldRight : n.storage.Holds n.index.toNat (right.code ++ [.ofOpcode o.opcode 0]) := by
      rw [first.alike.storage, first.index]
      exact held.right
    have awakeRight : n.get .sc = 0 := by rw [first.get (by decide), awake]
    have roomRight := first.index
    have operand := ihRight (by omega) awakeRight (by omega) heldRight.left
    rw [first.wraps] at operand
    exact Computes.apply o ran first operand (by omega) awake (by omega) held

/-- Seven halves, rounded up, taken from five, around the end of the ring. -/
theorem iterate_cycle_difference :
    let e : Expression := .apply .sub (.literal 5) (.apply .div (.literal 7) (.literal 2))
    let p : Program := { name := "difference", code := ⟨e.code, .empty⟩ }
    let m := (Machine.ofProgram p).put .si 254
    ∃ n, cycle^[5] ⟨m, (⟨Shelf.empty, #[]⟩ : Host Shelf)⟩ = ⟨n, ⟨.empty, #[]⟩⟩ ∧ n.top = 1 ∧
      n.get .si = 255 := by
  intro e p m
  have awake : m.get .sc = 0 := by
    rw [Machine.get_put, if_neg (by decide)]
    exact Registers.get_zero .sc
  have first : m.index.toNat = 0 := by decide
  have room : m.index.toNat + e.code.length ≤ 32768 := by
    rw [first]
    decide
  have short : p.code.tokens.length ≤ 32768 := by decide
  have held : m.storage.Holds m.index.toNat e.code := by
    rw [first]
    exact Machine.holds_ofProgram short
  obtain ⟨n, ran, gained⟩ := iterate_cycle_code e (by decide) awake room held ⟨Shelf.empty, #[]⟩
  have clamps : m.wraps = false := by decide
  have value : e.value false = 1 := by decide +kernel
  have top := gained.top
  rw [clamps, value] at top
  have top : n.top = 1 := UInt8.toNat_inj.1 (Int.ofNat.inj top)
  exact ⟨n, ran, top, gained.stackIndex⟩

end Rig

end PocketConsole
