import PocketConsole.Proofs.Machine.StraightLine

namespace PocketConsole

/-- The operations whose operands may be kept as bytes without a change to what their results are kept as. -/
def Opcode.reducible (wraps : Bool) : List Opcode :=
  if wraps then [.add, .sub, .mul, .not] else [.add, .mul]

namespace Expression

/-- The exact integer that an expression stands for. -/
def integer : Expression → Int
  | literal n => n.toNat
  | not e => -1 - e.integer
  | apply o left right => o.exact left.integer right.integer

/-- An expression has no other operations than these. -/
def Within (ops : List Opcode) : Expression → Prop
  | literal _ => True
  | not e => .not ∈ ops ∧ e.Within ops
  | apply o left right => o.opcode ∈ ops ∧ left.Within ops ∧ right.Within ops

theorem length_code_pos (e : Expression) : 0 < e.code.length := by
  cases e with
  | literal n => exact Nat.one_pos
  | not e | apply o left right =>
    simp only [code, List.length_append, List.length_singleton]
    omega

theorem Within.of_mem_code {ops : List Opcode} {e : Expression} (within : e.Within ops) {t : Token}
    (member : t ∈ e.code) : ∃ op p, t = .ofOpcode op p ∧ op ∈ .push :: ops := by
  induction e with
  | literal n => exact ⟨.push, n, List.mem_singleton.1 member, .head _⟩
  | not e ih =>
    rcases List.mem_append.1 member with operand | here
    · exact ih within.2 operand
    · exact ⟨.not, 0, List.mem_singleton.1 here, .tail _ within.1⟩
  | apply o left right ihLeft ihRight =>
    rcases List.mem_append.1 member with first | rest
    · exact ihLeft within.2.1 first
    rcases List.mem_append.1 rest with second | here
    · exact ihRight within.2.2 second
    · exact ⟨o.opcode, 0, List.mem_singleton.1 here, .tail _ within.1⟩

end Expression

/-! ### Reduction -/

section Limit

variable {i j : Int}

theorem limit_of_large (large : 255 ≤ i) : limit false i = 255 := by
  simp only [limit, Bool.false_eq_true, if_false]
  omega

theorem limit_of_byte (nonneg : 0 ≤ i) (byte : i ≤ 255) : limit false i = i := by
  simp only [limit, Bool.false_eq_true, if_false]
  omega

/-- A large factor makes a product large, unless the other one is zero. -/
theorem limit_mul_of_large (large : 255 ≤ i) (nonneg : 0 ≤ j) : limit false (i * j) = if j = 0 then 0 else 255 := by
  split
  · rename_i zero
    rw [zero, Int.mul_zero]
    rfl
  · have one : 1 ≤ j := by omega
    have product : 255 * 1 ≤ i * j := Int.mul_le_mul large one (by decide) (by omega)
    exact limit_of_large product

theorem limit_mul_limit_of_large (large : 255 ≤ i) (nonneg : 0 ≤ j) :
    limit false (limit false i * limit false j) = limit false (i * j) := by
  have kept : 0 ≤ limit false j ∧ (limit false j = 0 ↔ j = 0) := by
    simp only [limit, Bool.false_eq_true, if_false]
    omega
  rw [limit_of_large large, limit_mul_of_large (Int.le_refl 255) kept.1, limit_mul_of_large large nonneg]
  simp only [kept.2]

/-- Products of integers that are not negative may be clamped on the way. -/
theorem limit_mul_limit (first : 0 ≤ i) (second : 0 ≤ j) :
    limit false (limit false i * limit false j) = limit false (i * j) := by
  rcases Int.le_total 255 i with large | byte
  · exact limit_mul_limit_of_large large second
  rcases Int.le_total 255 j with large | byte'
  · rw [Int.mul_comm, limit_mul_limit_of_large large first, Int.mul_comm]
  · rw [limit_of_byte first byte, limit_of_byte second byte']

/-- Reduced operands have the same reduced result. -/
theorem Operator.limit_exact {o : Operator} {wraps : Bool} (reducible : o.opcode ∈ Opcode.reducible wraps)
    (nonneg : wraps = false → 0 ≤ i ∧ 0 ≤ j) :
    limit wraps (o.exact (limit wraps i) (limit wraps j)) = limit wraps (o.exact i j) := by
  cases wraps with
  | false =>
    obtain ⟨first, second⟩ := nonneg rfl
    cases o
    case add =>
      simp only [limit, exact, Bool.false_eq_true, if_false]
      omega
    case mul => exact limit_mul_limit first second
    all_goals exact absurd reducible (by decide)
  | true =>
    cases o
    case add => exact (Int.add_emod i j 255).symm
    case sub => exact (Int.sub_emod i j 255).symm
    case mul => exact (Int.mul_emod i j 255).symm
    all_goals exact absurd reducible (by decide)

/-- So has a reduced operand that is negated. -/
theorem limit_complement {wraps : Bool} (reducible : Opcode.not ∈ Opcode.reducible wraps) :
    limit wraps (~~~ word (limit wraps i)).toInt = limit wraps (-1 - i) := by
  have exact : (~~~ word (limit wraps i)).toInt = -1 - limit wraps i := by
    rw [← toNat_fit, ← complement_eq_not, complement]
  rw [exact]
  cases wraps with
  | false => exact absurd reducible (by decide)
  | true =>
    simp only [limit, if_true]
    omega

end Limit

theorem Expression.integer_nonneg {e : Expression} (within : e.Within (Opcode.reducible false)) : 0 ≤ e.integer := by
  induction e with
  | literal n => exact Int.natCast_nonneg _
  | not e => exact absurd within.1 (by decide)
  | apply o left right ihLeft ihRight =>
    obtain ⟨reducible, first, second⟩ := within
    have left := ihLeft first
    have right := ihRight second
    cases o
    case add => exact Int.add_nonneg left right
    case mul => exact Int.mul_nonneg left right
    all_goals exact absurd reducible (by decide)

/-! ### Results -/

/-- The operator that an operation carries out. -/
def Opcode.operator? : Opcode → Option Operator
  | add => some .add
  | sub => some .sub
  | mul => some .mul
  | div => some .div
  | mod => some .mod
  | and => some .and
  | or => some .or
  | xor => some .xor
  | lshft => some .lshft
  | rshft => some .rshft
  | _ => none

/-- The exact integer that the next cycle is to push, before it is kept as a byte. -/
def Machine.result? (m : Machine) : Option Int :=
  match m.next? with
  | some (.const, p) | some (.push, p) => some p.toNat
  | some (.pushr, p) => some (m.past.getAt p).toNat
  | some (.not, _) => some (complement m.top)
  | some (op, _) => op.operator?.map (·.eval m.second m.top)
  | none => none

theorem Operator.result?_of_next {m : Machine} {o : Operator} {p : UInt8} (next : m.next? = some (o.opcode, p)) :
    m.result? = some (o.eval m.second m.top) := by
  rw [Machine.result?, next]
  cases o <;> rfl

theorem Operator.eval_word {o : Operator} (reducible : o.opcode ∈ Opcode.reducible true) (b a : UInt8) :
    -2147483648 ≤ o.eval b a ∧ o.eval b a < 2147483648 := by
  have boundB := b.toNat_lt
  have boundA := a.toNat_lt
  rw [eval_eq_exact]
  cases o
  case add | sub =>
    simp only [exact]
    omega
  case mul =>
    have product : b.toNat * a.toNat ≤ 255 * 255 := Nat.mul_le_mul (by omega) (by omega)
    simp only [exact]
    omega
  all_goals exact absurd reducible (by decide)

theorem complement_word (a : UInt8) : -2147483648 ≤ complement a ∧ complement a < 2147483648 := by
  have bound := a.toNat_lt
  rw [complement]
  omega

theorem Opcode.reducible_subset (wraps : Bool) : Opcode.reducible wraps ⊆ Opcode.reducible true := by
  cases wraps <;> decide

theorem Opcode.not_or_operator {op : Opcode} (reducible : op ∈ Opcode.reducible true) :
    op = .not ∨ ∃ o : Operator, op = o.opcode := by
  have each : op ∈ [.add, .sub, .mul, .not] := reducible
  simp only [List.mem_cons, List.not_mem_nil, or_false] at each
  rcases each with rfl | rfl | rfl | rfl
  · exact .inr ⟨.add, rfl⟩
  · exact .inr ⟨.sub, rfl⟩
  · exact .inr ⟨.mul, rfl⟩
  · exact .inl rfl

namespace Rig

variable {σ : Type} [Store σ]

/-- What a cycle pushes is a word of 32 bits, before it is kept as a byte. -/
theorem result_cycle {m : Machine} {op : Opcode} {p : UInt8} (next : m.next? = some (op, p))
    (reducible : op ∈ .push :: Opcode.reducible true) (host : Host σ) :
    ∃ v, m.result? = some v ∧ (cycle ⟨m, host⟩).machine.top = fit m.wraps v ∧ -2147483648 ≤ v ∧ v < 2147483648 := by
  rcases List.mem_cons.1 reducible with rfl | reducible
  · have bound := p.toNat_lt
    refine ⟨p.toNat, by rw [Machine.result?, next], ?_, by omega, by omega⟩
    rw [cycle_of_quiet quiet_push next, Machine.perform, Machine.top_push, Machine.wraps_past]
  obtain rfl | ⟨o, rfl⟩ := Opcode.not_or_operator reducible
  · refine ⟨complement m.top, by rw [Machine.result?, next], ?_, complement_word m.top⟩
    have wraps : m.past.drop.wraps = m.wraps := congrArg isHigh
      ((Machine.get_drop _ (by decide)).trans (Machine.get_past m (by decide) (by decide)))
    have performed : m.past.perform .not p = m.past.drop.push (complement m.past.top) := rfl
    rw [cycle_of_quiet (Opcode.quiet_of_silent (by decide) rfl) next, performed, Machine.top_push, wraps,
      Machine.top_past]
  · refine ⟨_, Operator.result?_of_next next, ?_, Operator.eval_word reducible _ _⟩
    have wraps : m.past.drop.drop.wraps = m.wraps := congrArg isHigh
      ((Machine.get_drop_drop _ (by decide)).trans (Machine.get_past m (by decide) (by decide)))
    rw [cycle_of_quiet (quiet_operator o) next, perform_operator, Machine.top_push, wraps, Machine.top_past,
      Machine.second_past, Operator.eval_eq_exact]

theorem straight_of_reducible {op : Opcode} (reducible : op ∈ .push :: Opcode.reducible true) (p : UInt8) :
    (Token.ofOpcode op p).Straight := by
  have each : ∀ op ∈ .push :: Opcode.reducible true,
      (op.isJump = false ∧ op ∉ [Opcode.goto, .rtn, .sleep]) ∧ op ≠ .mov := by decide
  exact .ofOpcode (each op reducible).1 (each op reducible).2 p

/-- Postfix code leaves what the exact integer is kept as. -/
theorem computes_integer (e : Expression) (few : e.cells ≤ 256) {m : Machine}
    (within : e.Within (Opcode.reducible m.wraps)) (awake : m.get .sc = 0)
    (room : m.index.toNat + e.code.length ≤ 32768) (held : m.storage.Holds m.index.toNat e.code) (host : Host σ) :
    Computes m host e.code.length e.cells (limit m.wraps e.integer) := by
  induction e generalizing m with
  | literal n => exact ⟨_, cycle_at_token quiet_push awake rfl held host, .literal m _ room⟩
  | not e ih =>
    rw [Expression.code, List.length_append, List.length_singleton] at room ⊢
    have operand := ih few within.2 awake (by omega) held.left
    have negated := Computes.not operand e.cells_pos awake (by omega) held
    rwa [limit_complement within.1] at negated
  | apply o left right ihLeft ihRight =>
    rw [Expression.cells] at few
    rw [Expression.code, List.length_append, List.length_append, List.length_singleton] at room ⊢
    obtain ⟨reducible, first, second⟩ := within
    obtain ⟨n, ran, gained⟩ := ihLeft (by omega) first awake (by omega) held.left
    have rest := held.right
    rw [← gained.alike.storage, ← gained.index] at rest
    have further := gained.index
    have still : n.get .sc = 0 := (gained.get (by decide)).trans awake
    have operand := ihRight (by omega) (gained.wraps ▸ second) still (by omega) rest.left
    rw [gained.wraps] at operand
    have computed := Computes.apply o ran gained operand (by omega) awake (by omega) held
    have nonneg (clamps : m.wraps = false) : 0 ≤ left.integer ∧ 0 ≤ right.integer := by
      rw [clamps] at first second
      exact ⟨Expression.integer_nonneg first, Expression.integer_nonneg second⟩
    rwa [Operator.limit_exact reducible nonneg] at computed

/-- No operand of an expression needs to be kept exactly: its postfix code leaves the remainder of the exact integer
where results wrap and the operations are those of a ring, and the nearest byte where they do not and nothing is
subtracted. No result on the way exceeds a word. -/
theorem top_of_integer (e : Expression) (few : e.cells ≤ 256) {m : Machine}
    (within : e.Within (Opcode.reducible m.wraps)) (awake : m.get .sc = 0)
    (held : m.storage.Holds m.index.toNat e.code) (host : Host σ) :
    (∃ n, cycle^[e.code.length] ⟨m, host⟩ = ⟨n, host⟩ ∧ n.get .si = m.get .si + 1 ∧
      (m.wraps = true → (n.top.toNat : Int) = e.integer % 255 ∧ n.top.toNat ≤ 254) ∧
      (m.wraps = false → (n.top.toNat : Int) = min 255 e.integer)) ∧
    ∀ k < e.code.length, ∃ v, (cycle^[k] ⟨m, host⟩).machine.result? = some v ∧
      (cycle^[k + 1] ⟨m, host⟩).machine.top = fit (cycle^[k] ⟨m, host⟩).machine.wraps v ∧
      -2147483648 ≤ v ∧ v < 2147483648 := by
  have arithmetic : ∀ t ∈ e.code, ∃ op p, t = .ofOpcode op p ∧ op ∈ .push :: Opcode.reducible true := by
    intro t member
    obtain ⟨op, p, token, reducible⟩ := within.of_mem_code member
    exact ⟨op, p, token, List.cons_subset_cons _ (Opcode.reducible_subset _) reducible⟩
  have straight : ∀ t ∈ e.code, t.Straight := by
    intro t member
    obtain ⟨op, p, rfl, reducible⟩ := arithmetic t member
    exact straight_of_reducible reducible p
  have room : m.index.toNat + e.code.length ≤ 32768 := by
    have last : e.code.length - 1 < e.code.length := Nat.sub_one_lt (Nat.ne_of_gt e.length_code_pos)
    obtain ⟨op, p, token, -⟩ := arithmetic _ (List.getElem_mem last)
    have inside := held.lt (token ▸ List.getElem?_eq_getElem last)
    omega
  refine ⟨?_, fun k before => ?_⟩
  · obtain ⟨n, ran, gained⟩ := computes_integer e few within awake room held host
    have top := gained.top
    refine ⟨n, ran, gained.stackIndex, fun wraps => ?_, fun clamps => ?_⟩
    · rw [wraps, limit, if_pos rfl] at top
      exact ⟨top, by omega⟩
    · rw [clamps] at within top
      have nonneg := Expression.integer_nonneg within
      rw [top, limit, if_neg Bool.false_ne_true]
      omega
  · have ahead := ahead_iterate_cycle awake held straight host (Nat.le_of_lt before)
    obtain ⟨op, p, token, reducible⟩ := arithmetic _ (List.getElem_mem before)
    have here := ahead.token held (List.getElem?_eq_getElem before)
    rw [token] at here
    have next := Machine.next?_of_token ahead.awake here.1 here.2
    rw [Function.iterate_succ_apply']
    exact result_cycle next reducible _

/-- The result of a subtraction that wraps is carried on, and negated. -/
theorem top_of_integer_when_wrapping :
    let product : Expression := .apply .mul (.apply .add (.literal 200) (.literal 100)) (.literal 2)
    let e : Expression := .not (.apply .sub (.literal 7) product)
    let p : Program := { name := "integer", code := ⟨e.code, .empty⟩ }
    let m := (Machine.ofProgram p).put .wv 1
    e.integer = 592 ∧ ∃ n, cycle^[8] ⟨m, (⟨Shelf.empty, #[]⟩ : Host Shelf)⟩ = ⟨n, ⟨.empty, #[]⟩⟩ ∧ n.top = 82 := by
  intro product e p m
  have awake : m.get .sc = 0 := by decide
  have first : m.index.toNat = 0 := by decide
  have wraps : m.wraps = true := by decide
  have within : e.Within (Opcode.reducible m.wraps) := by
    rw [wraps]
    exact ⟨by decide, by decide, trivial, by decide, ⟨by decide, trivial, trivial⟩, trivial⟩
  have held : m.storage.Holds m.index.toNat e.code := by
    rw [first]
    exact Machine.holds_ofProgram (p := p) (by decide)
  obtain ⟨⟨n, ran, -, top, -⟩, -⟩ := top_of_integer e (by decide) within awake held ⟨Shelf.empty, #[]⟩
  have value : e.integer = 592 := by decide
  have remainder := (top wraps).1
  rw [value] at remainder
  exact ⟨value, n, ran, UInt8.toNat_inj.1 (Int.ofNat.inj remainder)⟩

end Rig

end PocketConsole
