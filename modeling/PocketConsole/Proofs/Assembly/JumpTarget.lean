import PocketConsole.Proofs.Assembly.LabelTable
import PocketConsole.Proofs.Machine.Continuation
import PocketConsole.Proofs.Machine.Image
import PocketConsole.Proofs.Machine.Jump

namespace PocketConsole

namespace Statement

/-- Where a jump in a text leads: to the last declaration of its label before it, else to the first
label of the text, else to its start. -/
def jumpTarget (ss : List Statement) (j : Nat) (label : Option (List Char)) : Nat :=
  (label.bind (lastDeclaration? (ss.take j))).getD ((labelLines ss).head?.getD 0)

/-- The number of the label that a jump in a text names, 0 if it has not been declared yet. -/
def jumpNumber (ss : List Statement) (j : Nat) (label : Option (List Char)) : UInt8 :=
  ((label.bind (lastDeclaration? (ss.take j))).map fun i =>
    Draft.labelNumber ((ss.take i).countP isLabel)).getD 0

/-- A label has as many labels before it as its place among them says. -/
theorem getElem?_labelLines {ss : List Statement} {i : Nat} {s : Statement} (line : ss[i]? = some s)
    (label : s.isLabel = true) : (labelLines ss)[(ss.take i).countP isLabel]? = some i := by
  obtain ⟨bound, rfl⟩ := List.getElem?_eq_some_iff.1 line
  have parts : ss = ss.take i ++ ss[i] :: ss.drop (i + 1) := by
    rw [← List.drop_eq_getElem_cons bound, List.take_append_drop]
  have length : (labelLines (ss.take i)).length = (ss.take i).countP isLabel := length_labelLines _
  have before : (ss.take i).length = i := by
    rw [List.length_take]
    omega
  have lines : labelLines ss =
      labelLines (ss.take i) ++ (i :: (ss.drop (i + 1)).findIdxs isLabel (i + 1)) := by
    conv_lhs => rw [parts]
    simp only [labelLines, List.findIdxs_append, List.findIdxs_cons, label, if_true, before,
      Nat.zero_add]
  rw [lines, List.getElem?_append_right (Nat.le_of_eq length), length, Nat.sub_self]
  rfl

theorem isLabel_of_declares {name : List Char} {s : Statement} (declares : s.declares name = true) :
    s.isLabel = true := by
  unfold Statement.declares at declares
  unfold isLabel
  cases label : s.label? with
  | none => simp [label] at declares
  | some => rfl

/-- The label that a jump names is one of the whole text, and its number follows from its place among them. -/
theorem exists_place {ss : List Statement} {j i : Nat} {label : Option (List Char)}
    (last : label.bind (lastDeclaration? (ss.take j)) = some i) :
    ∃ k, (labelLines ss)[k]? = some i ∧ jumpNumber ss j label = Draft.labelNumber k := by
  obtain ⟨name, -, declared⟩ := Option.bind_eq_some_iff.1 last
  obtain ⟨⟨s, line, declares⟩, -⟩ := lastDeclaration?_eq_some_iff.1 declared
  have before := lastDeclaration?_lt declared
  rw [List.length_take] at before
  rw [List.getElem?_take_of_lt (by omega)] at line
  refine ⟨_, getElem?_labelLines line (isLabel_of_declares declares), ?_⟩
  rw [jumpNumber, last]
  rfl

theorem head?_name_ne_colon (op : Opcode) : op.name.toList.head? ≠ some ':' := by
  cases op <;> decide

/-- A word that names an operation declares no label. -/
theorem label?_of_operation {s : Statement} {op : Opcode} (word : Opcode.ofName? s.word = some op) :
    s.label? = none := by
  have named : op.name.toList = Text.upper s.word := by
    have found := Array.find?_some word
    simpa using found
  unfold label?
  split
  · rename_i name colon
    rw [colon] at named
    exact absurd (congrArg List.head? named) (head?_name_ne_colon op)
  · rfl

end Statement

namespace Code

open Statement

variable {ss : List Statement}

/-- With at most as many labels as numbers, each label keeps its number to itself. -/
theorem get?_labels (few : (labelLines ss).length ≤ 256) (id : UInt8) :
    (ofStatements ss).labels.get? id =
      (labelLines ss)[id.toNat]?.map fun i => Address.ofUInt16 (UInt16.ofNat i) := by
  rw [ofStatements, (tables _ ss).targets, Draft.labelAt?, if_neg]
  rintro ⟨-, many⟩
  omega

theorem parameter_of_jump (constants : Constants) {op : Opcode} (family : op.isJump = true) (j : Nat)
    (label : Option (List Char)) :
    ((ss.take j).foldl (Draft.add constants) {}).parameter constants op label =
      jumpNumber ss j label := by
  rw [Draft.parameter, if_pos family, jumpNumber]
  cases label with
  | none => rfl
  | some name =>
    rw [Option.bind_some, Option.bind_some, (tables constants (ss.take j)).numbers]
    congr 1
    apply Option.map_congr
    intro i last
    have before := lastDeclaration?_lt (Option.mem_def.1 last)
    rw [List.length_take] at before
    rw [List.take_take, Nat.min_eq_left (by omega)]

theorem getElem?_tokens_of_jump {j : Nat} {s : Statement} (line : ss[j]? = some s) {op : Opcode}
    (word : Opcode.ofName? s.word = some op) (family : op.isJump = true) :
    (ofStatements ss).tokens[j]? = some (.ofOpcode op (jumpNumber ss j s.operand)) := by
  have plain := label?_of_operation word
  rw [getElem?_tokens line, Draft.token, plain]
  simp only [word, Option.getD_some, parameter_of_jump _ family]

/-- The label table leads a jump to its target. -/
theorem target_of_jump (short : ss.length ≤ 65536) (few : (labelLines ss).length ≤ 256) (j : Nat)
    (label : Option (List Char)) :
    (((ofStatements ss).labels.get? (jumpNumber ss j label)).getD .origin).toUInt16.toNat =
      jumpTarget ss j label := by
  have address {i : Nat} (bound : i < ss.length) :
      (Address.ofUInt16 (UInt16.ofNat i)).toUInt16.toNat = i := by
    rw [Address.toUInt16_ofUInt16, UInt16.toNat_ofNat']
    exact Nat.mod_eq_of_lt (by omega)
  rw [get?_labels few, jumpTarget]
  cases last : label.bind (lastDeclaration? (ss.take j)) with
  | some i =>
    obtain ⟨k, place, number⟩ := exists_place last
    obtain ⟨room, -⟩ := List.getElem?_eq_some_iff.1 place
    obtain ⟨bound, -⟩ := List.mem_findIdxs_iff_exists_getElem_pos.1 (List.mem_of_getElem? place)
    -- the label has a number of its own, because there are at most 256
    rw [number, Option.getD_some, Draft.toNat_labelNumber (by omega), place]
    exact address bound
  | none =>
    rw [jumpNumber, last, Option.map_none, Option.getD_none, Option.getD_none, List.head?_eq_getElem?]
    cases first : (labelLines ss)[0]? with
    | none =>
      have absent : (labelLines ss)[(0 : UInt8).toNat]? = none := first
      rw [absent]
      rfl
    | some i =>
      have present : (labelLines ss)[(0 : UInt8).toNat]? = some i := first
      have member : i ∈ labelLines ss := List.mem_of_getElem? first
      obtain ⟨bound, -⟩ := List.mem_findIdxs_iff_exists_getElem_pos.1 member
      rw [present]
      exact address bound

end Code

namespace Rig

open Statement

variable {σ : Type} [Store σ]

/-- A machine that holds an assembled text and stands at a jump carries it out next. -/
theorem next?_of_jump_line {name source : String} {m : Machine}
    (program : (Machine.ofProgram (.ofSource name source)).SameProgram m)
    (short : (Statement.ofSource source.toList).length ≤ 32768) {s : Statement}
    (line : (Statement.ofSource source.toList)[m.index.toNat]? = some s) {op : Opcode}
    (word : Opcode.ofName? s.word = some op) (family : op.isJump = true) (awake : m.get .sc = 0) :
    m.next? = some (op, jumpNumber (Statement.ofSource source.toList) m.index.toNat s.operand) := by
  have inside := (List.getElem?_eq_some_iff.1 line).1
  have token := Code.getElem?_tokens_of_jump line word family
  have held := program.bytes_of_token (by omega) token
  exact Machine.next?_of_token awake held.1 held.2

/-- In a machine that holds an assembled text, whatever has become of it since, a jump leads to the
last declaration of its label before it, or else to the first label, and notes the token after it. A
jump that is not taken goes on there. -/
theorem cycle_at_jump_of_source {τ : Type} (start : Rig τ) {name source : String}
    (short : (Statement.ofSource source.toList).length ≤ 32768)
    (few : (labelLines (Statement.ofSource source.toList)).length ≤ 256)
    {j : Nat} {s : Statement} (line : (Statement.ofSource source.toList)[j]? = some s)
    {op : Opcode} (word : Opcode.ofName? s.word = some op) (family : op.isJump = true)
    {m : Machine} (later : (start.load (.ofSource name source)).machine.Later m)
    (here : m.index.toNat = j) (awake : m.get .sc = 0) (host : Host σ) :
    let after := (cycle ⟨m, host⟩).machine
    (op.Jumps m.second m.top →
      after.index.toNat = jumpTarget (Statement.ofSource source.toList) j s.operand ∧
        after.returnPointer.toUInt16.toNat = j + 1) ∧
    (¬ op.Jumps m.second m.top →
      after.index.toNat = j + 1 ∧ after.returnPointer = m.returnPointer) ∧
    (after.get .si).toNat =
      (if op = .jump then ((m.get .si).toNat : Int) else ((m.get .si).toNat - 2) % 256) ∧
    (∀ r, r ∉ [Register.pch, .pcl, .rph, .rpl, .si] → after.get r = m.get r) ∧
    after.memory = m.memory ∧ m.Alike after ∧ (cycle ⟨m, host⟩).host.store = host.store := by
  intro after
  subst here
  have program := later.sameProgram
  have bound : m.index.toNat < 32768 := by
    have inside := (List.getElem?_eq_some_iff.1 line).1
    omega
  have next := next?_of_jump_line program short line word family awake
  obtain ⟨jumped, store⟩ := jumped_cycle next family host
  -- the place after the jump does not wrap around, the text being short enough for storage
  have succ : (m.index + 1).toNat = m.index.toNat + 1 := by
    simp only [UInt16.toNat_add, UInt16.reduceToNat]
    omega
  have past : (Address.ofUInt16 (m.index + 1)).toUInt16.toNat = m.index.toNat + 1 := by
    rw [Address.toUInt16_ofUInt16, succ]
  refine ⟨fun taken => ⟨?_, ?_⟩, fun passed => ⟨?_, (jumped.passed passed).2⟩, ?_, jumped.registers,
    jumped.memory, alike_cycle ⟨m, host⟩, store⟩
  · have labels : m.labels = (Code.ofStatements (Statement.ofSource source.toList)).labels :=
      program.labels
    rw [Machine.index, (jumped.taken taken).1, labels]
    exact Code.target_of_jump (by omega) few _ s.operand
  · rw [(jumped.taken taken).2, past]
  · rw [Machine.index, (jumped.passed passed).1, past]
  · rw [jumped.stack]
    split
    · rfl
    · have byte := (m.get .si).toNat_lt
      simp only [UInt8.toNat_sub, UInt8.reduceToNat]
      omega

/-- The declaration before the jump counts, in whatever case it is written, and not the one after. -/
theorem cycle_at_jump_between_declarations :
    let start : Rig Shelf := ⟨.fresh, ⟨.empty, #[]⟩⟩
    let loaded := start.load (.ofSource "call" ":b\n:a\n# note\nnop\njump A\n:A")
    let after := (cycle ⟨(loaded.machine.set .wv 1).goto ⟨0, 3⟩, loaded.host⟩).machine
    after.index.toNat = 1 ∧ after.returnPointer.toUInt16.toNat = 4 := by
  intro start loaded after
  have later : loaded.machine.Later ((loaded.machine.set .wv 1).goto ⟨0, 3⟩) := .goto _ (.set _ _ .start)
  have here : ((loaded.machine.set .wv 1).goto ⟨0, 3⟩).index.toNat = 3 := by
    rw [Machine.index, Machine.counter_goto]
    decide
  have awake : ((loaded.machine.set .wv 1).goto ⟨0, 3⟩).get .sc = 0 := by
    simp only [Machine.goto, Machine.set, Machine.get_put]
    exact Registers.get_zero .sc
  have word : Opcode.ofName? "jump".toList = some .jump := by decide
  have led := cycle_at_jump_of_source start (by decide) (by decide) (j := 3)
    (s := ⟨"jump".toList, some ['A']⟩) (by decide) word rfl later here awake loaded.host
  exact led.1 trivial

end Rig

end PocketConsole
