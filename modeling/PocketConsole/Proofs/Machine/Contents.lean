import PocketConsole.Proofs.Machine.Cycle
import PocketConsole.Proofs.Machine.Image

namespace PocketConsole

/-- A program of one operation. -/
def Program.single (op : Opcode) : Program where
  name := "single"
  code := ⟨[.ofOpcode op 0], .empty⟩

namespace Machine

/-- The machine has an operation somewhere in its code. -/
def Contains (m : Machine) (op : Opcode) : Prop :=
  ∃ i, Opcode.ofByte? (m.storage.get (2 * i)) = some op

theorem contains_of_next {m : Machine} {op : Opcode} {p : UInt8} (next : m.next? = some (op, p)) :
    m.Contains op :=
  ⟨_, (next?_eq_some_iff.1 next).2.1⟩

theorem next?_congr {m n : Machine} (storage : n.storage = m.storage)
    (registers : n.registers = m.registers) : n.next? = m.next? := by
  obtain ⟨⟩ := m
  obtain ⟨⟩ := n
  cases storage
  cases registers
  rfl

/-- A machine that is awake carries out the first of the tokens that stand where it is. -/
theorem next?_of_holds {m : Machine} (awake : m.get .sc = 0) {place : Nat} (here : m.index.toNat = place)
    {op : Opcode} {p : UInt8} {ts : List Token} (held : m.storage.Holds place (.ofOpcode op p :: ts)) :
    m.next? = some (op, p) := by
  subst here
  exact next?_of_token awake held.head.1 held.head.2

theorem next?_ofProgram {p : Program} {op : Opcode} {v : UInt8} {ts : List Token}
    (code : p.code.tokens = .ofOpcode op v :: ts) (fits : p.code.tokens.length ≤ 32768) :
    (ofProgram p).next? = some (op, v) := by
  have first : (ofProgram p).index.toNat = 0 := by
    rw [index_ofProgram]
    rfl
  have held := holds_ofProgram fits
  rw [code] at held
  exact next?_of_holds (get_ofProgram p .sc) first held

/-- A program without data contains no operation but those of its tokens. -/
theorem mem_of_contains {p : Program} (noData : p.storage = []) {op : Opcode}
    (contains : (ofProgram p).Contains op) : ∃ t ∈ p.code.tokens, t.op? = some op := by
  obtain ⟨i, decoded⟩ := contains
  have inside := Bank.lt_of_decoded decoded
  have half : 2 * i / 2 = i := by omega
  have even : 2 * i % 2 = 0 := by omega
  rw [get_storage_ofProgram p (by omega), Program.image, Program.getElem?_flatMap_bytes, half, noData] at decoded
  cases found : p.code.tokens[i]? with
  | none =>
    rw [found] at decoded
    cases decoded
  | some t =>
    rw [found, Option.map_some, if_pos even] at decoded
    exact ⟨t, List.mem_of_getElem? found, decoded⟩

theorem not_contains_ofProgram {p : Program} (noData : p.storage = []) {op : Opcode}
    (absent : ∀ t ∈ p.code.tokens, t.op? ≠ some op) : ¬ (ofProgram p).Contains op := by
  intro contains
  obtain ⟨t, member, decoded⟩ := mem_of_contains noData contains
  exact absent t member decoded

/-- A machine with the code of a program without data, pokes and reads does not write at its memory pointer. -/
theorem not_writesAtPointer_of_plain {p : Program} (noData : p.storage = [])
    (plain : ∀ t ∈ p.code.tokens, t.op? ≠ some .poke ∧ t.op? ≠ some .read) {m : Machine}
    (loaded : m.storage = (ofProgram p).storage) : ¬ m.WritesAtPointer := by
  have absent {op : Opcode} (none : ∀ t ∈ p.code.tokens, t.op? ≠ some op) : ¬ m.Contains op := by
    rw [Contains, loaded]
    exact not_contains_ofProgram noData none
  rintro ⟨v, poke | ⟨read, -⟩⟩
  · exact absent (fun t member => (plain t member).1) (contains_of_next poke)
  · exact absent (fun t member => (plain t member).2) (contains_of_next read)

end Machine

end PocketConsole
