import PocketConsole.Machine.Basic

namespace PocketConsole

/-- Tokens stand in storage one after another, the first at a given place. -/
def Bank.Holds (s : Storage) (place : Nat) (ts : List Token) : Prop :=
  ∀ i t, ts[i]? = some t →
    s.get (2 * (place + i)) = t.opcode ∧ s.get (2 * (place + i) + 1) = t.parameter

/-- Past storage all cells are empty. -/
theorem Bank.lt_of_full {s : Storage} {i : Nat} (full : s.get (2 * i) ≠ 0) : i < 32768 :=
  Nat.lt_of_not_le fun beyond => full (s.get_of_le (by omega))

theorem Bank.full_of_decoded {s : Storage} {i : Nat} {op : Opcode}
    (decoded : Opcode.ofByte? (s.get (2 * i)) = some op) : s.get (2 * i) ≠ 0 := by
  intro empty
  rw [empty] at decoded
  cases decoded

theorem Bank.lt_of_decoded {s : Storage} {i : Nat} {op : Opcode}
    (decoded : Opcode.ofByte? (s.get (2 * i)) = some op) : i < 32768 :=
  lt_of_full (full_of_decoded decoded)

namespace Bank.Holds

variable {s : Storage} {place : Nat} {first second : List Token}

theorem left (held : s.Holds place (first ++ second)) : s.Holds place first := by
  intro i t found
  have bound : i < first.length := (List.getElem?_eq_some_iff.1 found).1
  exact held i t (by rw [List.getElem?_append_left bound, found])

theorem right (held : s.Holds place (first ++ second)) : s.Holds (place + first.length) second := by
  intro i t found
  have shifted : (first ++ second)[first.length + i]? = some t := by
    rw [List.getElem?_append_right (Nat.le_add_right _ _), Nat.add_sub_cancel_left, found]
  simpa only [Nat.add_assoc] using held _ t shifted

theorem head {t : Token} (held : s.Holds place (t :: second)) :
    s.get (2 * place) = t.opcode ∧ s.get (2 * place + 1) = t.parameter :=
  held 0 t rfl

theorem tail {t : Token} (held : s.Holds place (t :: second)) : s.Holds (place + 1) second :=
  right (show s.Holds place ([t] ++ second) from held)

theorem lt (held : s.Holds place first) {i : Nat} {op : Opcode} {p : UInt8}
    (token : first[i]? = some (.ofOpcode op p)) : place + i < 32768 := by
  have opcode : s.get (2 * (place + i)) = op.toByte := (held i _ token).1
  exact lt_of_decoded (opcode ▸ Opcode.ofByte?_toByte op)

end Bank.Holds

namespace Program

theorem getElem?_flatMap_bytes (ts : List Token) (x : Nat) :
    (ts.flatMap Token.bytes)[x]? =
      ts[x / 2]?.map fun t => if x % 2 = 0 then t.opcode else t.parameter := by
  induction ts generalizing x with
  | nil => rfl
  | cons t more ih =>
    obtain rfl | rfl | ⟨y, rfl⟩ : x = 0 ∨ x = 1 ∨ ∃ y, x = y + 2 := by
      rcases x with _ | _ | y
      · exact .inl rfl
      · exact .inr (.inl rfl)
      · exact .inr (.inr ⟨y, rfl⟩)
    · rfl
    · rfl
    · have half : (y + 2) / 2 = y / 2 + 1 := by omega
      have parity : (y + 2) % 2 = y % 2 := by omega
      rw [half, parity, List.getElem?_cons_succ, ← ih y]
      rfl

end Program

namespace Machine

/-- The storage of a program just loaded: its tokens, then what its data has beyond them. -/
theorem get_storage_ofProgram (p : Program) {x : Nat} (inside : x < 65536) :
    (ofProgram p).storage.get x = (p.image[x]?).getD ((p.storage[x]?).getD 0) := by
  simp only [ofProgram, Bank.get_write, Bank.get_zero, Nat.zero_le, true_and, Nat.zero_add, Nat.sub_zero]
  by_cases code : x < p.image.length
  · rw [dif_pos ⟨code, inside⟩, List.getElem?_eq_getElem code]
    rfl
  · rw [dif_neg fun h => code h.1, List.getElem?_eq_none (Nat.le_of_not_lt code)]
    by_cases data : x < p.storage.length
    · rw [dif_pos ⟨data, inside⟩, List.getElem?_eq_getElem data]
      rfl
    · rw [dif_neg fun h => data h.1, List.getElem?_eq_none (Nat.le_of_not_lt data)]
      rfl

/-- As many tokens of a program as fit into storage stand there, from the first on. -/
theorem holds_ofProgram_take (p : Program) : (ofProgram p).storage.Holds 0 (p.code.tokens.take 32768) := by
  intro i t found
  rw [List.getElem?_take] at found
  obtain ⟨bound, here⟩ := Option.ite_none_right_eq_some.1 found
  have even : (2 * (0 + i)) / 2 = i ∧ (2 * (0 + i)) % 2 = 0 := by omega
  have odd : (2 * (0 + i) + 1) / 2 = i ∧ (2 * (0 + i) + 1) % 2 = 1 := by omega
  constructor
  · rw [get_storage_ofProgram p (by omega), Program.image, Program.getElem?_flatMap_bytes, even.1,
      even.2, here]
    rfl
  · rw [get_storage_ofProgram p (by omega), Program.image, Program.getElem?_flatMap_bytes, odd.1,
      odd.2, here]
    rfl

/-- A program that fits into storage stands there from the first token on. -/
theorem holds_ofProgram {p : Program} (fits : p.code.tokens.length ≤ 32768) :
    (ofProgram p).storage.Holds 0 p.code.tokens := by
  have held := holds_ofProgram_take p
  rwa [List.take_of_length_le fits] at held

theorem get_ofProgram (p : Program) (r : Register) : (ofProgram p).get r = 0 :=
  Registers.get_zero r

theorem index_ofProgram (p : Program) : (ofProgram p).index = 0 := by
  rw [index, counter, get_ofProgram, get_ofProgram]
  rfl

end Machine

end PocketConsole
