import PocketConsole.Proofs.Machine.Contents
import PocketConsole.Proofs.Memory.Clipping

namespace PocketConsole

namespace Program

/-- What a load makes of storage, a write at a time: every byte is cleared, the data is written from the first address
on, and each token over it in its place. There is nothing where a write reaches past an end. -/
def putInto? (p : Program) (s : Storage) : Option Storage :=
  ((s.fill 0).writeSpan? 0 p.storage).bind fun s =>
    p.code.tokens.zipIdx.foldlM (fun s entry => s.writeSpan? (2 * entry.2) entry.1.bytes) s

/-- Tokens written one by one are their bytes written at once. -/
theorem foldlM_writeSpan? (ts : List Token) (place : Nat) (s : Storage) :
    (ts.zipIdx place).foldlM (fun s entry => s.writeSpan? (2 * entry.2) entry.1.bytes) s =
      some (s.write (2 * place) (ts.flatMap Token.bytes)) := by
  induction ts generalizing place s with
  | nil => rfl
  | cons t more ih =>
    have next : 2 * (place + 1) = 2 * place + t.bytes.length := rfl
    rw [List.zipIdx_cons, List.foldlM_cons, Bank.writeSpan?_eq, Option.bind_eq_bind, Option.bind_some, ih,
      List.flatMap_cons, Bank.write_append, next]

/-- A load never fails, whatever the lengths are and whatever storage holds. -/
theorem putInto?_eq (p : Program) (s : Storage) : p.putInto? s = some (Machine.ofProgram p).storage := by
  rw [putInto?, Bank.fill_zero, Bank.writeSpan?_eq, Option.bind_some, foldlM_writeSpan?]
  rfl

end Program

namespace Machine

/-- What storage holds at an address: the token there, or else the data there, or else zero. -/
theorem get_storage_ofProgram_eq (p : Program) {x : Nat} (inside : x < 65536) :
    (ofProgram p).storage.get x =
      match p.code.tokens[x / 2]? with
      | some t => if x % 2 = 0 then t.opcode else t.parameter
      | none => (p.storage[x]?).getD 0 := by
  rw [get_storage_ofProgram p inside, Program.image, Program.getElem?_flatMap_bytes]
  cases p.code.tokens[x / 2]? with
  | some t => rfl
  | none => rfl

/-- Data and tokens that storage has no room for leave no trace in it. -/
theorem storage_ofProgram_congr {p q : Program} (tokens : q.code.tokens.take 32768 = p.code.tokens.take 32768)
    (data : q.storage.take 65536 = p.storage.take 65536) : (ofProgram q).storage = (ofProgram p).storage := by
  apply Bank.ext_get
  intro x
  by_cases inside : x < 65536
  · have half : x / 2 < 32768 := by omega
    have sameToken := congrArg (fun ts : List Token => ts[x / 2]?) tokens
    have sameByte := congrArg (fun bytes : List UInt8 => bytes[x]?) data
    simp only [List.getElem?_take_of_lt half, List.getElem?_take_of_lt inside] at sameToken sameByte
    rw [get_storage_ofProgram_eq q inside, get_storage_ofProgram_eq p inside, sameToken, sameByte]
  · rw [Bank.get_of_le _ (Nat.le_of_not_lt inside), Bank.get_of_le _ (Nat.le_of_not_lt inside)]

end Machine

namespace Rig

variable {σ : Type}

/-- After a load storage holds the tokens, then what the data has beyond them, then zeros, whatever it held before.
The writes that lead there all succeed, and what storage has no room for is dropped. -/
theorem storage_of_load (r : Rig σ) (p : Program) :
    (∀ x < 65536, (r.load p).machine.storage.get x =
        match p.code.tokens[x / 2]? with
        | some t => if x % 2 = 0 then t.opcode else t.parameter
        | none => (p.storage[x]?).getD 0) ∧
      p.putInto? r.machine.storage = some (r.load p).machine.storage ∧
      ∀ q : Program, q.code.tokens.take 32768 = p.code.tokens.take 32768 →
        q.storage.take 65536 = p.storage.take 65536 →
        (r.load q).machine.storage = (r.load p).machine.storage :=
  ⟨fun _ => Machine.get_storage_ofProgram_eq p, p.putInto?_eq r.machine.storage,
    fun _ => Machine.storage_ofProgram_congr⟩

/-- One token over data that fills storage to its last byte, loaded over another program: the data begins behind the
token, and a byte more of it is dropped. -/
theorem storage_of_load_over_data :
    let before : Rig Shelf := ⟨.ofProgram (.single .nop), ⟨.empty, #[]⟩⟩
    let p : Program :=
      { name := "data", storage := .replicate 65536 7, code := ⟨[.ofOpcode .push 5], .empty⟩ }
    let q : Program := { p with storage := .replicate 65537 7 }
    (before.load p).machine.storage.get 0 = Opcode.push.toByte ∧ (before.load p).machine.storage.get 1 = 5 ∧
      (before.load p).machine.storage.get 2 = 7 ∧ (before.load p).machine.storage.get 65535 = 7 ∧
      p.putInto? before.machine.storage = some (before.load p).machine.storage ∧
      (before.load q).machine.storage = (before.load p).machine.storage := by
  intro before p q
  obtain ⟨bytes, put, dropped⟩ := storage_of_load before p
  have data {x : Nat} (inside : x < 65536) : p.storage[x]? = some 7 := by
    rw [List.getElem?_replicate, if_pos inside]
  have beyond {x : Nat} (inside : x < 65536) (behind : 1 ≤ x / 2) : (before.load p).machine.storage.get x = 7 := by
    rw [bytes x inside, List.getElem?_eq_none behind, data inside]
    rfl
  refine ⟨bytes 0 (by decide), bytes 1 (by decide), beyond (by decide) (by decide), beyond (by decide) (by decide),
    put, dropped q rfl ?_⟩
  rw [List.take_replicate, List.take_replicate]
  rfl

end Rig

end PocketConsole
