import PocketConsole.Proofs.Machine.Expression
import PocketConsole.Proofs.Machine.Targets
import PocketConsole.Proofs.Memory.Clipping

namespace PocketConsole

namespace Machine

/-- The next cycle reads a block of some length, from an address of some storage to one of some memory. -/
structure ReadsBlock (m : Machine) (n : UInt8) (memory : Memory) (target : Nat) (storage : Storage) (source : Nat) :
    Prop where
  next : m.next? = some (.read, n)
  memory : m.memory = memory
  target : m.memoryPointer = target
  storage : m.storage = storage
  source : m.storagePointer = source

/-- What a block that has been read leaves: as many bytes of it as both storage and memory have room for. -/
structure BlockRead (m : Machine) (n : UInt8) (after : Machine) : Prop where
  copied : ∀ i < n.toNat, m.memoryPointer + i < 3200 → m.storagePointer + i < 65536 →
    after.memory.get (m.memoryPointer + i) = m.storage.get (m.storagePointer + i)
  spared : ∀ x, (∀ i < n.toNat, m.memoryPointer + i < 3200 → m.storagePointer + i < 65536 → x ≠ m.memoryPointer + i) →
    after.memory.get x = m.memory.get x
  registers : ∀ r, r ∉ [Register.pch, .pcl] → after.get r = m.get r

/-- What a byte that has been set through the memory pointer leaves. -/
structure ByteSet (m : Machine) (v : UInt8) (after : Machine) : Prop where
  memory : ∀ x, after.memory.get x = if x = m.memoryPointer ∧ x < 3200 then v else m.memory.get x
  registers : ∀ r, r ∉ [Register.pch, .pcl] → after.get r = m.get r

/-- What a byte that has been taken to `xa` leaves. -/
structure ByteTaken (m : Machine) (v : UInt8) (after : Machine) : Prop where
  taken : after.get .xa = fit m.wraps v.toNat
  memory : after.memory = m.memory
  registers : ∀ r, r ∉ [Register.xa, .pch, .pcl] → after.get r = m.get r

/-- A read of a block copies storage to memory, each from its pointer on. -/
theorem read_of_ne {m : Machine} {n : UInt8} (block : n ≠ 0) :
    m.read n = { m with memory := m.memory.copy m.memoryPointer m.storage m.storagePointer n.toNat } := by
  rw [read, if_neg block]
  rfl

theorem BlockRead.ofCopy {m after : Machine} {n : UInt8}
    (memory : after.memory = m.memory.copy m.memoryPointer m.storage m.storagePointer n.toNat)
    (registers : ∀ r, r ∉ [Register.pch, .pcl] → after.get r = m.get r) : m.BlockRead n after where
  copied i within inMemory inStorage := by
    have offset : m.memoryPointer + i - m.memoryPointer = i := Nat.add_sub_cancel_left _ _
    rw [memory, Bank.get_copy, offset, if_pos ⟨Nat.le_add_right _ _, Nat.add_lt_add_left within _, inMemory, inStorage⟩]
  spared x away := by
    rw [memory, Bank.get_copy, if_neg]
    rintro ⟨lower, upper, inMemory, inStorage⟩
    exact away (x - m.memoryPointer) (by omega) (by omega) inStorage (by omega)
  registers := registers

theorem ByteTaken.ofPut (m : Machine) (v : UInt8) : m.ByteTaken v (m.past.put .xa (fit m.wraps v.toNat)) where
  taken := by rw [get_put, if_pos rfl]
  memory := rfl
  registers r other := by
    simp only [List.mem_cons, List.not_mem_nil, or_false, not_or] at other
    rw [get_put_of_ne _ other.1, get_past m other.2.1 other.2.2]

end Machine

namespace Rig

variable {σ : Type} [Store σ]

theorem cycle_of_block {m : Machine} {n : UInt8} (block : n ≠ 0) (next : m.next? = some (.read, n)) (host : Host σ) :
    cycle ⟨m, host⟩ =
      ⟨{ m.past with memory := m.memory.copy m.memoryPointer m.storage m.storagePointer n.toNat }, host⟩ := by
  rw [cycle_of_quiet (Opcode.quiet_of_silent (by decide) rfl) next, Machine.perform, Machine.read_of_ne block,
    Machine.memoryPointer_past, Machine.storagePointer_past]
  rfl

theorem blockRead_cycle {m : Machine} {n : UInt8} (block : n ≠ 0) (next : m.next? = some (.read, n)) (host : Host σ) :
    m.BlockRead n (cycle ⟨m, host⟩).machine := by
  rw [cycle_of_block block next]
  exact .ofCopy rfl fun r other => m.get_goto _ other

theorem memory_of_readsBlock {m : Machine} {n : UInt8} (block : n ≠ 0) {memory : Memory} {storage : Storage}
    {target source : Nat} (reads : m.ReadsBlock n memory target storage source) (host : Host σ) :
    (cycle ⟨m, host⟩).machine.memory = memory.copy target storage source n.toNat := by
  rw [cycle_of_block block reads.next, reads.memory, reads.target, reads.storage, reads.source]

/-- Two blocks read one after another, the second on from where the first one ended, come to one block. -/
theorem memory_of_two_blocks {whole first second : Machine} {n k : UInt8} (positive : k ≠ 0) (part : k < n)
    {memory : Memory} {storage : Storage} {target source : Nat} {host near far : Host σ}
    (atOnce : whole.ReadsBlock n memory target storage source)
    (former : first.ReadsBlock k memory target storage source)
    (latter : second.ReadsBlock (n - k) (cycle ⟨first, near⟩).machine.memory (target + k.toNat) storage
      (source + k.toNat)) :
    (cycle ⟨second, far⟩).machine.memory = (cycle ⟨whole, host⟩).machine.memory := by
  have less := UInt8.lt_iff_toNat_lt.1 part
  have rest : (n - k).toNat = n.toNat - k.toNat := UInt8.toNat_sub_of_le _ _ (UInt8.le_of_lt part)
  have sum : k.toNat + (n - k).toNat = n.toNat := by omega
  have blockWhole : n ≠ 0 := by
    rintro rfl
    exact Nat.not_lt_zero _ less
  have blockRest : n - k ≠ 0 := by
    intro none
    rw [none, UInt8.toNat_zero] at rest
    omega
  rw [memory_of_readsBlock blockRest latter, memory_of_readsBlock positive former, Bank.copy_add, sum,
    memory_of_readsBlock blockWhole atOnce]

theorem byteTaken_cycle_of_read {m : Machine} (next : m.next? = some (.read, 0)) (host : Host σ) :
    m.ByteTaken (m.storage.get m.storagePointer) (cycle ⟨m, host⟩).machine := by
  have performed : m.past.perform .read 0 = m.past.put .xa (fit m.wraps (m.storage.get m.storagePointer).toNat) := by
    rw [Machine.perform, Machine.read, if_pos rfl, Machine.set, Machine.wraps_past, Machine.storagePointer_past]
    rfl
  rw [cycle_of_quiet (Opcode.quiet_of_silent (by decide) rfl) next, performed]
  exact .ofPut m _

theorem byteTaken_cycle_of_peek {m : Machine} {p : UInt8} (next : m.next? = some (.peek, p)) (host : Host σ) :
    m.ByteTaken (m.memory.get m.memoryPointer) (cycle ⟨m, host⟩).machine := by
  have performed : m.past.perform .peek p = m.past.put .xa (fit m.wraps (m.memory.get m.memoryPointer).toNat) := by
    rw [Machine.perform, Machine.set, Machine.wraps_past, Machine.memoryPointer_past]
    rfl
  rw [cycle_of_quiet (Opcode.quiet_of_silent (by decide) rfl) next, performed]
  exact .ofPut m _

theorem byteSet_cycle_of_poke {m : Machine} {p : UInt8} (next : m.next? = some (.poke, p)) (host : Host σ) :
    m.ByteSet (m.get .xa) (cycle ⟨m, host⟩).machine := by
  rw [cycle_of_quiet (Opcode.quiet_of_silent (by decide) rfl) next, Machine.perform, Machine.memoryPointer_past,
    Machine.get_past m (by decide) (by decide)]
  exact ⟨fun x => Bank.get_set _ _ x _, fun r other => m.get_goto _ other⟩

/-- Transfers through the pointers. A read of a block copies as much of it as storage and memory have room for, and
nothing else changes but the program counter; it can be done in two parts, with both pointers moved up in between. A
poke sets one byte, if it lies within memory. A peek and a read of one byte take a byte to `xa` as any result, zero past
the end, and leave memory alone. -/
theorem transfers_through_pointers (m : Machine) (host : Host σ) :
    (∀ n, n ≠ 0 → m.next? = some (.read, n) →
      m.BlockRead n (cycle ⟨m, host⟩).machine ∧
        ∀ k, k ≠ 0 → k < n → ∀ (first second : Machine) (near far : Host σ),
          first.ReadsBlock k m.memory m.memoryPointer m.storage m.storagePointer →
          second.ReadsBlock (n - k) (cycle ⟨first, near⟩).machine.memory (m.memoryPointer + k.toNat) m.storage
            (m.storagePointer + k.toNat) →
          (cycle ⟨second, far⟩).machine.memory = (cycle ⟨m, host⟩).machine.memory) ∧
      (∀ p, m.next? = some (.poke, p) → m.ByteSet (m.get .xa) (cycle ⟨m, host⟩).machine) ∧
      (∀ p, m.next? = some (.peek, p) →
        m.ByteTaken (if m.memoryPointer < 3200 then m.memory.get m.memoryPointer else 0) (cycle ⟨m, host⟩).machine) ∧
      (m.next? = some (.read, 0) → m.ByteTaken (m.storage.get m.storagePointer) (cycle ⟨m, host⟩).machine) := by
  refine ⟨fun n block next => ⟨blockRead_cycle block next host, fun k positive part first second near far => ?_⟩,
    fun p next => byteSet_cycle_of_poke next host, fun p next => ?_, fun next => byteTaken_cycle_of_read next host⟩
  · exact memory_of_two_blocks positive part ⟨next, rfl, rfl, rfl, rfl⟩
  · have taken := byteTaken_cycle_of_peek next host
    split
    · exact taken
    · rename_i beyond
      rwa [Bank.get_of_le _ (Nat.le_of_not_lt beyond)] at taken

/-- Three bytes of which memory has room for two, at once and in two parts. -/
theorem transfers_through_pointers_past_memory :
    let p : Program :=
      { name := "blocks"
        storage := [0, 0, 0, 0, 0, 0, 7, 8, 9]
        code := ⟨[.ofOpcode .read 3, .ofOpcode .read 1, .ofOpcode .read 2], .empty⟩ }
    let host : Host Shelf := ⟨.empty, #[]⟩
    let m := (((Machine.ofProgram p).put .mph 12).put .mpl 126).put .spl 6
    let first := m.goto ⟨0, 1⟩
    let second :=
      { ((m.goto ⟨0, 2⟩).put .mpl 127).put .spl 7 with memory := (cycle ⟨first, host⟩).machine.memory }
    m.next? = some (.read, 3) ∧ (cycle ⟨m, host⟩).machine.memory.get 3199 = 8 ∧
      first.next? = some (.read, 1) ∧ second.next? = some (.read, 2) ∧
      (cycle ⟨second, host⟩).machine.memory = (cycle ⟨m, host⟩).machine.memory := by
  intro p host m first second
  have held := Machine.holds_ofProgram (p := p) (by decide)
  have next : m.next? = some (.read, 3) := Machine.next?_of_holds (by decide) (by decide) held
  have nextFirst : first.next? = some (.read, 1) := Machine.next?_of_holds (by decide) (by decide) held.tail
  have nextSecond : second.next? = some (.read, 2) := Machine.next?_of_holds (by decide) (by decide) held.tail.tail
  have target : m.memoryPointer = 3198 := by decide
  have source : m.storagePointer = 6 := by decide
  have rest : (3 : UInt8) - 1 = 2 := by decide
  obtain ⟨block, parts⟩ := (transfers_through_pointers m host).1 3 (by decide) next
  have copied := block.copied 1 (by decide)
  have joined := parts 1 (by decide) (by decide) first second host host
  rw [target, source] at copied joined
  rw [rest] at joined
  have last : m.storage.get 7 = 8 := Machine.get_storage_ofProgram p (by decide)
  refine ⟨next, (copied (by decide) (by decide)).trans last, nextFirst, nextSecond, joined ?_ ?_⟩
  · exact ⟨nextFirst, rfl, target, rfl, source⟩
  · exact ⟨nextSecond, by simp only [second], by decide, rfl, by decide⟩

end Rig

end PocketConsole
