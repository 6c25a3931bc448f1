import Mathlib.Data.List.Intervals
import PocketConsole.Proofs.Memory.Windows

namespace PocketConsole

namespace Bank

variable {size : Nat}

/-- The byte that a write puts at an address, if it reaches so far. -/
def placed? (size addr : Nat) (data : List UInt8) (x : Nat) : Option UInt8 :=
  if h : addr ≤ x ∧ x < min size (addr + data.length) then some data[x - addr] else none

theorem get_write_eq_placed (b : Bank size) (addr : Nat) (data : List UInt8) (x : Nat) :
    (b.write addr data).get x = (placed? size addr data x).getD (b.get x) := by
  rw [get_write, placed?]
  by_cases reached : addr ≤ x ∧ x < addr + data.length ∧ x < size
  · rw [dif_pos reached, dif_pos (by omega), Option.getD_some]
  · rw [dif_neg reached, dif_neg (by omega), Option.getD_none]

/-- Where two writes reach, the later one counts. -/
theorem get_write_write (b : Bank size) (first second : Nat) (data more : List UInt8) (x : Nat) :
    ((b.write first data).write second more).get x =
      ((placed? size second more x).or (placed? size first data x)).getD (b.get x) := by
  rw [get_write_eq_placed, get_write_eq_placed]
  cases placed? size second more x <;> rfl

/-- A read lists the bytes between two addresses, neither of them past the end. -/
theorem read_eq_map_ico (b : Bank size) (addr len : Nat) :
    b.read addr len = (List.Ico (min addr size) (min (addr + len) size)).map b.get := by
  rw [read, List.Ico]
  by_cases inside : addr ≤ size
  · have count : min (addr + len) size - min addr size = min len (size - addr) := by omega
    rw [count, Nat.min_eq_left inside]
  · have none : min len (size - addr) = 0 ∧ min (addr + len) size - min addr size = 0 := by omega
    rw [none.1, none.2]
    rfl

/-- A write of what has just been read there changes nothing. -/
theorem write_read (b : Bank size) (addr len : Nat) : b.write addr (b.read addr len) = b := by
  apply ext_get
  intro x
  have block := b.get_copy addr b addr len x
  rw [copy] at block
  rw [block]
  split
  · rename_i reached
    rw [Nat.add_sub_of_le reached.1]
  · rfl

/-- Reads and writes by spans have a result from every address on, and however long they are. A write puts down its data
as far as the bank goes, and a later write counts where both reach. A read lists the bytes up to the end of the bank,
and written back where it was taken from it changes nothing. -/
theorem spans_clip (word : size < UInt64.size) (b : Bank size) (addr len : UInt64) (data : List UInt8) :
    (∃ after, b.writeSpan? addr.toNat data = some after ∧
      (∀ x, after.get x = (placed? size addr.toNat data x).getD (b.get x)) ∧
      ∀ (second : UInt64) (more : List UInt8), ∃ last, after.writeSpan? second.toNat more = some last ∧
        ∀ x, last.get x =
          ((placed? size second.toNat more x).or (placed? size addr.toNat data x)).getD (b.get x)) ∧
    (∀ x, size ≤ x → b.get x = 0) ∧
    ∃ found, b.readSpan? addr.toNat len.toNat = some found ∧
      found = (List.Ico (min addr.toNat size) (min (addr.toNat + len.toNat) size)).map b.get ∧
      b.writeSpan? addr.toNat found = some b := by
  refine ⟨⟨b.write addr.toNat data, b.writeSpan?_eq _ _, b.get_write_eq_placed _ _, fun second more => ?_⟩,
    fun x => b.get_of_le, b.read addr.toNat len.toNat, b.readSpan?_eq word _ _, b.read_eq_map_ico _ _, ?_⟩
  · exact ⟨_, writeSpan?_eq _ _ _, b.get_write_write _ _ data more⟩
  · rw [writeSpan?_eq, write_read]

/-- Three bytes from the last but one of memory on, of which two fit, and a longer list of bytes over the second one;
and a read of storage from its last byte on, as long as a word can ask for. -/
theorem spans_clip_at_ends :
    let m : Memory := Bank.zero.set 3197 4
    let s : Storage := Bank.zero.set 65535 9
    (3200 < UInt64.size ∧ ∃ after, m.writeSpan? 3198 [5, 6, 7] = some after ∧ after.get 3197 = 4 ∧
      after.get 3199 = 6 ∧ ∃ last, after.writeSpan? 3199 [8, 8, 8, 8] = some last ∧ last.get 3198 = 5 ∧
        last.get 3199 = 8) ∧
    65536 < UInt64.size ∧ ∃ found, s.readSpan? 65535 18446744073709551615 = some found ∧ found = [9] ∧
      s.writeSpan? 65535 found = some s := by
  intro m s
  have small : 3200 < UInt64.size ∧ 65536 < UInt64.size := by decide
  obtain ⟨⟨after, written, shown, again⟩, -⟩ := spans_clip small.1 m 3198 0 [5, 6, 7]
  obtain ⟨last, second, overlaid⟩ := again 3199 [8, 8, 8, 8]
  obtain ⟨-, -, found, read, listed, back⟩ := spans_clip small.2 s 65535 18446744073709551615 []
  have shown : ∀ x, after.get x = (placed? 3200 3198 [5, 6, 7] x).getD (m.get x) := shown
  have overlaid : ∀ x, last.get x =
      ((placed? 3200 3199 [8, 8, 8, 8] x).or (placed? 3200 3198 [5, 6, 7] x)).getD (m.get x) := overlaid
  have apart : placed? 3200 3198 [5, 6, 7] 3197 = none := by decide
  have first : placed? 3200 3198 [5, 6, 7] 3198 = some 5 ∧ placed? 3200 3199 [8, 8, 8, 8] 3198 = none := by decide
  have both : placed? 3200 3198 [5, 6, 7] 3199 = some 6 ∧ placed? 3200 3199 [8, 8, 8, 8] 3199 = some 8 := by decide
  have old : m.get 3197 = 4 := (get_set _ _ _ _).trans (if_pos (by decide))
  have ending : s.get 65535 = 9 := (get_set _ _ _ _).trans (if_pos (by decide))
  refine ⟨⟨small.1, after, written, ?_, ?_, last, second, ?_, ?_⟩, small.2, found, read, ?_, back⟩
  · rw [shown, apart, Option.getD_none, old]
  · rw [shown, both.1, Option.getD_some]
  · rw [overlaid, first.1, first.2, Option.none_or, Option.getD_some]
  · rw [overlaid, both.2, Option.some_or, Option.getD_some]
  · rw [listed]
    exact congrArg (· :: []) ending

end Bank

end PocketConsole
