import PocketConsole.Proofs.Machine.Ring

namespace PocketConsole

namespace Machine

theorem stackAt_eq_getIn (m : Machine) (offset : Int) :
    m.stackAt offset = m.memory.getIn .stack (((m.get .si).toNat + offset) % 256).toNat := by
  have place : (UInt8.ofNat (((m.get .si).toNat + offset) % 256).toNat).toNat =
      (((m.get .si).toNat + offset) % 256).toNat := by
    rw [UInt8.toNat_ofNat']
    omega
  rw [stackAt, cell, place]

/-- Offsets that are whole rounds apart lead to one cell. -/
theorem stackAt_congr (m : Machine) {a b : Int} (apart : a % 256 = b % 256) : m.stackAt a = m.stackAt b := by
  have sums : ((m.get .si).toNat + a) % 256 = ((m.get .si).toNat + b) % 256 := by omega
  rw [stackAt, stackAt, sums]

/-- An offset upwards leads to a cell below the top as well, around the ring. -/
theorem stackAt_eq_below (m : Machine) (offset : Int) : m.stackAt offset = m.below (-offset % 256).toNat := by
  rw [← stackAt_neg]
  exact m.stackAt_congr (by omega)

theorem checkedStackAt_of_lt {m : Machine} {offset : Int} (fits : (m.get .si).toNat + offset < 2147483648) :
    m.checkedStackAt offset = .ok (m.stackAt offset) :=
  if_neg (by omega)

theorem checkedStackAt_eq_error_iff (m : Machine) (offset : Int) :
    m.checkedStackAt offset = .error .addOverflow ↔ 2147483648 ≤ (m.get .si).toNat + offset := by
  rw [checkedStackAt]
  split
  · rename_i large
    exact iff_of_true rfl large
  · rename_i fits
    refine iff_of_false (fun same => ?_) fits
    cases same

theorem stackAt_of_checkedStackAt {m : Machine} {offset : Int} {v : UInt8} (read : m.checkedStackAt offset = .ok v) :
    v = m.stackAt offset := by
  rw [checkedStackAt] at read
  split at read
  · cases read
  · exact (Except.ok.inj read).symm

/-- A read at an offset from the top goes around the ring, for every offset of 32 bits with which the stack index has
a sum of 32 bits. Only offsets among the 255 greatest have none, each for some stack indices, and a round less leads to
the cell that they would lead to. -/
theorem read_at_offset (m : Machine) :
    (∀ offset : Int32, (m.get .si).toNat + offset.toInt < 2147483648 →
      m.checkedStackAt offset.toInt =
        .ok (m.memory.getIn .stack (((m.get .si).toNat + offset.toInt) % 256).toNat)) ∧
    (∀ offset : Int32, 2147483648 ≤ (m.get .si).toNat + offset.toInt →
      2147483392 < offset.toInt ∧ m.checkedStackAt offset.toInt = .error .addOverflow ∧
        m.checkedStackAt (offset.toInt - 256) =
          .ok (m.memory.getIn .stack (((m.get .si).toNat + offset.toInt) % 256).toNat)) ∧
    (∀ offset : Int32, ∀ v, m.checkedStackAt offset.toInt = .ok v → v = m.below (-offset.toInt % 256).toNat) ∧
    ∀ a b : Int32, a.toInt % 256 = b.toInt % 256 → ∀ v w, m.checkedStackAt a.toInt = .ok v →
      m.checkedStackAt b.toInt = .ok w → v = w := by
  have bound := (m.get .si).toNat_lt
  refine ⟨fun offset fits => ?_, fun offset large => ⟨by omega, ?_, ?_⟩, fun offset v read => ?_,
    fun a b apart v w first second => ?_⟩
  · rw [checkedStackAt_of_lt fits, stackAt_eq_getIn]
  · exact (m.checkedStackAt_eq_error_iff _).2 large
  · have small := offset.toInt_lt
    rw [checkedStackAt_of_lt (by omega), ← stackAt_eq_getIn]
    exact congrArg Except.ok (m.stackAt_congr (by omega))
  · rw [stackAt_of_checkedStackAt read, stackAt_eq_below]
  · rw [stackAt_of_checkedStackAt first, stackAt_of_checkedStackAt second]
    exact m.stackAt_congr apart

/-- With the stack index at 1, the offsets -300 and -44 lead to cell 213, and of the greatest offsets the last has
no sum. -/
theorem read_at_offset_around :
    let m : Machine := { fresh.put .si 1 with memory := Bank.zero.writeIn .stack 213 [7] }
    let first : Int32 := -300
    let second : Int32 := -44
    let last : Int32 := 2147483647
    m.checkedStackAt first.toInt = .ok 7 ∧ m.checkedStackAt second.toInt = .ok 7 ∧ (7 : UInt8) = m.below 44 ∧
      m.checkedStackAt (last.toInt - 1) = .ok 0 ∧ m.checkedStackAt last.toInt = .error .addOverflow ∧
      m.checkedStackAt (last.toInt - 256) = .ok 0 := by
  intro m first second last
  obtain ⟨fitting, large, deep, -⟩ := read_at_offset m
  have index : (m.get .si).toNat = 1 := by decide
  have seven : m.memory.getIn .stack 213 = 7 := by decide
  have around : m.memory.getIn .stack (((1 : Nat) + last.toInt) % 256).toNat = 0 := by decide
  have below : m.memory.getIn .stack 255 = 0 := by decide
  simp only [index] at fitting large
  have read := fitting second (by decide)
  obtain ⟨-, fault, round⟩ := large last (by decide)
  exact ⟨(fitting first (by decide)).trans (congrArg _ seven), read.trans (congrArg _ seven),
    seven.symm.trans (deep second _ read), (fitting 2147483646 (by decide)).trans (congrArg _ below), fault,
    round.trans (congrArg _ around)⟩

/-- There is no byte where the sum of the stack index and the offset is no word of 32 bits. -/
theorem offset_without_sum : ¬ ∀ (m : Machine) (offset : Int32),
    m.checkedStackAt offset.toInt =
      .ok (m.memory.getIn .stack (((m.get .si).toNat + offset.toInt) % 256).toNat) := by
  intro wraps
  have read := wraps (fresh.put .si 1) 2147483647
  have fault : (fresh.put .si 1).checkedStackAt (2147483647 : Int32).toInt = .error .addOverflow :=
    (checkedStackAt_eq_error_iff _ _).2 (by decide)
  rw [fault] at read
  cases read

end Machine

end PocketConsole
