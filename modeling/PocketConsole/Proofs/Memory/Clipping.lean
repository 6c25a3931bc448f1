import PocketConsole.Bank

namespace PocketConsole

namespace Bank

variable {size : Nat}

/-- The first bytes of a list, where there are as many. -/
def front? (data : List UInt8) (n : Nat) : Option (List UInt8) :=
  if n ≤ data.length then some (data.take n) else none

/-- The bank with bytes put over those from an address on, where there are as many. -/
def overlay? (b : Bank size) (addr : Nat) (data : List UInt8) : Option (Bank size) :=
  if addr + data.length ≤ size then some (b.write addr data) else none

/-- A write by whole spans: as many bytes as there is room for are put over those from the address on. There is
nothing where a span reaches past the end of what it is taken from. -/
def writeSpan? (b : Bank size) (addr : Nat) (data : List UInt8) : Option (Bank size) :=
  if size ≤ addr then some b
  else (front? data (min data.length (size - addr))).bind (b.overlay? addr)

/-- The bank with every byte the same. -/
def fill (b : Bank size) (v : UInt8) : Bank size :=
  ⟨b.bytes.map fun _ => v⟩

theorem fill_zero (b : Bank size) : b.fill 0 = zero := by
  apply ext_get
  intro x
  rw [get_zero]
  simp only [get, fill, Vector.getElem_map, dite_eq_ite, ite_self]

theorem write_append (b : Bank size) (addr : Nat) (first second : List UInt8) :
    b.write addr (first ++ second) = (b.write addr first).write (addr + first.length) second := by
  induction first generalizing b addr with
  | nil => rfl
  | cons v more ih =>
    have place : addr + (v :: more).length = addr + 1 + more.length := by
      rw [List.length_cons]
      omega
    rw [List.cons_append, write, ih, write, place]

/-- Bytes past the end are dropped. -/
theorem write_take (b : Bank size) (addr : Nat) (data : List UInt8) :
    b.write addr (data.take (size - addr)) = b.write addr data := by
  apply ext_get
  intro x
  rw [get_write, get_write]
  by_cases reached : addr ≤ x ∧ x < addr + data.length ∧ x < size
  · rw [dif_pos reached, dif_pos (by rw [List.length_take]; omega), List.getElem_take]
  · rw [dif_neg reached, dif_neg (by rw [List.length_take]; omega)]

theorem write_of_le (b : Bank size) {addr : Nat} (beyond : size ≤ addr) (data : List UInt8) :
    b.write addr data = b := by
  rw [← write_take, Nat.sub_eq_zero_of_le beyond, List.take_zero, write]

/-- A write by spans never reaches past an end, and writes what fits. -/
theorem writeSpan?_eq (b : Bank size) (addr : Nat) (data : List UInt8) :
    b.writeSpan? addr data = some (b.write addr data) := by
  unfold writeSpan?
  split
  · rename_i beyond
    rw [b.write_of_le beyond]
  · have cut : data.take (min data.length (size - addr)) = data.take (size - addr) := by
      rw [Nat.min_comm, ← List.take_eq_take_min]
    have inside : addr + (data.take (size - addr)).length ≤ size := by
      rw [List.length_take]
      omega
    rw [front?, if_pos (Nat.min_le_left _ _), Option.bind_some, cut, overlay?, if_pos inside, write_take]

/-! ### Copies between banks -/

/-- The bank with a block of another one put in from an address on, as far as both go. -/
def copy {other : Nat} (b : Bank size) (addr : Nat) (source : Bank other) (start len : Nat) : Bank size :=
  b.write addr (source.read start len)

theorem get_copy {other : Nat} (b : Bank size) (addr : Nat) (source : Bank other) (start len x : Nat) :
    (b.copy addr source start len).get x =
      if addr ≤ x ∧ x < addr + len ∧ x < size ∧ start + (x - addr) < other then source.get (start + (x - addr))
      else b.get x := by
  have length := source.length_read start len
  rw [copy, get_write]
  by_cases reached : addr ≤ x ∧ x < addr + len ∧ x < size ∧ start + (x - addr) < other
  · rw [dif_pos (by omega), if_pos reached]
    simp [read]
  · rw [dif_neg (by omega), if_neg reached]

/-- A block is copied in two parts as it is copied at once, whichever end comes first. -/
theorem copy_add {other : Nat} (b : Bank size) (addr : Nat) (source : Bank other) (start first second : Nat) :
    (b.copy addr source start first).copy (addr + first) source (start + first) second =
      b.copy addr source start (first + second) := by
  apply ext_get
  intro x
  simp only [get_copy]
  by_cases early : x < addr + first
  · have before : x < addr + (first + second) := by omega
    rw [if_neg fun reached => Nat.not_le_of_lt early reached.1]
    simp only [early, before]
  · have place : start + first + (x - (addr + first)) = start + (x - addr) := by omega
    have behind : addr + first ≤ x ∧ addr ≤ x := by omega
    rw [if_neg (c := addr ≤ x ∧ x < addr + first ∧ _) fun reached => early reached.2.1]
    simp only [place, behind, Nat.add_assoc]

end Bank

end PocketConsole
