import PocketConsole.Region

namespace PocketConsole

/-- An array of bytes. Reads past its end give 0, writes past its end are dropped. -/
structure Bank (size : Nat) where
  bytes : Vector UInt8 size
deriving DecidableEq

namespace Bank

variable {size : Nat}

/-- Every byte zero. -/
def zero : Bank size :=
  ⟨Vector.replicate size 0⟩

/-- The byte at an address. -/
def get (b : Bank size) (addr : Nat) : UInt8 :=
  if h : addr < size then b.bytes[addr] else 0

/-- The bank with one byte set. -/
def set (b : Bank size) (addr : Nat) (v : UInt8) : Bank size :=
  if h : addr < size then ⟨b.bytes.set addr v⟩ else b

/-- The bytes from an address on, up to a number of them or to the end. -/
def read (b : Bank size) (addr len : Nat) : List UInt8 :=
  (List.range' addr (min len (size - addr))).map b.get

/-- The bank with bytes set from an address on. -/
def write (b : Bank size) (addr : Nat) : List UInt8 → Bank size
  | [] => b
  | v :: more => (b.set addr v).write (addr + 1) more

/-- The bytes of a region. -/
def slice (b : Bank size) (r : Region) : List UInt8 :=
  b.read r.addr r.len

/-- The byte at an offset into a region; 0 outside of it. -/
def getIn (b : Bank size) (r : Region) (offset : Nat) : UInt8 :=
  if offset < r.len then b.get (r.addr + offset) else 0

/-- The bank with bytes set from an offset into a region on. Bytes outside the region are dropped,
and all of them if the region does not lie within the bank. -/
def writeIn (b : Bank size) (r : Region) (offset : Nat) (data : List UInt8) : Bank size :=
  if r.stop ≤ size then b.write (r.addr + offset) (data.take (r.len - offset)) else b

/-- As `getIn`, for 64-bit addresses. -/
def checkedGetIn (b : Bank size) (r : Region) (offset : Nat) : Except Fault UInt8 :=
  if offset < r.len ∧ UInt64.size ≤ r.addr + offset then .error .addOverflow else .ok (b.getIn r offset)

/-- As `writeIn`, for 64-bit addresses. -/
def checkedWriteIn (b : Bank size) (r : Region) (offset : Nat) (data : List UInt8) :
    Except Fault (Bank size) :=
  r.checkedStop.map fun _ => b.writeIn r offset data

theorem get_zero (addr : Nat) : (zero : Bank size).get addr = 0 := by
  simp only [get, zero, Vector.getElem_replicate, dite_eq_ite, ite_self]

theorem get_of_le (b : Bank size) {addr : Nat} (outside : size ≤ addr) : b.get addr = 0 := by
  simp [get, Nat.not_lt.2 outside]

theorem get_set (b : Bank size) (addr x : Nat) (v : UInt8) :
    (b.set addr v).get x = if x = addr ∧ x < size then v else b.get x := by
  by_cases inside : addr < size
  · by_cases same : x = addr
    · subst same
      simp [get, set, inside]
    · by_cases h : x < size <;> simp [get, set, inside, same, h, Ne.symm same]
  · have outside : ¬(x = addr ∧ x < size) := by omega
    simp [set, inside, outside]

/-- A later write wins exactly where it reaches. -/
theorem get_write (b : Bank size) (addr x : Nat) (data : List UInt8) :
    (b.write addr data).get x =
      if h : addr ≤ x ∧ x < addr + data.length ∧ x < size then data[x - addr] else b.get x := by
  induction data generalizing b addr with
  | nil =>
    rw [dif_neg (by simp only [List.length_nil]; omega)]
    rfl
  | cons v more ih =>
    rw [write, ih, get_set]
    by_cases here : x = addr
    · subst here
      rw [dif_neg (by omega)]
      by_cases inside : x < size
      · rw [if_pos ⟨rfl, inside⟩, dif_pos ⟨Nat.le_refl x, by simp, inside⟩]
        simp
      · rw [if_neg (by omega), dif_neg (by omega)]
    · rw [if_neg fun h => here h.1]
      by_cases later : addr + 1 ≤ x ∧ x < addr + 1 + more.length ∧ x < size
      · obtain ⟨k, rfl⟩ : ∃ k, x = addr + 1 + k := ⟨x - (addr + 1), by omega⟩
        rw [dif_pos later, dif_pos (by simp only [List.length_cons]; omega)]
        have left : addr + 1 + k - (addr + 1) = k := by omega
        have right : addr + 1 + k - addr = k + 1 := by omega
        simp only [left, right, List.getElem_cons_succ]
      · rw [dif_neg later, dif_neg (by simp only [List.length_cons]; omega)]

theorem length_read (b : Bank size) (addr len : Nat) :
    (b.read addr len).length = min len (size - addr) := by
  simp [read]

/-- Banks that read alike are equal. -/
theorem ext_get {a b : Bank size} (alike : ∀ x, a.get x = b.get x) : a = b := by
  obtain ⟨as⟩ := a
  obtain ⟨bs⟩ := b
  congr 1
  apply Vector.ext
  intro i h
  have same := alike i
  simpa [get, h] using same

end Bank

/-- Working memory. -/
abbrev Memory : Type := Bank 3200

/-- Program storage: tokens, two bytes each, and any data bytes. -/
abbrev Storage : Type := Bank 65536

end PocketConsole
