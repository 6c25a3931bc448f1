import PocketConsole.Bank

namespace PocketConsole

namespace Region

/-- The addresses of a region. -/
def Contains (r : Region) (x : Nat) : Prop :=
  r.addr ≤ x ∧ x < r.stop

instance (r : Region) (x : Nat) : Decidable (r.Contains x) :=
  inferInstanceAs (Decidable (_ ∧ _))

/-- Regions that have no address in common. -/
def Apart (a b : Region) : Prop :=
  a.stop ≤ b.addr ∨ b.stop ≤ a.addr

instance (a b : Region) : Decidable (a.Apart b) :=
  inferInstanceAs (Decidable (_ ∨ _))

theorem Apart.not_contains {a b : Region} (apart : a.Apart b) {x : Nat} (inside : a.Contains x) :
    ¬ b.Contains x := by
  rintro ⟨lower, upper⟩
  obtain ⟨above, below⟩ := inside
  rcases apart with before | after <;> omega

/-- The regions of working memory, in order. -/
def all : List Region :=
  [stack, buttons, audio, icons, timer, serialState, serialPins, video, saveData, imageData]

theorem apart_of_mem_all : ∀ a ∈ all, ∀ b ∈ all, a ≠ b → a.Apart b := by
  decide

end Region

namespace Bank

variable {size : Nat}

/-- A write into a region that lies within the bank reaches the addresses from its offset on, as far
as its data and the region go. -/
theorem get_writeIn (b : Bank size) {r : Region} (inside : r.stop ≤ size) (offset x : Nat)
    (data : List UInt8) :
    (b.writeIn r offset data).get x =
      if h : r.addr + offset ≤ x ∧ x < r.addr + offset + data.length ∧ x < r.stop then
        data[x - (r.addr + offset)]
      else b.get x := by
  have room : r.addr + offset + (data.take (r.len - offset)).length =
      min (r.stop) (r.addr + offset + data.length) ∨ r.stop < r.addr + offset ∧
        (data.take (r.len - offset)).length = 0 := by
    simp only [List.length_take, Region.stop]
    omega
  rw [writeIn, if_pos inside, get_write]
  by_cases reached : r.addr + offset ≤ x ∧ x < r.addr + offset + data.length ∧ x < r.stop
  · rw [dif_pos (by omega), dif_pos reached, List.getElem_take]
  · rw [dif_neg (by omega), dif_neg reached]

theorem get_writeIn_zero (b : Bank size) {r : Region} (inside : r.stop ≤ size) {i : Nat} (h : i < r.len)
    (data : List UInt8) :
    (b.writeIn r 0 data).get (r.addr + i) = data[i]?.getD (b.get (r.addr + i)) := by
  have stop : r.stop = r.addr + r.len := rfl
  have offset : r.addr + i - (r.addr + 0) = i := by omega
  rw [get_writeIn b inside]
  by_cases given : i < data.length
  · rw [dif_pos (by omega), List.getElem?_eq_getElem given, Option.getD_some]
    simp only [offset]
  · rw [dif_neg (by omega), List.getElem?_eq_none (Nat.le_of_not_lt given), Option.getD_none]

/-- A write into a region leaves every address outside of the region alone. -/
theorem get_writeIn_of_outside (b : Bank size) {r : Region} {x : Nat} (outside : ¬ r.Contains x)
    (offset : Nat) (data : List UInt8) : (b.writeIn r offset data).get x = b.get x := by
  by_cases inside : r.stop ≤ size
  · rw [get_writeIn b inside, dif_neg]
    rintro ⟨lower, -, upper⟩
    exact outside ⟨by omega, upper⟩
  · rw [writeIn, if_neg inside]

theorem getIn_eq_get (b : Bank size) (r : Region) {offset : Nat} (h : offset < r.len) :
    b.getIn r offset = b.get (r.addr + offset) :=
  if_pos h

theorem getIn_writeIn_singleton (b : Bank size) {r : Region} (inside : r.stop ≤ size) {i : Nat} (h : i < r.len)
    (j : Nat) (v : UInt8) : (b.writeIn r j [v]).getIn r i = if i = j then v else b.getIn r i := by
  have stop : r.stop = r.addr + r.len := rfl
  have single : [v].length = 1 := rfl
  rw [getIn_eq_get _ r h, getIn_eq_get _ r h, get_writeIn b inside]
  by_cases here : i = j
  · subst here
    rw [if_pos rfl, dif_pos (by omega)]
    exact List.getElem_singleton _
  · rw [if_neg here, dif_neg (by omega)]

/-- Regions that hold the same bytes are read alike. -/
theorem getIn_congr {a b : Bank size} {r : Region} (same : ∀ x, r.Contains x → b.get x = a.get x)
    (offset : Nat) : b.getIn r offset = a.getIn r offset := by
  unfold getIn
  split
  · rename_i within
    exact same _ ⟨Nat.le_add_right _ _, Nat.add_lt_add_left within _⟩
  · rfl

theorem getElem?_read (b : Bank size) (addr len i : Nat) :
    (b.read addr len)[i]? = if i < min len (size - addr) then some (b.get (addr + i)) else none := by
  rw [read, List.getElem?_map]
  split
  · rename_i within
    rw [List.getElem?_range' within]
    simp
  · rename_i beyond
    rw [List.getElem?_eq_none (by rw [List.length_range']; exact Nat.le_of_not_lt beyond)]
    rfl

theorem length_slice (b : Bank size) {r : Region} (inside : r.stop ≤ size) :
    (b.slice r).length = r.len := by
  rw [slice, length_read]
  unfold Region.stop at inside
  omega

theorem getElem?_slice (b : Bank size) {r : Region} (inside : r.stop ≤ size) (i : Nat) :
    (b.slice r)[i]? = if i < r.len then some (b.get (r.addr + i)) else none := by
  have room : min r.len (size - r.addr) = r.len := by
    unfold Region.stop at inside
    omega
  rw [slice, getElem?_read, room]

end Bank

end PocketConsole
