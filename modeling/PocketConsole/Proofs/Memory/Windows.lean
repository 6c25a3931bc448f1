import PocketConsole.Proofs.Memory.Clipping
import PocketConsole.Proofs.Memory.Regions

namespace PocketConsole

namespace Bank

variable {size : Nat}

/-- The bytes from one address up to another, where these are in order and the bank goes so far. -/
def span? (b : Bank size) (start stop : Nat) : Option (List UInt8) :=
  if start ≤ stop ∧ stop ≤ size then some ((b.bytes.toList.take stop).drop start) else none

/-- A read by a span that ends with the bank at the latest. The end is summed up as far as a 64-bit word goes. -/
def readSpan? (b : Bank size) (addr len : Nat) : Option (List UInt8) :=
  b.span? (min addr size) (min (min (addr + len) (UInt64.size - 1)) size)

/-- The bytes of a region as a bank of their own, where the region lies within the bank. -/
def window? (b : Bank size) (r : Region) : Option (Bank r.len) :=
  if r.stop ≤ size then some ⟨Vector.ofFn fun i => b.get (r.addr + i)⟩ else none

/-- A write by a span of the window on a region. Without a window everything is dropped. -/
def writeWindow? (b : Bank size) (r : Region) (offset : Nat) (data : List UInt8) : Option (Bank size) :=
  match b.window? r with
  | some w => (w.writeSpan? offset data).map fun w => b.write r.addr w.bytes.toList
  | none => some b

theorem getElem?_toList_bytes (b : Bank size) (x : Nat) :
    b.bytes.toList[x]? = if x < size then some (b.get x) else none := by
  rw [Vector.getElem?_toList]
  by_cases inside : x < size
  · rw [if_pos inside, Vector.getElem?_eq_getElem inside, get, dif_pos inside]
  · rw [if_neg inside, Vector.getElem?_eq_none (Nat.le_of_not_lt inside)]

/-- A read by a span never reaches past an end, and reads what there is. -/
theorem readSpan?_eq (b : Bank size) (word : size < UInt64.size) (addr len : Nat) :
    b.readSpan? addr len = some (b.read addr len) := by
  have pulled : min (min (addr + len) (UInt64.size - 1)) size = min (addr + len) size := by omega
  have ordered : min addr size ≤ min (addr + len) size ∧ min (addr + len) size ≤ size := by omega
  rw [readSpan?, pulled, span?, if_pos ordered]
  congr 1
  apply List.ext_getElem?
  intro i
  rw [getElem?_read, List.getElem?_drop, List.getElem?_take, getElem?_toList_bytes]
  by_cases within : i < min len (size - addr)
  · have start : min addr size = addr := by omega
    rw [if_pos within, start, if_pos (by omega), if_pos (by omega)]
  · rw [if_neg within, if_neg (by omega)]

/-- The bytes of another bank put in from an address on. -/
theorem get_write_toList {other : Nat} (b : Bank size) (addr : Nat) (w : Bank other) (x : Nat) :
    (b.write addr w.bytes.toList).get x =
      if addr ≤ x ∧ x < addr + other ∧ x < size then w.get (x - addr) else b.get x := by
  have length : w.bytes.toList.length = other := Vector.length_toList
  rw [get_write]
  by_cases reached : addr ≤ x ∧ x < addr + other ∧ x < size
  · rw [dif_pos (by omega), if_pos reached, get, dif_pos (by omega), Vector.getElem_toList]
  · rw [dif_neg (by omega), if_neg reached]

theorem window?_of_inside (b : Bank size) {r : Region} (inside : r.stop ≤ size) :
    ∃ w, b.window? r = some w ∧ ∀ i, w.get i = b.getIn r i := by
  refine ⟨_, if_pos inside, fun i => ?_⟩
  by_cases within : i < r.len
  · rw [getIn_eq_get b r within, get, dif_pos within, Vector.getElem_ofFn]
  · rw [get_of_le _ (Nat.le_of_not_lt within), getIn, if_neg within]

/-- A write through a window never reaches past an end, and writes what lies within the region. -/
theorem writeWindow?_eq (b : Bank size) (r : Region) (offset : Nat) (data : List UInt8) :
    b.writeWindow? r offset data = some (b.writeIn r offset data) := by
  by_cases inside : r.stop ≤ size
  · obtain ⟨w, found, shown⟩ := b.window?_of_inside inside
    have written : b.write r.addr (w.write offset data).bytes.toList = b.writeIn r offset data := by
      apply ext_get
      intro x
      have stop : r.stop = r.addr + r.len := rfl
      rw [get_write_toList, get_writeIn b inside]
      by_cases within : r.addr ≤ x ∧ x < r.addr + r.len ∧ x < size
      · obtain ⟨i, rfl⟩ : ∃ i, x = r.addr + i := ⟨x - r.addr, by omega⟩
        have place : r.addr + i - r.addr = i := by omega
        have depth : r.addr + i - (r.addr + offset) = i - offset := by omega
        rw [if_pos within, place, get_write, shown, getIn_eq_get b r (by omega)]
        by_cases reached : offset ≤ i ∧ i < offset + data.length
        · rw [dif_pos (by omega), dif_pos (by omega)]
          simp only [depth]
        · rw [dif_neg (by omega), dif_neg (by omega)]
      · rw [if_neg within, dif_neg (by omega)]
    simp only [writeWindow?, found, writeSpan?_eq, Option.map_some, written]
  · simp only [writeWindow?, window?, writeIn, if_neg inside]

/-- The offsets from an address on that do not reach a bound. -/
theorem filter_range_add_lt (addr bound len : Nat) :
    ((List.range len).filter fun i => addr + i < bound) = List.range (min len (bound - addr)) := by
  obtain ⟨rest, total⟩ := Nat.exists_eq_add_of_le (Nat.min_le_left len (bound - addr))
  have near : ∀ i ∈ List.range (min len (bound - addr)), decide (addr + i < bound) = true := by
    intro i member
    have below := List.mem_range.1 member
    exact decide_eq_true (by omega)
  have far : ∀ i ∈ (List.range rest).map (min len (bound - addr) + ·), ¬ decide (addr + i < bound) = true := by
    intro i member
    obtain ⟨j, listed, rfl⟩ := List.mem_map.1 member
    have below := List.mem_range.1 listed
    rw [decide_eq_true_eq]
    omega
  rw [congrArg List.range total, List.range_add, List.filter_append, List.filter_eq_self.2 near,
    List.filter_eq_nil_iff.2 far, List.append_nil]

/-- A region lists the bytes at its offsets, those that lie within the bank. -/
theorem map_slice (b : Bank size) {r : Region} (fits : r.stop < UInt64.size) :
    (b.slice r).map .ok = ((List.range r.len).filter fun i => r.addr + i < size).map (b.checkedGetIn r) := by
  have stop : r.stop = r.addr + r.len := rfl
  rw [filter_range_add_lt, slice, read, List.range'_eq_map_range, List.map_map, List.map_map]
  apply List.map_congr_left
  intro i member
  have below := List.mem_range.1 member
  have sum : ¬ (i < r.len ∧ UInt64.size ≤ r.addr + i) := by omega
  rw [checkedGetIn, if_neg sum, getIn_eq_get b r (by omega)]
  rfl

/-- Nothing is written into a region that reaches past the end. -/
theorem writeIn_of_beyond (b : Bank size) {r : Region} (beyond : size < r.stop) (offset : Nat) (data : List UInt8) :
    b.writeIn r offset data = b :=
  if_neg (Nat.not_le.2 beyond)

theorem checkedGetIn_writeIn (b : Bank size) {r : Region} (fits : r.stop < UInt64.size) (inside : r.stop ≤ size)
    {offset k : Nat} {data : List UInt8} (given : k < data.length) (within : offset + k < r.len) :
    (b.writeIn r offset data).checkedGetIn r (offset + k) = .ok data[k] := by
  have stop : r.stop = r.addr + r.len := rfl
  have sum : ¬ (offset + k < r.len ∧ UInt64.size ≤ r.addr + (offset + k)) := by omega
  have place : r.addr + (offset + k) - (r.addr + offset) = k := by omega
  rw [checkedGetIn, if_neg sum, getIn_eq_get _ r within, get_writeIn b inside, dif_pos (by omega)]
  simp only [place]

/-- A write into a region always succeeds. What lies within the region is read back byte by byte, and no other address
changes. The whole region has to lie within memory for that: one that reaches past the end takes nothing in, not even
the bytes before the end, although it is read up to there. -/
theorem reads_of_region_write (b : Memory) {r : Region} (fits : r.stop < UInt64.size) (offset : Nat)
    (data : List UInt8) :
    ∃ after, b.checkedWriteIn r offset data = .ok after ∧ b.writeWindow? r offset data = some after ∧
      (r.stop ≤ 3200 → ∀ k (given : k < data.length), offset + k < r.len →
        after.checkedGetIn r (offset + k) = .ok data[k]) ∧
      (3200 < r.stop → after = b) ∧
      (∀ x, (∀ k < data.length, offset + k < r.len → x ≠ r.addr + offset + k) → after.get x = b.get x) ∧
      (b.slice r).map .ok = ((List.range r.len).filter fun i => r.addr + i < 3200).map (b.checkedGetIn r) ∧
      b.readSpan? r.addr r.len = some (b.slice r) := by
  refine ⟨b.writeIn r offset data, ?_, b.writeWindow?_eq r offset data, ?_, ?_, fun x other => ?_, b.map_slice fits,
    b.readSpan?_eq (by decide) r.addr r.len⟩
  · rw [checkedWriteIn, Region.checkedStop, if_pos fits]
    rfl
  · exact fun inside k given within => b.checkedGetIn_writeIn fits inside given within
  · exact fun beyond => b.writeIn_of_beyond beyond offset data
  · by_cases inside : r.stop ≤ 3200
    · have stop : r.stop = r.addr + r.len := rfl
      rw [get_writeIn b inside, dif_neg]
      rintro ⟨lower, upper, before⟩
      exact other (x - (r.addr + offset)) (by omega) (by omega) (by omega)
    · rw [b.writeIn_of_beyond (Nat.not_le.1 inside)]

/-- Two bytes written into the last region before the end, from its second byte on: the first is read back, the second
lies outside. -/
theorem reads_of_region_write_at_end :
    let b : Memory := Bank.zero.set 3198 5
    let r : Region := ⟨3198, 2⟩
    r.stop < UInt64.size ∧ ∃ after, b.checkedWriteIn r 1 [7, 8] = .ok after ∧ after.checkedGetIn r 1 = .ok 7 ∧
      after.get 3198 = 5 ∧ (b.slice r).map .ok = [b.checkedGetIn r 0, b.checkedGetIn r 1] := by
  intro b r
  have fits : r.stop < UInt64.size := by decide
  obtain ⟨after, written, -, back, -, others, listed, -⟩ := b.reads_of_region_write fits 1 [7, 8]
  have kept : after.get 3198 = b.get 3198 := by
    refine others 3198 fun k given within same => ?_
    have start : r.addr = 3198 := rfl
    omega
  have held : b.get 3198 = 5 := by rw [get_set, if_pos ⟨rfl, by decide⟩]
  exact ⟨fits, after, written, back (by decide) 0 (by decide) (by decide), kept.trans held, listed⟩

/-- The last byte of memory cannot be written as the first one of a region of two. -/
theorem region_write_lost_at_end : ¬ ∀ (b : Memory) (r : Region) (offset : Nat) (data : List UInt8),
    r.stop < UInt64.size → offset < UInt64.size → ∀ k (given : k < data.length), offset + k < r.len →
    r.addr + offset + k < 3200 →
    ∃ after, b.checkedWriteIn r offset data = .ok after ∧ after.checkedGetIn r (offset + k) = .ok data[k] := by
  intro back
  obtain ⟨after, written, read⟩ :=
    back .zero ⟨3199, 2⟩ 0 [7] (by decide) (by decide) 0 (by decide) (by decide) (by decide)
  have nothing : (Bank.zero : Memory).checkedWriteIn ⟨3199, 2⟩ 0 [7] = .ok .zero := by
    rw [checkedWriteIn, writeIn_of_beyond _ (by decide)]
    rfl
  obtain rfl : Bank.zero = after := Except.ok.inj (nothing.symm.trans written)
  have blank : (Bank.zero : Memory).checkedGetIn ⟨3199, 2⟩ 0 = .ok 0 := by
    rw [checkedGetIn, if_neg (by decide), getIn_eq_get _ _ (by decide), get_zero]
  have same : (0 : UInt8) = 7 := Except.ok.inj (blank.symm.trans read)
  exact absurd same (by decide)

end Bank

end PocketConsole
