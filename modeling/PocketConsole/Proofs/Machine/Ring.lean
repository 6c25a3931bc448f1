import Mathlib.Data.List.Induction
import PocketConsole.Proofs.Machine.Sleep

namespace PocketConsole

namespace Machine

/-- The machine with results on top of the stack, the last of them topmost. -/
def pushAll (m : Machine) (vs : List Int) : Machine :=
  vs.foldl push m

/-- A number of pops: the bytes taken off the stack, one after another, and the machine without them. -/
def pops (m : Machine) : Nat → List UInt8 × Machine
  | 0 => ([], m)
  | n + 1 =>
    match m.pops n with
    | (taken, left) => (taken ++ [left.top], left.drop)

/-- The cell a number of steps below the top, around the ring. -/
def below (m : Machine) (k : Nat) : UInt8 :=
  m.cell (m.get .si - .ofNat k)

theorem stackAt_neg (m : Machine) (k : Nat) : m.stackAt (-k) = m.below k := by
  have bound := (m.get .si).toNat_lt
  rw [stackAt, below]
  congr 1
  apply UInt8.toNat_inj.1
  simp only [UInt8.toNat_sub, UInt8.toNat_ofNat']
  omega

/-- Downwards no distance is too large for the sum. -/
theorem checkedStackAt_neg (m : Machine) (k : Nat) : m.checkedStackAt (-k) = .ok (m.below k) := by
  have bound := (m.get .si).toNat_lt
  rw [checkedStackAt, if_neg (by omega), stackAt_neg]

/-! ### Pushing -/

theorem cell_push (m : Machine) (v : Int) (i : UInt8) :
    (m.push v).cell i = if i = m.get .si + 1 then fit m.wraps v else m.cell i := by
  rw [cell_eq_get, get_memory_push, cell_eq_get]
  simp only [cellAddress_inj]

theorem below_push_zero (m : Machine) (v : Int) : (m.push v).below 0 = fit m.wraps v := by
  have top : m.get .si + 1 - .ofNat 0 = m.get .si + 1 := UInt8.sub_zero _
  rw [below, get_push, if_pos rfl, top, cell_push, if_pos rfl]

/-- A push leaves all cells but the one it writes, and they are one step further below. -/
theorem below_push_succ (m : Machine) (v : Int) {k : Nat} (within : k + 1 < 256) :
    (m.push v).below (k + 1) = m.below k := by
  have bound := (m.get .si).toNat_lt
  have other : m.get .si + 1 - .ofNat (k + 1) ≠ m.get .si + 1 := by
    intro same
    have value := congrArg UInt8.toNat same
    simp only [UInt8.toNat_sub, UInt8.toNat_add, UInt8.toNat_ofNat', UInt8.reduceToNat] at value
    omega
  have place : m.get .si + 1 - .ofNat (k + 1) = m.get .si - .ofNat k := by
    apply UInt8.toNat_inj.1
    simp only [UInt8.toNat_sub, UInt8.toNat_add, UInt8.toNat_ofNat', UInt8.reduceToNat]
    omega
  rw [below, get_push, if_pos rfl, cell_push, if_neg other, place, below]

theorem pushAll_concat (m : Machine) (vs : List Int) (v : Int) :
    m.pushAll (vs ++ [v]) = (m.pushAll vs).push v := by
  rw [pushAll, List.foldl_append]
  rfl

theorem get_pushAll_of_ne (m : Machine) (vs : List Int) {r : Register} (other : r ≠ .si) :
    (m.pushAll vs).get r = m.get r := by
  induction vs using List.reverseRecOn with
  | nil => rfl
  | append_singleton vs v ih => rw [pushAll_concat, get_push, if_neg other, ih]

theorem wraps_pushAll (m : Machine) (vs : List Int) : (m.pushAll vs).wraps = m.wraps :=
  congrArg isHigh (m.get_pushAll_of_ne vs (by decide))

theorem get_si_pushAll (m : Machine) (vs : List Int) :
    (m.pushAll vs).get .si = m.get .si + .ofNat vs.length := by
  induction vs using List.reverseRecOn with
  | nil => exact (UInt8.add_zero _).symm
  | append_singleton vs v ih =>
    rw [pushAll_concat, get_push, if_pos rfl, ih, List.length_append, List.length_singleton, UInt8.ofNat_add,
      UInt8.add_assoc]
    rfl

/-- The values pushed last are found from the top downwards, as far as the ring goes. -/
theorem below_pushAll (m : Machine) {vs : List Int} {k : Nat} (within : k < 256) (pushed : k < vs.length) :
    (m.pushAll vs).below k = fit m.wraps vs[vs.length - 1 - k] := by
  induction vs using List.reverseRecOn generalizing k with
  | nil => exact absurd pushed (Nat.not_lt_zero k)
  | append_singleton vs v ih =>
    rw [pushAll_concat]
    simp only [List.length_append, List.length_singleton, Nat.add_sub_cancel] at pushed ⊢
    cases k with
    | zero =>
      rw [below_push_zero, wraps_pushAll]
      simp only [Nat.sub_zero, List.getElem_concat_length]
    | succ k =>
      have earlier : vs.length - 1 - k < vs.length := by omega
      have place : vs.length - (k + 1) = vs.length - 1 - k := by omega
      rw [below_push_succ _ _ within, ih (Nat.lt_of_succ_lt within) (Nat.lt_of_succ_lt_succ pushed)]
      simp only [place, List.getElem_append_left earlier]

/-- Pushes write the cells above the stack index one after another, and no others. -/
theorem cell_pushAll (m : Machine) {vs : List Int} {i : UInt8}
    (spared : ∀ k < vs.length, i ≠ m.get .si + 1 + .ofNat k) : (m.pushAll vs).cell i = m.cell i := by
  induction vs using List.reverseRecOn with
  | nil => rfl
  | append_singleton vs v ih =>
    simp only [List.length_append, List.length_singleton] at spared
    have last : i ≠ (m.pushAll vs).get .si + 1 := by
      rw [get_si_pushAll, UInt8.add_assoc, UInt8.add_comm (.ofNat _), ← UInt8.add_assoc]
      exact spared vs.length (Nat.lt_succ_self _)
    rw [pushAll_concat, cell_push, if_neg last]
    exact ih fun k before => spared k (Nat.lt_succ_of_lt before)

theorem get_memory_pushAll (m : Machine) (vs : List Int) {x : Nat} (outside : ¬ Region.stack.Contains x) :
    (m.pushAll vs).memory.get x = m.memory.get x := by
  induction vs using List.reverseRecOn with
  | nil => rfl
  | append_singleton vs v ih =>
    rw [pushAll_concat, memory_push, Bank.get_writeIn_of_outside _ outside, ih]

/-! ### Popping -/

theorem lower_lower (m : Machine) (a b : UInt8) : (m.lower a).lower b = m.lower (a + b) := by
  have both : m.get .si - a - b = m.get .si - (a + b) := by
    have first := a.toNat_lt
    have second := b.toNat_lt
    apply UInt8.toNat_inj.1
    simp only [UInt8.toNat_sub, UInt8.toNat_add]
    omega
  rw [lower, lower, get_put, if_pos rfl, put_put, lower, both]

/-- A pop moves the stack index, and nothing else. -/
theorem snd_pops (m : Machine) (n : Nat) : (m.pops n).2 = m.lower (.ofNat n) := by
  induction n with
  | zero =>
    have still : m.get .si - .ofNat 0 = m.get .si := UInt8.sub_zero _
    rw [lower, still, put_get]
    rfl
  | succ n ih =>
    have step : (m.pops (n + 1)).2 = (m.pops n).2.drop := rfl
    rw [step, ih, drop, lower_lower, UInt8.ofNat_add]
    rfl

theorem top_lower (m : Machine) (n : Nat) : (m.lower (.ofNat n)).top = m.below n := by
  rw [top, below, lower, get_put, if_pos rfl]
  rfl

theorem fst_pops (m : Machine) (n : Nat) : (m.pops n).1 = (List.range n).map m.below := by
  induction n with
  | zero => rfl
  | succ n ih =>
    have step : (m.pops (n + 1)).1 = (m.pops n).1 ++ [(m.pops n).2.top] := rfl
    rw [step, ih, snd_pops, top_lower, List.range_succ, List.map_append, List.map_singleton]

/-- The stack is a ring of 256 bytes: what is pushed last lies on top, whatever the stack index is, the cells that
the pushes do not reach and all else of the machine stay, and pops find the cells from the top downwards. -/
theorem ring_of_pushes (m : Machine) (vs : List Int) :
    ((m.pushAll vs).get .si).toNat = ((m.get .si).toNat + vs.length) % 256 ∧
      (∀ k : Nat, k < 256 → ∀ pushed : k < vs.length,
        (m.pushAll vs).checkedStackAt (-k) = .ok (fit m.wraps vs[vs.length - 1 - k])) ∧
      (∀ i, (∀ k < vs.length, i ≠ m.get .si + 1 + .ofNat k) → (m.pushAll vs).cell i = m.cell i) ∧
      (∀ x, ¬ Region.stack.Contains x → (m.pushAll vs).memory.get x = m.memory.get x) ∧
      (∀ r, r ≠ .si → (m.pushAll vs).get r = m.get r) ∧
      ∀ n : Nat,
        ((m.pushAll vs).pops n).1.map Except.ok =
            (List.range n).map (fun k : Nat => (m.pushAll vs).checkedStackAt (-k)) ∧
          ((m.pushAll vs).pops n).2.memory = (m.pushAll vs).memory ∧
          ((((m.pushAll vs).pops n).2.get .si).toNat : Int) = (((m.pushAll vs).get .si).toNat - n) % 256 ∧
          ∀ r, r ≠ .si → ((m.pushAll vs).pops n).2.get r = (m.pushAll vs).get r := by
  refine ⟨?_, fun k within pushed => ?_, fun i => m.cell_pushAll, fun x => m.get_memory_pushAll vs,
    fun r => m.get_pushAll_of_ne vs, fun n => ⟨?_, ?_, ?_, fun r other => ?_⟩⟩
  · rw [get_si_pushAll, UInt8.toNat_add, UInt8.toNat_ofNat']
    omega
  · rw [checkedStackAt_neg, below_pushAll m within pushed]
  · rw [fst_pops, List.map_map]
    exact List.map_congr_left fun k _ => (checkedStackAt_neg _ k).symm
  · rw [snd_pops]
    rfl
  · have bound := ((m.pushAll vs).get .si).toNat_lt
    rw [snd_pops, lower, get_put, if_pos rfl, UInt8.toNat_sub, UInt8.toNat_ofNat']
    omega
  · rw [snd_pops, lower, get_put, if_neg other.symm]

/-- One push more than there are cells, around the end of the ring and with wrapping results: the second value
pushed lies at the bottom, where the first one was, and the last two are popped first. -/
theorem ring_of_pushes_around :
    let m := (fresh.put .si 254).put .wv 1
    let vs := (List.range 257).map Int.ofNat
    ((m.pushAll vs).get .si).toNat = 255 ∧ (m.pushAll vs).checkedStackAt (-255) = .ok 1 ∧
      ((m.pushAll vs).pops 2).1.map Except.ok = [(m.pushAll vs).checkedStackAt 0, (m.pushAll vs).checkedStackAt (-1)] ∧
      (m.pushAll vs).checkedStackAt 0 = .ok 1 ∧ (m.pushAll vs).checkedStackAt (-1) = .ok 0 := by
  intro m vs
  have length : vs.length = 257 := by simp [vs]
  obtain ⟨index, last, -, -, -, popped⟩ := ring_of_pushes m vs
  have start : (m.get .si).toNat = 254 := by decide
  have wraps : m.wraps = true := by decide
  simp only [length, start, wraps] at index last
  have value {k : Nat} (within : k < 257) (h : k < vs.length) : vs[k] = k := by simp [vs]
  refine ⟨index, ?_, (popped 2).1, ?_, ?_⟩
  · refine (last 255 (by decide) (by decide)).trans ?_
    rw [value (by decide)]
    rfl
  · refine (last 0 (by decide) (by decide)).trans ?_
    rw [value (by decide)]
    rfl
  · refine (last 1 (by decide) (by decide)).trans ?_
    rw [value (by decide)]
    rfl

end Machine

end PocketConsole
