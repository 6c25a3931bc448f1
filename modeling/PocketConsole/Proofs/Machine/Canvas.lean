import PocketConsole.Proofs.Machine.Confinement
import PocketConsole.Proofs.Machine.Expression

namespace PocketConsole

/-- What one operation paints: the whole picture, or one pixel of it. -/
inductive Stroke
  | fill (shade : UInt8)
  | dot (x y shade : UInt8)
deriving DecidableEq

namespace Stroke

/-- The shade as it is asked for; two bits of it count. -/
def shade : Stroke → UInt8
  | fill shade => shade
  | dot _ _ shade => shade

/-- Whether a stroke reaches a pixel. Columns wrap around in their row, rows do not wrap. -/
def covers (s : Stroke) (x y : UInt8) : Bool :=
  match s with
  | fill _ => true
  | dot a b _ => a.toNat % 32 = x.toNat % 32 ∧ b = y

/-- The last of some strokes that reaches a pixel. -/
def last? (strokes : List Stroke) (x y : UInt8) : Option Stroke :=
  (strokes.filter (·.covers x y)).getLast?

/-- What a pixel shows after some strokes, of what it has shown before. -/
def shown (strokes : List Stroke) (x y before : UInt8) : UInt8 :=
  match last? strokes x y with
  | some s => s.shade % 4
  | none => before

theorem shown_append (first second : List Stroke) (x y before : UInt8) :
    shown (first ++ second) x y before = shown second x y (shown first x y before) := by
  simp only [shown, last?, List.filter_append, List.getLast?_append]
  cases (second.filter (·.covers x y)).getLast? with
  | some s => rfl
  | none => rfl

theorem shown_single (s : Stroke) (x y before : UInt8) :
    shown [s] x y before = if s.covers x y = true then s.shade % 4 else before := by
  by_cases covered : s.covers x y = true
  · simp only [shown, last?, List.filter_cons, covered, if_true, List.filter_nil, List.getLast?_singleton]
  · simp only [shown, last?, List.filter_cons, covered, if_false, List.filter_nil, List.getLast?_nil,
      Bool.false_eq_true]

end Stroke

namespace Machine

/-! ### Pixels -/

theorem pixel_lt (x : UInt8) {y : UInt8} (onScreen : y < 16) : pixel x y < Region.video.len := by
  rw [UInt8.lt_iff_toNat_lt] at onScreen
  simp only [pixel, Region.video, UInt8.reduceToNat] at onScreen ⊢
  omega

theorem le_pixel (x : UInt8) {y : UInt8} (offScreen : 16 ≤ y) : Region.video.len ≤ pixel x y := by
  rw [UInt8.le_iff_toNat_le] at offScreen
  simp only [pixel, Region.video, UInt8.reduceToNat] at offScreen ⊢
  omega

theorem pixel_eq_iff {x y a b : UInt8} :
    pixel x y = pixel a b ↔ a.toNat % 32 = x.toNat % 32 ∧ b = y := by
  rw [pixel, pixel, ← UInt8.toNat_inj]
  omega

theorem getIn_video_eq_zero (m : Machine) (x : UInt8) {y : UInt8} (offScreen : 16 ≤ y) :
    m.memory.getIn .video (pixel x y) = 0 :=
  if_neg (Nat.not_lt_of_le (le_pixel x offScreen))

/-- A shade is kept as it is, whether results wrap or not. -/
theorem fit_shade (wraps : Bool) (s : UInt8) : fit wraps (s % 4).toNat = s % 4 := by
  have other : s % 4 ≠ 255 := by
    intro last
    have value := congrArg UInt8.toNat last
    simp only [UInt8.toNat_mod, UInt8.reduceToNat] at value
    omega
  rw [fit_byte, if_neg fun both => other both.2]

theorem cell_writeIn_video (m : Machine) (offset : Nat) (data : List UInt8) (i : UInt8) :
    (m.writeIn .video offset data).cell i = m.cell i :=
  Bank.getIn_congr (m.sameIn_writeIn (by decide) (by decide) (by decide) offset data) i.toNat

/-- A dot below the picture changes no memory. -/
theorem memory_writeIn_video (m : Machine) (x : UInt8) {y : UInt8} (offScreen : 16 ≤ y) (v : UInt8) :
    (m.writeIn .video (pixel x y) [v]).memory = m.memory := by
  have below := le_pixel x offScreen
  have stop : Region.video.stop = Region.video.addr + Region.video.len := rfl
  apply Bank.ext_get
  intro z
  rw [memory_writeIn, Bank.get_writeIn _ (by decide), dif_neg (by omega)]

/-- What the next cycle paints. -/
def stroke? (m : Machine) : Option Stroke :=
  match m.next? with
  | some (.clear, shade) => some (.fill shade)
  | some (.draw, shade) => some (.dot m.second m.top shade)
  | _ => none

theorem stroke?_of_clear {m : Machine} {p : UInt8} (next : m.next? = some (.clear, p)) :
    m.stroke? = some (.fill p) := by
  rw [stroke?, next]

theorem stroke?_of_draw {m : Machine} {p : UInt8} (next : m.next? = some (.draw, p)) :
    m.stroke? = some (.dot m.second m.top p) := by
  rw [stroke?, next]

theorem stroke?_of_ne {m : Machine} (noClear : ∀ p, m.next? ≠ some (.clear, p))
    (noDraw : ∀ p, m.next? ≠ some (.draw, p)) : m.stroke? = none := by
  unfold stroke?
  split
  · rename_i p next
    exact absurd next (noClear p)
  · rename_i p next
    exact absurd next (noDraw p)
  · rfl

end Machine

namespace Rig

variable {σ : Type} [Store σ]

theorem cycle_of_clear {m : Machine} {p : UInt8} (next : m.next? = some (.clear, p)) (host : Host σ) :
    cycle ⟨m, host⟩ = ⟨m.past.writeIn .video 0 (.replicate Region.video.len (p % 4)), host⟩ :=
  cycle_of_quiet (Opcode.quiet_of_silent (by decide) rfl) next host

theorem cycle_of_draw {m : Machine} {p : UInt8} (next : m.next? = some (.draw, p)) (host : Host σ) :
    cycle ⟨m, host⟩ = ⟨m.past.writeIn .video (Machine.pixel m.second m.top) [p % 4], host⟩ := by
  rw [cycle_of_quiet (Opcode.quiet_of_silent (by decide) rfl) next, Machine.perform, Machine.second_past,
    Machine.top_past]

theorem cycle_of_shade {m : Machine} {p : UInt8} (next : m.next? = some (.shade, p)) (host : Host σ) :
    cycle ⟨m, host⟩ =
      ⟨m.past.put .xa (fit m.wraps (m.memory.getIn .video (Machine.pixel m.second m.top)).toNat), host⟩ := by
  rw [cycle_of_quiet (Opcode.quiet_of_silent (by decide) rfl) next, Machine.perform, Machine.second_past,
    Machine.top_past, Machine.set, Machine.wraps_past]
  rfl

/-- A cycle paints what its stroke covers, and leaves every other pixel. -/
theorem getIn_video_cycle {m : Machine} (tame : ¬ m.WritesAtPointer) (host : Host σ) (x : UInt8) {y : UInt8}
    (onScreen : y < 16) :
    (cycle ⟨m, host⟩).machine.memory.getIn .video (Machine.pixel x y) =
      Stroke.shown m.stroke?.toList x y (m.memory.getIn .video (Machine.pixel x y)) := by
  have inside := Machine.pixel_lt x onScreen
  by_cases clear : ∃ p, m.next? = some (.clear, p)
  · obtain ⟨p, next⟩ := clear
    have filled : (List.replicate Region.video.len (p % 4))[Machine.pixel x y]? = some (p % 4) := by
      rw [List.getElem?_replicate, if_pos inside]
    rw [cycle_of_clear next, Machine.stroke?_of_clear next, Option.toList_some, Stroke.shown_single, Stroke.covers,
      if_pos rfl, Machine.memory_writeIn, Bank.getIn_eq_get _ _ inside,
        Bank.get_writeIn_zero _ (by decide) inside, filled]
    rfl
  by_cases draw : ∃ p, m.next? = some (.draw, p)
  · obtain ⟨p, next⟩ := draw
    rw [cycle_of_draw next, Machine.stroke?_of_draw next, Option.toList_some, Stroke.shown_single,
      Machine.memory_writeIn, Bank.getIn_writeIn_singleton _ (by decide) inside]
    simp only [Stroke.covers, decide_eq_true_eq, ← Machine.pixel_eq_iff]
    rfl
  have idle := Machine.stroke?_of_ne (fun p next => clear ⟨p, next⟩) (fun p next => draw ⟨p, next⟩)
  rw [idle, Bank.getIn_eq_get _ _ inside, Bank.getIn_eq_get _ _ inside]
  by_contra changed
  -- only the two operations that paint write the picture
  have entry : (Region.video, [Opcode.clear, .draw]) ∈ Region.writers := by decide
  have within : Region.video.Contains (Region.video.addr + Machine.pixel x y) :=
    ⟨Nat.le_add_right _ _, Nat.add_lt_add_left inside _⟩
  obtain ⟨op, member, p, next⟩ := writer_of_changed tame entry within changed
  rcases List.mem_cons.1 member with rfl | last
  · exact clear ⟨p, next⟩
  · obtain rfl := List.mem_singleton.1 last
    exact draw ⟨p, next⟩

/-- What a number of cycles paint, in order. -/
def strokes (r : Rig σ) (n : Nat) : List Stroke :=
  (List.range n).filterMap fun k => (cycle^[k] r).machine.stroke?

theorem strokes_succ (r : Rig σ) (n : Nat) :
    r.strokes (n + 1) = r.strokes n ++ (cycle^[n] r).machine.stroke?.toList := by
  rw [strokes, strokes, List.range_succ, List.filterMap_append]
  cases stroke : (cycle^[n] r).machine.stroke? with
  | some s => simp only [List.filterMap_cons, stroke, List.filterMap_nil, Option.toList_some]
  | none => simp only [List.filterMap_cons, stroke, List.filterMap_nil, Option.toList_none]

/-- After a run of cycles each pixel shows the last stroke that covers it. -/
theorem getIn_video_iterate_cycle {r : Rig σ} {n : Nat}
    (tame : ∀ k < n, ¬ (cycle^[k] r).machine.WritesAtPointer) (x : UInt8) {y : UInt8} (onScreen : y < 16) :
    (cycle^[n] r).machine.memory.getIn .video (Machine.pixel x y) =
      Stroke.shown (r.strokes n) x y (r.machine.memory.getIn .video (Machine.pixel x y)) := by
  induction n with
  | zero => rfl
  | succ n ih =>
    have earlier := ih fun k before => tame k (Nat.lt_succ_of_lt before)
    rw [strokes_succ, Stroke.shown_append, ← earlier, Function.iterate_succ_apply']
    exact getIn_video_cycle (tame n (Nat.lt_succ_self n)) _ x onScreen

/-- The picture is a map of pixels in which the last writer wins: after a run without pokes and reads of blocks, a
pixel is read as the shade of the last stroke that covers it, or else as what stood there at the start. A pixel below
the picture is read as zero, and a dot there changes no memory; neither reading nor painting moves the stack. -/
theorem shade_of_last_stroke {r : Rig σ} {n : Nat} (tame : ∀ k < n, ¬ (cycle^[k] r).machine.WritesAtPointer) :
    let m := (cycle^[n] r).machine
    let after := (cycle^[n + 1] r).machine
    (∀ p, m.next? = some (.shade, p) →
        (m.top < 16 → after.get .xa =
          match Stroke.last? (r.strokes n) m.second m.top with
          | some s => s.shade % 4
          | none => fit m.wraps (r.machine.memory.get (640 + (m.second.toNat % 32 + m.top.toNat * 32))).toNat) ∧
        (16 ≤ m.top → after.get .xa = 0) ∧
        (∀ i, after.cell i = m.cell i) ∧ after.get .si = m.get .si) ∧
      ∀ p, m.next? = some (.draw, p) →
        (16 ≤ m.top → after.memory = m.memory) ∧
        (∀ i, after.cell i = m.cell i) ∧ after.get .si = m.get .si := by
  intro m after
  have step : after = (cycle ⟨m, (cycle^[n] r).host⟩).machine := congrArg machine (Function.iterate_succ_apply' _ _ _)
  refine ⟨fun p next => ⟨fun onScreen => ?_, fun offScreen => ?_, fun i => ?_, ?_⟩,
    fun p next => ⟨fun offScreen => ?_, fun i => ?_, ?_⟩⟩
  · have shown := getIn_video_iterate_cycle tame m.second onScreen
    have original : r.machine.memory.getIn .video (Machine.pixel m.second m.top) =
        r.machine.memory.get (640 + (m.second.toNat % 32 + m.top.toNat * 32)) :=
      Bank.getIn_eq_get _ _ (Machine.pixel_lt m.second onScreen)
    rw [step, cycle_of_shade next, Machine.get_put, if_pos rfl, shown, original, Stroke.shown]
    cases Stroke.last? (r.strokes n) m.second m.top with
    | some s => exact Machine.fit_shade _ _
    | none => rfl
  · rw [step, cycle_of_shade next, Machine.get_put, if_pos rfl, m.getIn_video_eq_zero _ offScreen]
    exact Machine.fit_shade _ 0
  · rw [step, cycle_of_shade next]
    rfl
  · rw [step, cycle_of_shade next, Machine.get_put, if_neg (by decide), Machine.get_past m (by decide) (by decide)]
  · rw [step, cycle_of_draw next]
    exact Machine.memory_writeIn_video _ _ offScreen _
  · rw [step, cycle_of_draw next]
    exact Machine.cell_writeIn_video _ _ _ i
  · rw [step, cycle_of_draw next]
    exact Machine.get_past m (by decide) (by decide)

/-- A dot beyond the width of the picture, read in another column that wraps around to the same one. -/
theorem shade_of_last_stroke_wrapped :
    let p : Program :=
      { name := "dots", code := ⟨[.ofOpcode .draw 7, .ofOpcode .incr 2, .ofOpcode .shade 0], .empty⟩ }
    let m := ((Machine.ofProgram p).writeIn .stack 0 [15, 65, 15]).writeIn .stack 255 [33]
    let r : Rig Shelf := ⟨m, ⟨.empty, #[]⟩⟩
    (∀ k < 2, ¬ (cycle^[k] r).machine.WritesAtPointer) ∧ (cycle^[2] r).machine.next? = some (.shade, 0) ∧
      (cycle^[2] r).machine.second = 65 ∧ (cycle^[2] r).machine.top = 15 ∧ (cycle^[3] r).machine.get .xa = 3 := by
  intro p m r
  have loaded : (Machine.ofProgram p).Alike m := (Machine.Alike.writeIn _ _ _ _).trans (.writeIn _ _ _ _)
  have tame : ∀ k < 2, ¬ (cycle^[k] r).machine.WritesAtPointer := fun k _ =>
    Machine.not_writesAtPointer_of_plain (p := p) rfl (by decide)
      ((alike_iterate_cycle k r).storage.trans loaded.storage)
  have next : (cycle^[2] r).machine.next? = some (.shade, 0) := by decide +kernel
  have second : (cycle^[2] r).machine.second = 65 := by decide +kernel
  have top : (cycle^[2] r).machine.top = 15 := by decide +kernel
  have painted : Stroke.last? (r.strokes 2) 65 15 = some (.dot 33 15 7) := by decide +kernel
  have read := ((shade_of_last_stroke tame).1 0 next).1
  rw [second, top, painted] at read
  exact ⟨tame, next, second, top, read (by decide)⟩

end Rig

end PocketConsole
