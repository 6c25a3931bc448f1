import PocketConsole.Proofs.Machine.Continuation
import PocketConsole.Proofs.Machine.Time

namespace PocketConsole

variable {σ τ : Type} [Store σ] [Store τ]

namespace SaveRecord

/-- Two stores give the same text for the record, now and after whatever may be written as the record. -/
def Agree (s : σ) (t : τ) : Prop :=
  ∀ texts : List String, Store.get (texts.foldl (Store.set · key ·) s) key =
    Store.get (texts.foldl (Store.set · key ·) t) key

namespace Agree

variable {s : σ} {t : τ}

theorem refl (s : σ) : Agree s s :=
  fun _ => rfl

theorem symm (agree : Agree s t) : Agree t s :=
  fun texts => (agree texts).symm

theorem get (agree : Agree s t) : Store.get s key = Store.get t key :=
  agree []

theorem set (agree : Agree s t) (text : String) : Agree (Store.set s key text) (Store.set t key text) :=
  fun texts => agree (text :: texts)

/-- Stores that give back the text last set agree if they do so at the start. -/
theorem of_kept (keptFirst : ∀ (s : σ) text, Store.get (Store.set s key text) key = some text)
    (keptSecond : ∀ (t : τ) text, Store.get (Store.set t key text) key = some text)
    (same : Store.get s key = Store.get t key) : Agree s t := by
  intro texts
  rcases List.eq_nil_or_concat texts with rfl | ⟨earlier, last, rfl⟩
  · exact same
  · rw [List.concat_eq_append, List.foldl_append, List.foldl_append]
    exact (keptFirst _ last).trans (keptSecond _ last).symm

end Agree

theorem fst_read_of_agree {g : Host σ} {h : Host τ} (agree : Agree g.store h.store) :
    (read g).1 = (read h).1 := by
  rw [fst_read, fst_read, agree.get]

end SaveRecord

namespace Rig

open SaveRecord (Agree)

/-- Two rigs with equal machines, on hosts that may differ in all but what their stores hold as the
record. -/
structure Twin (r : Rig σ) (s : Rig τ) : Prop where
  machine : s.machine = r.machine
  store : Agree r.host.store s.host.store

namespace Twin

variable {r : Rig σ} {s : Rig τ}

theorem symm (twin : r.Twin s) : s.Twin r :=
  ⟨twin.machine.symm, twin.store.symm⟩

theorem save (twin : r.Twin s) : r.save.Twin s.save := by
  obtain ⟨m, g⟩ := r
  obtain ⟨n, h⟩ := s
  obtain ⟨same, agree⟩ := twin
  dsimp only at same agree
  subst same
  refine ⟨rfl, ?_⟩
  simp only [Rig.save, SaveRecord.store_write, SaveRecord.store_read, SaveRecord.fst_read_of_agree agree]
  exact agree.set _

theorem restore (twin : r.Twin s) : r.restore.Twin s.restore := by
  have stores := twin.store
  refine ⟨?_, by rwa [store_restore, store_restore]⟩
  simp only [Rig.restore, SaveRecord.fst_read_of_agree stores, twin.machine]

theorem perform (twin : r.Twin s) (op : Opcode) (p : UInt8) : (r.perform op p).Twin (s.perform op p) := by
  by_cases save : op = .save
  · subst save
    exact twin.save
  by_cases load : op = .load
  · subst load
    exact twin.restore
  rw [perform_eq r save load, perform_eq s save load, twin.machine]
  refine ⟨rfl, ?_⟩
  rw [Host.store_noteAll, Host.store_noteAll]
  exact twin.store

/-- A cycle takes no more from the host than the record. -/
theorem cycle (twin : r.Twin s) : r.cycle.Twin s.cycle := by
  obtain ⟨m, g⟩ := r
  obtain ⟨n, h⟩ := s
  obtain ⟨same, agree⟩ := twin
  dsimp only at same agree
  subst same
  simp only [Rig.cycle]
  split
  · exact ⟨rfl, agree⟩
  · split
    · exact ⟨rfl, agree⟩
    · split
      · exact perform (r := ⟨_, g⟩) (s := ⟨_, h⟩) ⟨rfl, agree⟩ _ _
      · exact ⟨rfl, agree⟩

theorem iterate (twin : r.Twin s) (n : Nat) : (Rig.cycle^[n] r).Twin (Rig.cycle^[n] s) := by
  induction n generalizing r s with
  | zero => exact twin
  | succ n ih => exact ih twin.cycle

theorem opcode_eq (twin : r.Twin s) : s.opcode = r.opcode := by
  rw [Rig.opcode, Rig.opcode, twin.machine]

theorem cycles (twin : r.Twin s) (n : Nat) :
    (Rig.cycles n s).1 = (Rig.cycles n r).1 ∧ (Rig.cycles n r).2.Twin (Rig.cycles n s).2 := by
  induction n generalizing r s with
  | zero => exact ⟨rfl, twin⟩
  | succ n ih =>
    rw [Rig.cycles, Rig.cycles, twin.opcode_eq]
    split
    · exact ⟨rfl, twin.cycle⟩
    · obtain ⟨count, after⟩ := ih twin.cycle
      exact ⟨congrArg (· + 1) count, after⟩

theorem countTick (twin : r.Twin s) : r.countTick.Twin s.countTick := by
  obtain ⟨m, g⟩ := r
  obtain ⟨n, h⟩ := s
  obtain ⟨same, agree⟩ := twin
  dsimp only at same agree
  subst same
  simp only [Rig.countTick]
  split
  · exact ⟨rfl, agree⟩
  · exact ⟨rfl, agree⟩

theorem ticks (twin : r.Twin s) (done n : Nat) :
    (Rig.ticks done n s).1 = (Rig.ticks done n r).1 ∧ (Rig.ticks done n r).2.Twin (Rig.ticks done n s).2 := by
  induction n generalizing done r s with
  | zero => exact ⟨rfl, twin⟩
  | succ n ih =>
    obtain ⟨count, after⟩ := twin.countTick.cycles cyclesPerTick
    rw [ticks_succ, ticks_succ, Rig.tick, Rig.tick, count]
    exact ih after _

/-- Twins spend the same frame. -/
theorem frame (twin : r.Twin s) {elapsed : Duration} {f : Frame σ} (framed : r.frame elapsed = some f) :
    ∃ g, s.frame elapsed = some g ∧ f.rig.Twin g.rig ∧ g.cycles = f.cycles ∧ g.picture = f.picture := by
  obtain ⟨m, g⟩ := r
  obtain ⟨n, h⟩ := s
  obtain ⟨same, agree⟩ := twin
  dsimp only at same agree
  subst same
  by_cases running : n.running = true
  · cases advanced : n.scheduler.advance elapsed with
    | none =>
      rw [frame_of_endless running advanced] at framed
      cases framed
    | some passed =>
      obtain ⟨due, scheduler⟩ := passed
      have start : Twin ⟨{ n with scheduler := scheduler }, g⟩ ⟨{ n with scheduler := scheduler }, h⟩ :=
        ⟨rfl, agree⟩
      obtain ⟨count, after⟩ := start.ticks 0 due
      rw [frame_of_running running advanced] at framed ⊢
      obtain rfl := Option.some.inj framed
      exact ⟨_, rfl, after, count, by rw [after.machine]⟩
  · rw [Rig.frame, if_neg running] at framed ⊢
    obtain rfl := Option.some.inj framed
    exact ⟨_, rfl, ⟨rfl, agree⟩, rfl, rfl⟩

end Twin

end Rig

end PocketConsole
