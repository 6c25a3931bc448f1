import PocketConsole.Proofs.Machine.Contents
import PocketConsole.Proofs.Saves.RoundTrip

namespace PocketConsole

namespace Machine

/-- The next cycle saves under a name. -/
def Saves (m : Machine) (name : String) : Prop :=
  m.name = name ∧ ∃ p, m.next? = some (.save, p)

/-- The next cycle loads what is kept under a name. -/
def Loads (m : Machine) (name : String) : Prop :=
  m.name = name ∧ ∃ p, m.next? = some (.load, p)

end Machine

namespace SaveRecord

variable {σ : Type} [Store σ]

/-- What a store keeps under the name of a program. -/
def kept? (h : Host σ) (name : String) : Option (List UInt8) :=
  (read h).1.get? name

theorem kept?_congr {g h : Host σ} (same : g.store = h.store) : kept? g = kept? h := by
  funext name
  rw [kept?, kept?, fst_read, fst_read, same]

theorem kept?_write [LawfulStore σ] (r : SaveRecord) (h : Host σ) (name : String) :
    kept? (r.write h) name = r.get? name := by
  rw [kept?, fst_read, store_write, LawfulStore.get_set_self, Option.map_some, ofText_toText]
  rfl

end SaveRecord

namespace Rig

open SaveRecord (kept?)

variable {σ : Type} [Store σ]

/-- A number of machines take turns on one host, a cycle each. -/
def turns (host : Host σ) (ms : List Machine) : Host σ :=
  ms.foldl (fun h m => (cycle ⟨m, h⟩).host) host

theorem turns_append (host : Host σ) (earlier later : List Machine) :
    turns host (earlier ++ later) = turns (turns host earlier) later :=
  List.foldl_append

/-- A cycle that does not save leaves the store alone. -/
theorem store_cycle {m : Machine} (noSave : ∀ p, m.next? ≠ some (.save, p)) (host : Host σ) :
    (cycle ⟨m, host⟩).host.store = host.store := by
  cases next : m.next? with
  | none => exact (cycle_of_next_none next host).choose_spec.2
  | some carried =>
    obtain ⟨op, p⟩ := carried
    have notSave : op ≠ .save := by
      rintro rfl
      exact noSave p next
    rw [cycle_of_next next]
    by_cases load : op = .load
    · subst load
      exact store_restore _
    rw [perform_eq _ notSave load]
    exact Host.store_noteAll _ _

theorem cycle_of_saves {m : Machine} {name : String} (saves : m.Saves name) (host : Host σ) :
    cycle ⟨m, host⟩ = save ⟨m.past, host⟩ := by
  obtain ⟨-, p, next⟩ := saves
  exact cycle_of_next next host

theorem cycle_of_loads {m : Machine} {name : String} (loads : m.Loads name) (host : Host σ) :
    cycle ⟨m, host⟩ = restore ⟨m.past, host⟩ := by
  obtain ⟨-, p, next⟩ := loads
  exact cycle_of_next next host

/-- A save is kept, beside what has been kept under other names. -/
theorem kept?_save [LawfulStore σ] (r : Rig σ) (name : String) :
    kept? r.save.host name =
      if r.machine.name = name then some (r.machine.memory.slice .saveData)
      else kept? r.host name := by
  have written : kept? r.save.host name =
      ((SaveRecord.read r.host).1.insert r.machine.name (r.machine.memory.slice .saveData)).get? name :=
    SaveRecord.kept?_write _ _ name
  rw [written]
  exact SortedMap.get?_insert _ _ _ _

theorem kept?_cycle_of_saves [LawfulStore σ] {m : Machine} {name : String} (saves : m.Saves name)
    (host : Host σ) : kept? (cycle ⟨m, host⟩).host name = some (m.memory.slice .saveData) := by
  rw [cycle_of_saves saves, kept?_save]
  exact if_pos saves.1

/-- What is kept under a name changes only when a program of that name saves. -/
theorem kept?_cycle [LawfulStore σ] {m : Machine} {name : String} (other : ¬ m.Saves name)
    (host : Host σ) : kept? (cycle ⟨m, host⟩).host name = kept? host name := by
  by_cases saves : ∃ p, m.next? = some (.save, p)
  · have apart : m.past.name ≠ name := fun same => other ⟨same, saves⟩
    rw [cycle_of_saves ⟨rfl, saves⟩, kept?_save, if_neg apart]
  · have noSave : ∀ p, m.next? ≠ some (.save, p) := fun p next => saves ⟨p, next⟩
    rw [SaveRecord.kept?_congr (store_cycle noSave host)]

theorem kept?_turns [LawfulStore σ] {ms : List Machine} {name : String}
    (others : ∀ m ∈ ms, ¬ m.Saves name) (host : Host σ) :
    kept? (turns host ms) name = kept? host name := by
  induction ms generalizing host with
  | nil => rfl
  | cons m more ih =>
    have rest := ih (fun k member => others k (List.mem_cons_of_mem _ member)) (cycle ⟨m, host⟩).host
    exact rest.trans (kept?_cycle (others m List.mem_cons_self) host)

theorem slice_writeIn_blank (m : Memory) (data : List UInt8) :
    ((m.writeIn .saveData 0 (List.replicate Region.saveData.len 0)).writeIn .saveData 0 data).slice
      .saveData = (data.take 256).rightpad 256 0 := by
  have inside : Region.saveData.stop ≤ 3200 := by decide
  have len : Region.saveData.len = 256 := rfl
  apply List.ext_getElem?
  intro i
  rw [Bank.getElem?_slice _ inside, List.rightpad, List.getElem?_append, List.length_take]
  by_cases below : i < Region.saveData.len
  · have blank : (List.replicate Region.saveData.len (0 : UInt8))[i]? = some 0 := by
      rw [List.getElem?_replicate, if_pos below]
    rw [if_pos below, Bank.get_writeIn_zero _ inside below, Bank.get_writeIn_zero _ inside below, blank]
    by_cases given : i < data.length
    · rw [if_pos (by omega), List.getElem?_take_of_lt (by omega), List.getElem?_eq_getElem given]
      rfl
    · rw [if_neg (by omega), List.getElem?_eq_none (Nat.le_of_not_lt given), List.getElem?_replicate,
        if_pos (by omega)]
      rfl
  · rw [if_neg below, if_neg (by omega), List.getElem?_replicate, if_neg (by omega)]

/-- The window of a load: the first bytes of what is kept, and zeros after them. -/
theorem slice_restore (r : Rig σ) :
    r.restore.machine.memory.slice .saveData =
      (((kept? r.host r.machine.name).getD []).take 256).rightpad 256 0 := by
  rw [restore]
  simp only [Machine.memory_writeIn]
  rw [slice_writeIn_blank, kept?]

theorem memory_cycle_of_saves {m : Machine} {name : String} (saves : m.Saves name) (host : Host σ) :
    (cycle ⟨m, host⟩).machine.memory = m.memory := by
  rw [cycle_of_saves saves, machine_save]
  rfl

theorem get_memory_cycle_of_loads {m : Machine} {name : String} (loads : m.Loads name) (host : Host σ)
    {x : Nat} (outside : ¬ Region.saveData.Contains x) :
    (cycle ⟨m, host⟩).machine.memory.get x = m.memory.get x := by
  rw [cycle_of_loads loads, get_memory_restore _ outside]
  rfl

theorem slice_cycle_of_loads {m : Machine} {name : String} (loads : m.Loads name) (host : Host σ) :
    (cycle ⟨m, host⟩).machine.memory.slice .saveData =
      (((kept? host name).getD []).take 256).rightpad 256 0 := by
  have past : m.past.name = name := loads.1
  rw [cycle_of_loads loads, slice_restore, past]

/-- What a load makes of a machine depends on what is kept under its name and on nothing else of the
host. -/
theorem machine_cycle_of_loads {m : Machine} {name : String} (loads : m.Loads name) {g h : Host σ}
    (same : kept? g name = kept? h name) :
    (cycle ⟨m, g⟩).machine = (cycle ⟨m, h⟩).machine := by
  have restored : ∀ host : Host σ, (cycle ⟨m, host⟩).machine =
      (m.past.writeIn .saveData 0 (List.replicate Region.saveData.len 0)).writeIn .saveData 0
        ((kept? host name).getD []) := by
    intro host
    have past : m.past.name = name := loads.1
    rw [cycle_of_loads loads, restore, kept?, ← past]
  rw [restored, restored, same]

/-- A window saved is kept whole. -/
theorem rightpad_slice (m : Memory) :
    ((m.slice .saveData).take 256).rightpad 256 0 = m.slice .saveData := by
  have length := m.length_slice (r := .saveData) (by decide)
  have len : Region.saveData.len = 256 := rfl
  rw [List.take_of_length_le (by omega), List.rightpad, length, len]
  exact List.append_nil _

/-- However programs take turns at saving and loading, a load brings back the window of the latest save
under its name, or else what the store has been given to start with. A save changes no memory, a load
none outside of the window, and neither changes what is loaded under another name. -/
theorem window_of_loads [LawfulStore σ] (host : Host σ) (earlier : List Machine) :
    (∀ m name, Machine.Loads m name →
      let after := (cycle ⟨m, turns host earlier⟩).machine
      (∀ before saver between, earlier = before ++ saver :: between → saver.Saves name →
          (∀ k ∈ between, ¬ k.Saves name) →
          after.memory.slice .saveData = saver.memory.slice .saveData) ∧
        ((∀ k ∈ earlier, ¬ k.Saves name) → ∀ entry, (SaveRecord.read host).1.get? name = some entry →
          after.memory.slice .saveData = (entry.take 256).rightpad 256 0) ∧
        ((∀ k ∈ earlier, ¬ k.Saves name) → (SaveRecord.read host).1.get? name = none →
          after.memory.slice .saveData = List.replicate 256 0) ∧
        (∀ x, ¬ Region.saveData.Contains x → after.memory.get x = m.memory.get x) ∧
        ∀ k other, k.Saves other ∨ k.Loads other → other ≠ name →
          (cycle ⟨m, (cycle ⟨k, turns host earlier⟩).host⟩).machine = after) ∧
      ∀ m name, Machine.Saves m name → (cycle ⟨m, turns host earlier⟩).machine.memory = m.memory := by
  refine ⟨fun m name loads => ⟨?_, ?_, ?_, ?_, ?_⟩, fun m name saves => memory_cycle_of_saves saves _⟩
  · rintro before saver between rfl saves others
    -- the turns since the save have kept what it left in the store
    have kept : kept? (turns host (before ++ saver :: between)) name =
        some (saver.memory.slice .saveData) := by
      rw [turns_append]
      exact (kept?_turns others _).trans (kept?_cycle_of_saves saves _)
    rw [slice_cycle_of_loads loads, kept, Option.getD_some, rightpad_slice]
  · intro others entry given
    have kept := (kept?_turns others host).trans given
    rw [slice_cycle_of_loads loads, kept, Option.getD_some]
  · intro others absent
    have kept := (kept?_turns others host).trans absent
    rw [slice_cycle_of_loads loads, kept]
    rfl
  · intro x outside
    exact get_memory_cycle_of_loads loads _ outside
  · intro k other acts apart
    have named : k.name = other := acts.elim And.left And.left
    have notSaved : ¬ k.Saves name := fun saves => apart (named.symm.trans saves.1)
    exact machine_cycle_of_loads loads (kept?_cycle notSaved _)

/-- One machine loads what another of the same name has saved. -/
theorem window_of_load_after_save :
    let program : Opcode → Program := fun op => { name := "pet", code := ⟨[.ofOpcode op 0], .empty⟩ }
    let saver := (Machine.ofProgram (program .save)).writeIn .saveData 3 [7]
    let m := Machine.ofProgram (program .load)
    let host : Host Shelf := ⟨.empty, #[]⟩
    (cycle ⟨m, turns host [saver]⟩).machine.memory.slice .saveData = saver.memory.slice .saveData := by
  intro program saver m host
  have next : ∀ op, (Machine.ofProgram (program op)).next? = some (op, 0) := fun op =>
    Machine.next?_ofProgram rfl (show 1 ≤ 32768 by decide)
  have kept : ∀ (m : Machine) data, (m.writeIn .saveData 3 data).next? = m.next? := fun _ _ => rfl
  have saves : saver.Saves "pet" := ⟨rfl, 0, (kept _ [7]).trans (next .save)⟩
  have loads : m.Loads "pet" := ⟨rfl, 0, next .load⟩
  exact ((window_of_loads host [saver]).1 m "pet" loads).1 [] saver [] rfl saves (by simp)

end Rig

end PocketConsole
