import PocketConsole.Machine.Rig
import PocketConsole.Proofs.Memory.Regions

namespace PocketConsole

/-- The region that an operation other than a poke or a block read may change. -/
def Opcode.region? : Opcode → Option Region
  | const | push | pushr | add | sub | mul | div | mod | and | or | xor | not | lshft | rshft =>
    some .stack
  | load => some .saveData
  | pout => some .serialPins
  | send | recv => some .serialState
  | clear | draw => some .video
  | tone => some .audio
  | _ => none

namespace Machine

/-- The second machine differs from the first in its memory and its registers at most. -/
structure Alike (m n : Machine) : Prop where
  storage : n.storage = m.storage
  name : n.name = m.name
  labels : n.labels = m.labels
  running : n.running = m.running
  scheduler : n.scheduler = m.scheduler

namespace Alike

theorem refl (m : Machine) : m.Alike m :=
  ⟨rfl, rfl, rfl, rfl, rfl⟩

theorem trans {a b c : Machine} (first : a.Alike b) (second : b.Alike c) : a.Alike c where
  storage := second.storage.trans first.storage
  name := second.name.trans first.name
  labels := second.labels.trans first.labels
  running := second.running.trans first.running
  scheduler := second.scheduler.trans first.scheduler

theorem put (m : Machine) (r : Register) (v : UInt8) : m.Alike (m.put r v) :=
  ⟨rfl, rfl, rfl, rfl, rfl⟩

theorem goto (m : Machine) (a : Address) : m.Alike (m.goto a) :=
  (put m .pch a.high).trans (put _ .pcl a.low)

theorem writeIn (m : Machine) (r : Region) (offset : Nat) (data : List UInt8) :
    m.Alike (m.writeIn r offset data) :=
  ⟨rfl, rfl, rfl, rfl, rfl⟩

theorem push (m : Machine) (v : Int) : m.Alike (m.push v) :=
  ⟨rfl, rfl, rfl, rfl, rfl⟩

theorem setAt (m : Machine) (n : UInt8) (v : Int) : m.Alike (m.setAt n v) := by
  unfold Machine.setAt
  split
  · exact put m _ _
  · exact refl m

theorem dropTwo (m : Machine) : m.Alike m.drop.drop :=
  (put m .si _).trans (put _ .si _)

theorem combine (m : Machine) (o : Operator) : m.Alike (m.combine o) :=
  (dropTwo m).trans (push _ _)

theorem jump (m : Machine) (id : UInt8) : m.Alike (m.jump id) :=
  ((put m .rph _).trans (put _ .rpl _)).trans (goto _ _)

theorem branch (m : Machine) (c : Comparison) (id : UInt8) : m.Alike (m.branch c id) := by
  unfold Machine.branch
  split
  · exact (dropTwo m).trans (jump _ id)
  · exact dropTwo m

theorem read (m : Machine) (len : UInt8) : m.Alike (m.read len) := by
  unfold Machine.read
  split
  · exact put m .xa _
  · exact ⟨rfl, rfl, rfl, rfl, rfl⟩

/-- An operation changes nothing but memory and registers. -/
theorem perform (m : Machine) (op : Opcode) (p : UInt8) : m.Alike (m.perform op p) := by
  cases op
  case const | push | pushr => exact push m _
  case pop => exact (put m .xa _).trans (put _ .si _)
  case add | sub | mul | div | mod | and | or | xor | lshft | rshft => exact combine m _
  case not => exact (put m .si _).trans (push _ _)
  case mov => exact setAt m p _
  case maddr | saddr => exact (put m _ _).trans (put _ _ _)
  case read => exact read m p
  case poke => exact ⟨rfl, rfl, rfl, rfl, rfl⟩
  case goto | rtn => exact goto m _
  case jump => exact jump m p
  case jeq | jneq | jgt | jgte | jlt | jlte => exact branch m _ p
  case pout | send | clear | draw | tone => exact writeIn m _ _ _
  case recv => exact (put m .xa _).trans (writeIn _ _ _ _)
  case save | load | logr | logs | tile | spr | icon | print | rand | sin | cos | nop => exact refl m
  all_goals exact put m _ _

end Alike

/-! ### Memory outside of an operation's region -/

@[simp]
theorem memory_put (m : Machine) (r : Register) (v : UInt8) : (m.put r v).memory = m.memory := rfl

@[simp]
theorem memory_writeIn (m : Machine) (r : Region) (offset : Nat) (data : List UInt8) :
    (m.writeIn r offset data).memory = m.memory.writeIn r offset data := rfl

theorem memory_push (m : Machine) (v : Int) :
    (m.push v).memory = m.memory.writeIn .stack (m.get .si + 1).toNat [fit m.wraps v] := rfl

theorem memory_setAt (m : Machine) (n : UInt8) (v : Int) : (m.setAt n v).memory = m.memory := by
  unfold setAt
  split <;> rfl

theorem memory_branch (m : Machine) (c : Comparison) (id : UInt8) :
    (m.branch c id).memory = m.memory := by
  unfold branch
  split <;> rfl

/-- Where an operation writes through the memory pointer: a poke sets one byte there, a read of a
block as many as it reads. -/
def pointed (m : Machine) (op : Opcode) (p : UInt8) : Region :=
  match op with
  | .poke => ⟨m.memoryPointer, 1⟩
  | .read => ⟨m.memoryPointer, (m.storage.read m.storagePointer p.toNat).length⟩
  | _ => ⟨m.memoryPointer, 0⟩

theorem len_pointed {m : Machine} {op : Opcode} {p : UInt8} (noPoke : op ≠ .poke)
    (noBlock : op = .read → p = 0) : (m.pointed op p).len = 0 := by
  cases op
  case poke => exact absurd rfl noPoke
  case read =>
    obtain rfl := noBlock rfl
    exact (Bank.length_read _ _ _).trans (Nat.zero_min _)
  all_goals rfl

/-- A read of a block reaches no further than its data. -/
theorem get_memory_read (m : Machine) {p : UInt8} {x : Nat}
    (unpointed : ¬ (m.pointed .read p).Contains x) : (m.read p).memory.get x = m.memory.get x := by
  unfold read
  split
  · rfl
  · exact (Bank.get_write _ _ _ _).trans (dif_neg fun reached => unpointed ⟨reached.1, reached.2.1⟩)

/-- An operation leaves every address alone that is outside of its region and that it does not write
through the memory pointer. -/
theorem get_memory_perform (m : Machine) {op : Opcode} {p : UInt8} {x : Nat}
    (unpointed : ¬ (m.pointed op p).Contains x)
    (outside : ∀ r, op.region? = some r → ¬ r.Contains x) :
    (m.perform op p).memory.get x = m.memory.get x := by
  cases op
  case poke =>
    refine (Bank.get_set _ _ _ _).trans (if_neg fun reached => unpointed ?_)
    rw [reached.1]
    exact ⟨Nat.le_refl _, Nat.lt_succ_self _⟩
  case read => exact get_memory_read m unpointed
  case const | push | pushr | not | add | sub | mul | div | mod | and | or | xor | lshft | rshft =>
    exact Bank.get_writeIn_of_outside _ (outside _ rfl) _ _
  case pout | send | recv | clear | draw | tone =>
    simp only [perform, setSerial, receive, set, memory_writeIn, memory_put]
    exact Bank.get_writeIn_of_outside _ (outside _ rfl) _ _
  case mov => exact congrArg (Bank.get · x) (memory_setAt m _ _)
  case jeq | jneq | jgt | jgte | jlt | jlte => exact congrArg (Bank.get · x) (memory_branch m _ _)
  all_goals rfl

/-- The second machine has the bytes of the first in a region. -/
def SameIn (m n : Machine) (r : Region) : Prop :=
  ∀ x, r.Contains x → n.memory.get x = m.memory.get x

theorem SameIn.refl (m : Machine) (r : Region) : m.SameIn m r :=
  fun _ _ => rfl

theorem SameIn.trans {a b c : Machine} {r : Region} (first : a.SameIn b r) (second : b.SameIn c r) :
    a.SameIn c r :=
  fun x inside => (second x inside).trans (first x inside)

/-- A write into one region of memory leaves the others alone. -/
theorem sameIn_writeIn (m : Machine) {r own : Region} (named : r ∈ Region.all) (written : own ∈ Region.all)
    (other : r ≠ own) (offset : Nat) (data : List UInt8) : m.SameIn (m.writeIn own offset data) r := by
  have apart := Region.apart_of_mem_all r named own written other
  exact fun x inside =>
    Bank.get_writeIn_of_outside m.memory (apart.not_contains inside) offset data

end Machine

namespace Opcode

theorem mem_all_of_region? {op : Opcode} {r : Region} (own : op.region? = some r) : r ∈ Region.all := by
  cases op
  all_goals cases own
  all_goals decide

end Opcode

end PocketConsole
