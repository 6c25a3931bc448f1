import PocketConsole.Proofs.Json.Grammar

namespace PocketConsole

namespace Json

open JsonText (Piece characters?)

mutual

/-- The value that a tree stands for, if it is within the limits: numbers are in range, halves come in
pairs, and there is room for the arrays and objects around one another. -/
def Tree.value? : Nat → Tree → Option Json
  | _, .null => some .null
  | _, .bool b => some (.bool b)
  | _, .number n => if n.inRange then some (.number n) else none
  | _, .text ps => (characters? ps).map fun s => .text (String.ofList s)
  | 0, .array _ => none
  | room + 1, .array items => (Tree.items? room items).map .array
  | 0, .object _ => none
  | room + 1, .object members => (Tree.members? room members).map .object

def Tree.items? : Nat → List Tree → Option (List Json)
  | _, [] => some []
  | room, t :: more => do return (← t.value? room) :: (← Tree.items? room more)

def Tree.members? : Nat → List (List Piece × Tree) → Option (List (String × Json))
  | _, [] => some []
  | room, (ps, t) :: more => do
    return (String.ofList (← characters? ps), ← t.value? room) :: (← Tree.members? room more)

end

/-- Within the limits, with room for so many arrays and objects around one another. -/
inductive Tree.Within : Nat → Tree → Prop
  | null {room : Nat} : Within room .null
  | bool {room : Nat} {b : Bool} : Within room (.bool b)
  | number {room : Nat} {n : Numeral} : n.inRange = true → Within room (.number n)
  | text {room : Nat} {ps : List Piece} : (characters? ps).isSome → Within room (.text ps)
  | array {room : Nat} {items : List Tree} : (∀ t ∈ items, Within room t) →
      Within (room + 1) (.array items)
  | object {room : Nat} {members : List (List Piece × Tree)} :
      (∀ m ∈ members, (characters? m.1).isSome) → (∀ m ∈ members, Within room m.2) →
      Within (room + 1) (.object members)

theorem Tree.isSome_items?_iff {room : Nat} {items : List Tree} :
    (items? room items).isSome ↔ ∀ t ∈ items, (t.value? room).isSome := by
  induction items with
  | nil => simp [items?]
  | cons t more ih =>
    rw [items?, List.forall_mem_cons, ← ih]
    cases value? room t <;> cases items? room more <;> simp

theorem Tree.isSome_members?_iff {room : Nat} {members : List (List Piece × Tree)} :
    (members? room members).isSome ↔
      (∀ m ∈ members, (characters? m.1).isSome) ∧ ∀ m ∈ members, (m.2.value? room).isSome := by
  induction members with
  | nil => simp [members?]
  | cons m more ih =>
    obtain ⟨ps, t⟩ := m
    rw [members?, List.forall_mem_cons, List.forall_mem_cons, and_and_and_comm, ← ih]
    cases characters? ps <;> cases value? room t <;> cases members? room more <;> simp

theorem Tree.isSome_value? {room : Nat} {t : Tree} (within : t.Within room) : (t.value? room).isSome := by
  induction within with
  | null => rfl
  | bool => rfl
  | number range => rw [value?, if_pos range]; rfl
  | text pairs => rwa [value?, Option.isSome_map]
  | array _ ih => rw [value?, Option.isSome_map]; exact isSome_items?_iff.2 ih
  | object names _ ih => rw [value?, Option.isSome_map]; exact isSome_members?_iff.2 ⟨names, ih⟩

/-- What holds of a tree if it holds of its items and members holds of all trees. -/
theorem Tree.induction {motive : Tree → Prop} (null : motive .null) (bool : ∀ b, motive (.bool b))
    (number : ∀ n, motive (.number n)) (text : ∀ ps, motive (.text ps))
    (array : ∀ items, (∀ t ∈ items, motive t) → motive (.array items))
    (object : ∀ members, (∀ m ∈ members, motive m.2) → motive (.object members)) : ∀ t, motive t
  | .null => null
  | .bool b => bool b
  | .number n => number n
  | .text ps => text ps
  | .array items => array items fun t _member => induction null bool number text array object t
  | .object members => object members fun m _member => induction null bool number text array object m.2
termination_by t => sizeOf t
decreasing_by
  · have smaller := List.sizeOf_lt_of_mem _member
    rw [Tree.array.sizeOf_spec]
    omega
  · have smaller := List.sizeOf_lt_of_mem _member
    have part : sizeOf m = 1 + sizeOf m.1 + sizeOf m.2 := Prod.mk.sizeOf_spec m.1 m.2
    rw [Tree.object.sizeOf_spec]
    omega

theorem Tree.within_of_isSome_value? {room : Nat} {t : Tree} (valued : (t.value? room).isSome) :
    t.Within room := by
  induction t using Tree.induction generalizing room with
  | null => exact .null
  | bool b => exact .bool
  | number n =>
    rw [value?] at valued
    split at valued
    · exact .number ‹_›
    · cases valued
  | text ps =>
    rw [value?, Option.isSome_map] at valued
    exact .text valued
  | array items ih =>
    cases room with
    | zero => cases valued
    | succ room =>
      rw [value?, Option.isSome_map, isSome_items?_iff] at valued
      exact .array fun t member => ih t member (valued t member)
  | object members ih =>
    cases room with
    | zero => cases valued
    | succ room =>
      rw [value?, Option.isSome_map, isSome_members?_iff] at valued
      exact .object valued.1 fun m member => ih m member (valued.2 m member)

end Json

end PocketConsole
