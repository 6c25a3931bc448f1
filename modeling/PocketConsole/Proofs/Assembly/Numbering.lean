import PocketConsole.Proofs.Assembly.JumpTarget

namespace PocketConsole

namespace Draft

theorem isSome_labelAt?_iff (lines : List Nat) (id : UInt8) :
    (labelAt? lines id).isSome = true ↔ id.toNat < min lines.length 256 := by
  have bound := id.toNat_lt
  by_cases many : id = 0 ∧ 256 < lines.length
  · obtain ⟨rfl, many⟩ := many
    have nonempty : lines ≠ [] := by
      rintro rfl
      cases many
    obtain ⟨l, last⟩ := Option.ne_none_iff_exists'.1 (mt List.getLast?_eq_none_iff.1 nonempty)
    rw [labelAt?, if_pos ⟨rfl, many⟩, last, UInt8.toNat_zero]
    simp only [Option.isSome_some, true_iff]
    omega
  · rw [labelAt?, if_neg many, Option.isSome_iff_ne_none, ne_eq, List.getElem?_eq_none_iff]
    omega

end Draft

open Statement

/-- How the labels of a text are numbered: by their order as long as a byte counts them. All labels after
those are numbered 0, and 0 then leads to the last of them. -/
structure Numbered (ss : List Statement) (code : Code) : Prop where
  numbers : ∀ id : UInt8, (code.labels.get? id).isSome = true ↔ id.toNat < min (labelLines ss).length 256
  later : ∀ id : UInt8, id ≠ 0 → ∀ l : Nat, (labelLines ss)[id.toNat]? = some l →
    code.labels.get? id = some (.ofUInt16 (.ofNat l))
  first : (labelLines ss).length ≤ 256 → ∀ l : Nat, (labelLines ss)[0]? = some l →
    code.labels.get? 0 = some (.ofUInt16 (.ofNat l))
  last : 256 < (labelLines ss).length → ∀ l : Nat, (labelLines ss).getLast? = some l →
    code.labels.get? 0 = some (.ofUInt16 (.ofNat l))
  jumps : ∀ (j : Nat) (s : Statement) (op : Opcode), ss[j]? = some s → Opcode.ofName? s.word = some op →
    op.isJump = true → ∃ p : UInt8, code.tokens[j]? = some (.ofOpcode op p) ∧
      (s.operand.bind (lastDeclaration? (ss.take j)) = none → p = 0) ∧
      ∀ l, s.operand.bind (lastDeclaration? (ss.take j)) = some l →
        ∃ k, (labelLines ss)[k]? = some l ∧ p = if k < 256 then .ofNat k else 0

namespace Code

theorem get?_labels_ofStatements (ss : List Statement) (id : UInt8) :
    (ofStatements ss).labels.get? id =
      (Draft.labelAt? (labelLines ss) id).map fun l => Address.ofUInt16 (.ofNat l) :=
  (tables _ ss).targets id

/-- Every text has its labels numbered so, whatever their number and wherever they stand. -/
theorem numbered_ofSource (source : String) : Numbered (Statement.ofSource source.toList) (ofSource source) := by
  rw [ofSource]
  generalize Statement.ofSource source.toList = ss
  refine ⟨fun id => ?_, fun id other l line => ?_, fun few l line => ?_, fun many l line => ?_, ?_⟩
  · rw [get?_labels_ofStatements, Option.isSome_map, Draft.isSome_labelAt?_iff]
  · rw [get?_labels_ofStatements, Draft.labelAt?, if_neg fun zero => other zero.1, line]
    rfl
  · have fitted : ¬ ((0 : UInt8) = 0 ∧ 256 < (labelLines ss).length) := by omega
    rw [get?_labels_ofStatements, Draft.labelAt?, if_neg fitted, UInt8.toNat_zero, line]
    rfl
  · rw [get?_labels_ofStatements, Draft.labelAt?, if_pos ⟨rfl, many⟩, line]
    rfl
  · intro j s op line word family
    refine ⟨_, getElem?_tokens_of_jump line word family, fun undeclared => ?_, fun l declared => ?_⟩
    · rw [jumpNumber, undeclared]
      rfl
    · exact exists_place declared

/-- One label more than there are numbers: the last takes the first one's number. -/
theorem numbered_past_last_number :
    let source := String.ofList ((List.replicate 257 ":A\n".toList).flatten ++ "jump a".toList)
    (ofSource source).labels.get? 255 = some ⟨0, 255⟩ ∧ (ofSource source).labels.get? 0 = some ⟨1, 0⟩ ∧
      (ofSource source).tokens[257]? = some (.ofOpcode .jump 0) := by
  intro source
  have text : source.toList = (List.replicate 257 ":A\n".toList).flatten ++ "jump a".toList := String.toList_ofList
  have lines : labelLines (Statement.ofSource source.toList) = List.range 257 := by
    rw [text]
    decide +kernel
  have line : (Statement.ofSource source.toList)[257]? = some ⟨"jump".toList, some ['a']⟩ := by
    rw [text]
    decide +kernel
  have declared : (some ['a']).bind (lastDeclaration? ((Statement.ofSource source.toList).take 257)) = some 256 := by
    rw [text]
    decide +kernel
  have numbered := numbered_ofSource source
  refine ⟨numbered.later 255 (by decide) 255 ?_, numbered.last ?_ 256 ?_, ?_⟩
  · rw [lines]
    rfl
  · rw [lines, List.length_range]
    decide
  · rw [lines, List.getLast?_range]
    rfl
  · obtain ⟨p, token, -, named⟩ := numbered.jumps 257 _ .jump line (by decide) rfl
    obtain ⟨k, place, number⟩ := named 256 declared
    obtain ⟨bound, same⟩ := List.getElem?_eq_some_iff.1 (lines ▸ place)
    rw [List.getElem_range] at same
    rw [token, number, same]
    rfl

end Code

end PocketConsole
