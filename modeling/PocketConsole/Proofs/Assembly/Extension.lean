import PocketConsole.Proofs.Assembly.JumpTarget
import PocketConsole.Proofs.Assembly.Words

namespace PocketConsole

namespace Statement

theorem labelLines_append (ss more : List Statement) :
    labelLines (ss ++ more) = labelLines ss ++ more.findIdxs isLabel ss.length := by
  simp only [labelLines, List.findIdxs_append, Nat.zero_add]

theorem length_labelLines_append (ss more : List Statement) :
    (labelLines (ss ++ more)).length = (labelLines ss).length + (labelLines more).length := by
  simp only [length_labelLines, List.countP_append]

end Statement

/-- Statements that define no constant leave the constants of a text as they are. -/
theorem Constants.ofStatements_append (ss : List Statement) {more : List Statement}
    (silent : ∀ s ∈ more, s.isConstant = false) : ofStatements (ss ++ more) = ofStatements ss := by
  rw [ofStatements, List.foldl_append, ← ofStatements]
  induction more with
  | nil => rfl
  | cons s more ih =>
    have plain := silent s List.mem_cons_self
    rw [List.foldl_cons, if_neg (by simp [plain])]
    exact ih fun t member => silent t (List.mem_cons_of_mem _ member)

namespace Draft

/-- A draft keeps its tokens, whatever statements are added. -/
theorem tokens_prefix_foldl (constants : Constants) (d : Draft) (ss : List Statement) :
    d.tokens.toList <+: (ss.foldl (Draft.add constants) d).tokens.toList := by
  induction ss generalizing d with
  | nil => exact List.prefix_refl _
  | cons s more ih =>
    have added : d.tokens.toList <+: (d.add constants s).tokens.toList := by
      rw [tokens_add, Array.toList_push]
      exact List.prefix_append _ _
    exact added.trans (ih _)

end Draft

namespace Code

open Statement

variable {ss more : List Statement}

theorem tokens_prefix_append (silent : ∀ s ∈ more, s.isConstant = false) :
    (ofStatements ss).tokens <+: (ofStatements (ss ++ more)).tokens := by
  simp only [ofStatements, Constants.ofStatements_append ss silent, List.foldl_append]
  exact Draft.tokens_prefix_foldl _ _ _

/-- As long as there are numbers for all labels, those of a text keep their addresses when it goes on. -/
theorem get?_labels_append (few : (labelLines (ss ++ more)).length ≤ 256) {id : UInt8} {a : Address}
    (found : (ofStatements ss).labels.get? id = some a) : (ofStatements (ss ++ more)).labels.get? id = some a := by
  have lengths := length_labelLines_append ss more
  rw [get?_labels (by omega)] at found
  obtain ⟨l, line, rfl⟩ := Option.map_eq_some_iff.1 found
  have inside := (List.getElem?_eq_some_iff.1 line).1
  rw [get?_labels few, labelLines_append, List.getElem?_append_left inside, line]
  rfl

/-- A text that goes on from a new line, without defining constants, keeps the tokens it had; and as long as
there are numbers for all labels, its labels keep their addresses. -/
theorem ofSource_extended (before after : String)
    (silent : ∀ s ∈ Statement.ofSource after.toList, s.isConstant = false) :
    (ofSource before).tokens <+: (ofSource (before ++ "\n" ++ after)).tokens ∧
      ((labelLines (Statement.ofSource before.toList)).length +
          (labelLines (Statement.ofSource after.toList)).length ≤ 256 →
        ∀ id a, (ofSource before).labels.get? id = some a →
          (ofSource (before ++ "\n" ++ after)).labels.get? id = some a) := by
  have statements : Statement.ofSource (before ++ "\n" ++ after).toList =
      Statement.ofSource before.toList ++ Statement.ofSource after.toList := by
    rw [String.toList_append, String.toList_append, List.append_assoc]
    exact ofSource_append_feed _ _
  simp only [ofSource, statements]
  refine ⟨tokens_prefix_append silent, fun few id a found => get?_labels_append ?_ found⟩
  rwa [length_labelLines_append]

/-- The first text ends without a line feed; the second has a label of its own, uses the constant of the first
and gives it another value in a comment only. -/
theorem ofSource_extended_of_parts :
    let before := "$n 3\n:top\nset $N\njump top"
    let after := ":more\nset $n\n# $n 4\njump more\njump TOP\n"
    (∀ s ∈ Statement.ofSource after.toList, s.isConstant = false) ∧
      (ofSource before).tokens <+: (ofSource (before ++ "\n" ++ after)).tokens ∧
      (ofSource (before ++ "\n" ++ after)).labels.get? 0 = some ⟨0, 1⟩ := by
  intro before after
  have silent : ∀ s ∈ Statement.ofSource after.toList, s.isConstant = false := by decide
  have top : (ofSource before).labels.get? 0 = some ⟨0, 1⟩ := by decide
  obtain ⟨tokens, labels⟩ := ofSource_extended before after silent
  exact ⟨silent, tokens, labels (by decide) 0 ⟨0, 1⟩ top⟩

end Code

end PocketConsole
