import Mathlib.Data.List.Basic
import Mathlib.Data.List.Induction
import PocketConsole.Assembly.Basic

namespace PocketConsole

namespace SortedMap

variable {κ ν : Type} [LE κ] [LT κ] [DecidableLT κ] [DecidableEq κ] [Std.IsLinearOrder κ]
  [Std.LawfulOrderLT κ]

theorem length_place (k : κ) (v : ν) {es : List (κ × ν)}
    (sorted : es.Pairwise fun a b => a.1 < b.1) :
    (place k v es).length =
      if (es.find? fun e => e.1 = k).isSome then es.length else es.length + 1 := by
  induction es with
  | nil => rfl
  | cons e more ih =>
    obtain ⟨above, rest⟩ := List.pairwise_cons.1 sorted
    have next := ih rest
    rw [place]
    split
    · rename_i less
      have absent : ∀ d ∈ e :: more, ¬ d.1 = k := by
        rintro d member rfl
        rcases List.mem_cons.1 member with rfl | later
        · exact Std.lt_irrefl less
        · exact Std.lt_irrefl (Std.lt_trans less (above d later))
      rw [List.find?_eq_none.2 (by simpa using absent)]
      rfl
    · split
      · rename_i same
        simp [same]
      · rename_i other
        have apart : ¬ e.1 = k := fun same => other same.symm
        rw [List.find?_cons_of_neg (by simpa using apart), List.length_cons, next, List.length_cons]
        split <;> rfl

theorem size_insert (m : SortedMap κ ν) (k : κ) (v : ν) :
    (m.insert k v).size = if (m.get? k).isSome then m.size else m.size + 1 := by
  simp only [size, insert, get?, length_place k v m.sorted, Option.isSome_map]

end SortedMap

namespace Statement

/-- Whether the statement declares a label. -/
def isLabel (s : Statement) : Bool :=
  s.label?.isSome

/-- Whether the statement declares a label of a name, in whatever case it is written. -/
def declares (name : List Char) (s : Statement) : Bool :=
  s.label?.any fun label => Text.sameLetters label name

/-- Where the labels of a text stand, in order. -/
def labelLines (ss : List Statement) : List Nat :=
  ss.findIdxs isLabel

/-- Where a label of a name is declared last. -/
def lastDeclaration? (ss : List Statement) (name : List Char) : Option Nat :=
  (ss.findIdxs (declares name)).getLast?

theorem labelLines_concat (ss : List Statement) (s : Statement) :
    labelLines (ss ++ [s]) = labelLines ss ++ if s.isLabel then [ss.length] else [] := by
  simp only [labelLines, List.findIdxs_append, Nat.zero_add, List.findIdxs_singleton]

theorem length_labelLines (ss : List Statement) : (labelLines ss).length = ss.countP isLabel :=
  List.length_findIdxs

theorem lastDeclaration?_concat (ss : List Statement) (s : Statement) (name : List Char) :
    lastDeclaration? (ss ++ [s]) name =
      if s.declares name then some ss.length else lastDeclaration? ss name := by
  simp only [lastDeclaration?, List.findIdxs_append, Nat.zero_add, List.findIdxs_singleton]
  split <;> simp

theorem lastDeclaration?_lt {ss : List Statement} {name : List Char} {i : Nat}
    (last : lastDeclaration? ss name = some i) : i < ss.length := by
  have member := List.mem_of_getLast? last
  obtain ⟨bound, -⟩ := List.mem_findIdxs_iff_exists_getElem_pos.1 member
  exact bound

/-- The last declaration of a name declares it, and no later statement does. -/
theorem lastDeclaration?_eq_some_iff {ss : List Statement} {name : List Char} {i : Nat} :
    lastDeclaration? ss name = some i ↔
      (∃ s, ss[i]? = some s ∧ s.declares name) ∧
        ∀ k s, i < k → ss[k]? = some s → ¬ s.declares name := by
  induction ss using List.reverseRec with
  | nil => simp [lastDeclaration?]
  | append_singleton ss s ih =>
    rw [lastDeclaration?_concat]
    by_cases here : s.declares name
    · rw [if_pos here, Option.some_inj]
      constructor
      · rintro rfl
        refine ⟨⟨s, by simp, here⟩, fun k t later found => ?_⟩
        have beyond : (ss ++ [s]).length ≤ k := by
          rw [List.length_append, List.length_singleton]
          omega
        rw [List.getElem?_eq_none beyond] at found
        cases found
      · rintro ⟨⟨t, found, -⟩, none⟩
        have bound := (List.getElem?_eq_some_iff.1 found).1
        rw [List.length_append, List.length_singleton] at bound
        by_cases last : i = ss.length
        · exact last.symm
        · exact absurd here (none ss.length s (by omega) (by simp))
    · rw [if_neg here, ih]
      constructor
      · rintro ⟨⟨t, found, declared⟩, none⟩
        have bound := (List.getElem?_eq_some_iff.1 found).1
        refine ⟨⟨t, by rw [List.getElem?_append_left bound, found], declared⟩, fun k u later at_ => ?_⟩
        by_cases old : k < ss.length
        · rw [List.getElem?_append_left old] at at_
          exact none k u later at_
        · have last : k = ss.length := by
            have upper := (List.getElem?_eq_some_iff.1 at_).1
            rw [List.length_append, List.length_singleton] at upper
            omega
          subst last
          have same : s = u := by simpa using at_
          exact same ▸ here
      · rintro ⟨⟨t, found, declared⟩, none⟩
        have bound : i < ss.length := by
          have upper := (List.getElem?_eq_some_iff.1 found).1
          rw [List.length_append, List.length_singleton] at upper
          by_cases last : i = ss.length
          · subst last
            have same : s = t := by simpa using found
            exact absurd (same ▸ declared) here
          · omega
        rw [List.getElem?_append_left bound] at found
        refine ⟨⟨t, found, declared⟩, fun k u later at_ => none k u later ?_⟩
        rw [List.getElem?_append_left (List.getElem?_eq_some_iff.1 at_).1, at_]

end Statement

namespace Draft

open Statement

/-- The number of the label that comes after a number of others. -/
def labelNumber (before : Nat) : UInt8 :=
  if before < 256 then UInt8.ofNat before else 0

/-- The label that a number leads to: once the numbers have run out, 0 leads to the latest. -/
def labelAt? (lines : List Nat) (id : UInt8) : Option Nat :=
  if id = 0 ∧ 256 < lines.length then lines.getLast? else lines[id.toNat]?

theorem labelNumber_eq_ofNat_min (before : Nat) :
    labelNumber before = UInt8.ofNat (min before 256) := by
  unfold labelNumber
  split
  · rw [Nat.min_eq_left (by omega)]
  · rw [Nat.min_eq_right (by omega)]
    rfl

theorem toNat_labelNumber {before : Nat} (few : before < 256) :
    (labelNumber before).toNat = before := by
  rw [labelNumber, if_pos few, UInt8.toNat_ofNat']
  exact Nat.mod_eq_of_lt few

/-- One more label gets the next number, and takes it from the label that had it. -/
theorem labelAt?_concat (lines : List Nat) (line : Nat) (id : UInt8) :
    labelAt? (lines ++ [line]) id =
      if labelNumber lines.length = id then some line else labelAt? lines id := by
  have bound := id.toNat_lt
  -- while numbers last the new label gets a free one, and from then on they all share 0
  by_cases few : lines.length < 256
  · have fits : ¬ (id = 0 ∧ 256 < (lines ++ [line]).length) := by
      rw [List.length_append, List.length_singleton]
      omega
    have fitted : ¬ (id = 0 ∧ 256 < lines.length) := by omega
    rw [labelAt?, labelAt?, if_neg fits, if_neg fitted]
    by_cases here : labelNumber lines.length = id
    · rw [if_pos here, ← here, toNat_labelNumber few]
      simp
    · have apart : id.toNat ≠ lines.length := by
        intro same
        exact here (UInt8.toNat_inj.1 ((toNat_labelNumber few).trans same.symm))
      rw [if_neg here]
      by_cases old : id.toNat < lines.length
      · rw [List.getElem?_append_left old]
      · have beyond : (lines ++ [line]).length ≤ id.toNat := by
          rw [List.length_append, List.length_singleton]
          omega
        rw [List.getElem?_eq_none beyond, List.getElem?_eq_none (by omega)]
  · have zero : labelNumber lines.length = 0 := if_neg few
    rw [zero, labelAt?]
    by_cases here : 0 = id
    · have full : id = 0 ∧ 256 < (lines ++ [line]).length := by
        refine ⟨here.symm, ?_⟩
        rw [List.length_append, List.length_singleton]
        omega
      rw [if_pos full, if_pos here, List.getLast?_concat]
    · rw [if_neg fun h => here h.1.symm, if_neg here, labelAt?, if_neg fun h => here h.1.symm,
        List.getElem?_append_left (by omega)]

theorem isSome_labelAt?_labelNumber (lines : List Nat) :
    (labelAt? lines (labelNumber lines.length)).isSome = decide (256 ≤ lines.length) := by
  by_cases few : lines.length < 256
  · have fitted : ¬ (labelNumber lines.length = 0 ∧ 256 < lines.length) := by omega
    rw [labelAt?, if_neg fitted, toNat_labelNumber few, List.getElem?_eq_none (Nat.le_refl _)]
    simp [few]
  · have zero : labelNumber lines.length = 0 := if_neg few
    rw [labelAt?, zero]
    split
    · cases lines with
      | nil => simp at few
      | cons => simp_all
    · rw [List.getElem?_eq_getElem (show (0 : UInt8).toNat < lines.length by
        rw [UInt8.toNat_zero]
        omega)]
      simp only [Option.isSome_some, true_eq_decide_iff]
      omega

/-- What a draft knows of the statements it has taken in. -/
structure Tables (ss : List Statement) (d : Draft) : Prop where
  tokens : d.tokens.size = ss.length
  size : d.labels.size = min (labelLines ss).length 256
  targets : ∀ id, d.labels.get? id =
    (labelAt? (labelLines ss) id).map fun i => Address.ofUInt16 (UInt16.ofNat i)
  numbers : ∀ name, d.numbers[Text.caseless name]? =
    (lastDeclaration? ss name).map fun i => labelNumber ((ss.take i).countP isLabel)

theorem Tables.start : Tables [] {} where
  tokens := rfl
  size := rfl
  targets _ := by
    simp [labelLines, labelAt?, SortedMap.get?_empty]
  numbers _ := by
    simp [lastDeclaration?]

/-- The token that a draft adds for a statement. -/
def token (constants : Constants) (d : Draft) (s : Statement) : Token :=
  match s.label? with
  | some _ => .ofOpcode .nop (((constants.number? s.operand).map Literal.toByte).getD 0)
  | none =>
    let op := (Opcode.ofName? s.word).getD .nop
    .ofOpcode op (d.parameter constants op s.operand)

theorem tokens_add (constants : Constants) (d : Draft) (s : Statement) :
    (d.add constants s).tokens = d.tokens.push (d.token constants s) := by
  cases label : s.label? <;> simp only [add, token, addLabel, label]

theorem add_of_not_label (constants : Constants) (d : Draft) {s : Statement}
    (plain : s.isLabel = false) :
    (d.add constants s).labels = d.labels ∧ (d.add constants s).numbers = d.numbers := by
  have none : s.label? = none := by simpa [isLabel] using plain
  simp only [add, none, and_self]

/-- Taking in one more statement keeps the tables right. -/
theorem Tables.add {ss : List Statement} {d : Draft} (tables : Tables ss d) (constants : Constants)
    (s : Statement) : Tables (ss ++ [s]) (d.add constants s) := by
  have grown : (d.add constants s).tokens.size = (ss ++ [s]).length := by
    rw [size_tokens_add, tables.tokens, List.length_append, List.length_singleton]
  have kept (name : List Char) :
      ((lastDeclaration? ss name).map fun i => labelNumber (((ss ++ [s]).take i).countP isLabel)) =
        (lastDeclaration? ss name).map fun i => labelNumber ((ss.take i).countP isLabel) := by
    apply Option.map_congr
    intro i last
    rw [List.take_append_of_le_length (Nat.le_of_lt (lastDeclaration?_lt (Option.mem_def.1 last)))]
  cases label : s.label? with
  | none =>
    have plain : s.isLabel = false := by simp [isLabel, label]
    have silent (name : List Char) : s.declares name = false := by simp [declares, label]
    obtain ⟨sameLabels, sameNumbers⟩ := add_of_not_label constants d plain
    refine ⟨grown, ?_, fun id => ?_, fun name => ?_⟩
    · simp only [sameLabels, tables.size, labelLines_concat, plain, Bool.false_eq_true, if_false,
        List.append_nil]
    · simp only [sameLabels, tables.targets, labelLines_concat, plain, Bool.false_eq_true, if_false,
        List.append_nil]
    · rw [sameNumbers, tables.numbers, lastDeclaration?_concat, if_neg (by simp [silent]), kept]
  | some name =>
    have isLabel : s.isLabel = true := by simp [isLabel, label]
    have number : UInt8.ofNat d.labels.size = labelNumber (labelLines ss).length := by
      rw [tables.size, labelNumber_eq_ofNat_min]
    have added : d.add constants s =
        d.addLabel name (((constants.number? s.operand).map Literal.toByte).getD 0) := by
      simp only [Draft.add, label]
    have lines : labelLines (ss ++ [s]) = labelLines ss ++ [ss.length] := by
      rw [labelLines_concat, if_pos isLabel]
    refine ⟨grown, ?_, fun id => ?_, fun other => ?_⟩
    · rw [added, addLabel, SortedMap.size_insert, number, tables.targets, Option.isSome_map,
        isSome_labelAt?_labelNumber, tables.size, lines, List.length_append, List.length_singleton]
      simp only [decide_eq_true_eq]
      split <;> omega
    · rw [added, addLabel, SortedMap.get?_insert, number, tables.targets, lines, labelAt?_concat,
        tables.tokens]
      split <;> rfl
    · have declared : s.declares other = (Text.caseless name == Text.caseless other) := by
        rw [Bool.eq_iff_iff, beq_iff_eq, Text.caseless_eq_iff]
        simp [declares, label]
      rw [added, addLabel, Std.HashMap.getElem?_insert, number, tables.numbers,
        lastDeclaration?_concat, declared]
      split
      · rw [Option.map_some, List.take_append_of_le_length (Nat.le_refl _), List.take_length,
          length_labelLines]
      · exact (kept other).symm

theorem getElem?_tokens_foldl (constants : Constants) (d : Draft) (ss : List Statement) {i : Nat}
    (old : i < d.tokens.size) : (ss.foldl (Draft.add constants) d).tokens[i]? = d.tokens[i]? := by
  induction ss generalizing d with
  | nil => rfl
  | cons s more ih =>
    rw [List.foldl_cons, ih (d.add constants s) (by rw [size_tokens_add]; omega), tokens_add,
      Array.getElem?_push_lt old, Array.getElem?_eq_getElem old]

/-- After any number of statements the tables are right. -/
theorem Tables.foldl {done : List Statement} {d : Draft} (tables : Tables done d)
    (constants : Constants) (ss : List Statement) :
    Tables (done ++ ss) (ss.foldl (Draft.add constants) d) := by
  induction ss generalizing done d with
  | nil => simpa using tables
  | cons s more ih =>
    have next := ih (tables.add constants s)
    rwa [List.append_assoc, List.singleton_append] at next

end Draft

namespace Code

/-- The tables once the first statements of a text have been taken in. -/
theorem tables (constants : Constants) (ss : List Statement) :
    Draft.Tables ss (ss.foldl (Draft.add constants) {}) :=
  Draft.Tables.start.foldl constants ss

/-- The token of a statement depends on the statements before it and on the constants. -/
theorem getElem?_tokens {ss : List Statement} {j : Nat} {s : Statement} (line : ss[j]? = some s) :
    (ofStatements ss).tokens[j]? =
      some (((ss.take j).foldl (Draft.add (.ofStatements ss)) {}).token (.ofStatements ss) s) := by
  obtain ⟨bound, rfl⟩ := List.getElem?_eq_some_iff.1 line
  have size : ((ss.take j).foldl (Draft.add (.ofStatements ss)) {}).tokens.size = j := by
    rw [(tables _ _).tokens, List.length_take]
    omega
  have parts : ss.foldl (Draft.add (.ofStatements ss)) {} =
      (ss.drop (j + 1)).foldl (Draft.add (.ofStatements ss))
        (((ss.take j).foldl (Draft.add (.ofStatements ss)) {}).add (.ofStatements ss) ss[j]) := by
    conv_lhs => arg 3; rw [← List.take_append_drop j ss, List.drop_eq_getElem_cons bound]
    rw [List.foldl_append, List.foldl_cons]
  rw [ofStatements, Array.getElem?_toList, parts,
    Draft.getElem?_tokens_foldl _ _ _ (by rw [Draft.size_tokens_add]; omega), Draft.tokens_add]
  simp only [Array.getElem?_push, size, if_true]

end Code

end PocketConsole
