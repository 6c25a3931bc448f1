import Mathlib.Data.Fintype.Basic
import Mathlib.Data.List.Forall2
import Mathlib.Tactic.FinCases
import PocketConsole.Assembly.Basic
import PocketConsole.Proofs.Assembly.Words

namespace PocketConsole

namespace Text

/-- Texts that differ in nothing but the case of ASCII letters, each letter for itself. -/
def Recased (text other : List Char) : Prop :=
  List.Forall₂ (fun c d => d = c ∨ d = c.toUpper ∨ d = c.toLower) text other

instance (text other : List Char) : Decidable (Recased text other) :=
  inferInstanceAs (Decidable (List.Forall₂ _ text other))

theorem isLower_iff {c : Char} : c.isLower = true ↔ 97 ≤ c.toNat ∧ c.toNat ≤ 122 :=
  Bool.and_eq_true_iff.trans (and_congr decide_eq_true_iff decide_eq_true_iff)

theorem isUpper_iff {c : Char} : c.isUpper = true ↔ 65 ≤ c.toNat ∧ c.toNat ≤ 90 :=
  decide_eq_true_iff

theorem isAlpha_iff {c : Char} : c.isAlpha = true ↔ c.isUpper = true ∨ c.isLower = true :=
  Bool.or_eq_true_iff

theorem toUpper_eq_self {c : Char} (other : ¬ (97 ≤ c.toNat ∧ c.toNat ≤ 122)) : c.toUpper = c :=
  dif_neg other

theorem toLower_eq_self {c : Char} (other : ¬ (65 ≤ c.toNat ∧ c.toNat ≤ 90)) : c.toLower = c :=
  dif_neg other

/-- What does not tell the 26 small letters from their capitals tells no letter's case. -/
theorem apply_toUpper {α : Type} (f : Char → α)
    (same : ∀ i : Fin 26, f (Char.ofNat (97 + i)).toUpper = f (Char.ofNat (97 + i))) (c : Char) :
    f c.toUpper = f c := by
  by_cases small : 97 ≤ c.toNat ∧ c.toNat ≤ 122
  · have letter := same ⟨c.toNat - 97, by omega⟩
    rwa [show 97 + (c.toNat - 97) = c.toNat by omega, Char.ofNat_toNat] at letter
  · rw [toUpper_eq_self small]

/-- What does not tell the 26 capitals from their small letters tells no letter's case. -/
theorem apply_toLower {α : Type} (f : Char → α)
    (same : ∀ i : Fin 26, f (Char.ofNat (65 + i)).toLower = f (Char.ofNat (65 + i))) (c : Char) :
    f c.toLower = f c := by
  by_cases capital : 65 ≤ c.toNat ∧ c.toNat ≤ 90
  · have letter := same ⟨c.toNat - 65, by omega⟩
    rwa [show 65 + (c.toNat - 65) = c.toNat by omega, Char.ofNat_toNat] at letter
  · rw [toLower_eq_self capital]

theorem toUpper_toUpper (c : Char) : c.toUpper.toUpper = c.toUpper :=
  apply_toUpper Char.toUpper (by decide) c

theorem isAlpha_toUpper (c : Char) : c.toUpper.isAlpha = c.isAlpha :=
  apply_toUpper Char.isAlpha (by decide) c

theorem upper_eq_of_recased {text other : List Char} (recased : Recased text other) :
    upper other = upper text := by
  induction recased with
  | nil => rfl
  | @cons c d text other letter _ ih =>
    have same : d.toUpper = c.toUpper := by
      rcases letter with rfl | rfl | rfl
      · rfl
      · exact toUpper_toUpper c
      · exact apply_toLower Char.toUpper (by decide) c
    exact congrArg₂ List.cons same ih

/-- What has the capital of a character is that character in one of its cases. -/
theorem eq_or_of_toUpper_eq {c d : Char} (same : d.toUpper = c.toUpper) : d = c ∨ d = c.toUpper ∨ d = c.toLower := by
  have toLower_toUpper : ∀ c : Char, c.toUpper.toLower = c.toLower := apply_toUpper Char.toLower (by decide)
  by_cases small : 97 ≤ d.toNat ∧ d.toNat ≤ 122
  · refine .inr (.inr ?_)
    calc d = d.toLower := (toLower_eq_self (by omega)).symm
      _ = d.toUpper.toLower := (toLower_toUpper d).symm
      _ = c.toLower := by rw [same, toLower_toUpper]
  · refine .inr (.inl ?_)
    rw [← same, toUpper_eq_self small]

theorem recased_iff {text other : List Char} : Recased text other ↔ upper other = upper text := by
  refine ⟨upper_eq_of_recased, fun same => ?_⟩
  have paired : List.Forall₂ (· = ·) (upper text) (upper other) := by
    rw [List.forall₂_eq_eq_eq, same]
  rw [upper, upper, List.forall₂_map_left_iff, List.forall₂_map_right_iff] at paired
  exact paired.imp fun c d same => eq_or_of_toUpper_eq same.symm

theorem isBlank_toUpper (c : Char) : isBlank c.toUpper = isBlank c :=
  apply_toUpper isBlank (by decide) c

/-- A character that is no letter stands for itself alone. -/
theorem toUpper_eq_iff {mark : Char} (sign : mark.isAlpha = false) (c : Char) : c.toUpper = mark ↔ c = mark := by
  have alone {c : Char} (sign : c.isAlpha = false) : c.toUpper = c := by
    refine toUpper_eq_self fun small => ?_
    rw [isAlpha_iff.2 (.inr (isLower_iff.2 small))] at sign
    cases sign
  constructor
  · rintro rfl
    rw [isAlpha_toUpper] at sign
    exact (alone sign).symm
  · rintro rfl
    exact alone sign

theorem upper_cons (c : Char) (cs : List Char) : upper (c :: cs) = c.toUpper :: upper cs := rfl

theorem head?_upper_eq_iff {mark : Char} (sign : mark.isAlpha = false) (cs : List Char) :
    (upper cs).head? = some mark ↔ cs.head? = some mark := by
  rw [upper, List.head?_map, Option.map_eq_some_iff]
  simp only [toUpper_eq_iff sign, exists_eq_right]

theorem upper_upper (cs : List Char) : upper (upper cs) = upper cs := by
  simp only [upper, List.map_map, Function.comp_def, toUpper_toUpper]

theorem splitOnP_upper {p : Char → Bool} (same : ∀ c : Char, p c.toUpper = p c) (cs : List Char) :
    (upper cs).splitOnP p = (cs.splitOnP p).map upper := by
  induction cs with
  | nil => rfl
  | cons c cs ih =>
    rw [upper_cons, List.splitOnP_cons_eq_if_modifyHead, List.splitOnP_cons_eq_if_modifyHead, same, ih]
    split
    · rfl
    · cases cs.splitOnP p <;> rfl

theorem words_upper (line : List Char) : words (upper line) = (words line).map upper := by
  have nonempty (word : List Char) : decide (upper word ≠ []) = decide (word ≠ []) := by
    simp [upper]
  rw [words, words, splitOnP_upper isBlank_toUpper, List.filter_map]
  simp only [Function.comp_def, nonempty]

theorem lines_upper (cs : List Char) : lines (upper cs) = (lines cs).map upper := by
  have feed (c : Char) : (c.toUpper == '\n') = (c == '\n') := by
    rw [Bool.eq_iff_iff, beq_iff_eq, beq_iff_eq, toUpper_eq_iff rfl]
  rw [lines_eq_splitOn, lines_eq_splitOn]
  exact splitOnP_upper feed cs

end Text

namespace Literal

theorem digit?_toUpper (radix : Nat) (c : Char) : digit? radix c.toUpper = digit? radix c := by
  refine Text.apply_toUpper (digit? radix) (fun i => ?_) c
  fin_cases i <;> rfl

theorem radix?_toUpper (c : Char) : radix? c.toUpper = radix? c :=
  Text.apply_toUpper radix? (by decide) c

theorem digits?_upper (radix : Nat) (ds : List Char) : digits? radix (Text.upper ds) = digits? radix ds := by
  rw [digits?, digits?, Text.upper, List.foldlM_map]
  simp only [List.map_eq_nil_iff, digit?_toUpper]

theorem signed?_cons (radix : Nat) (c : Char) (ds : List Char) :
    signed? radix (c :: ds) =
      if c = '+' then (digits? radix ds).bind fun n => narrow? n
      else if c = '-' then (digits? radix ds).bind fun n => narrow? (-n)
      else (digits? radix (c :: ds)).bind fun n => narrow? n := by
  unfold signed?
  split <;> simp_all

theorem signed?_upper (radix : Nat) (ds : List Char) : signed? radix (Text.upper ds) = signed? radix ds := by
  cases ds with
  | nil => rfl
  | cons c ds =>
    have whole := digits?_upper radix (c :: ds)
    rw [Text.upper_cons] at whole ⊢
    simp (disch := decide) only [signed?_cons, Text.toUpper_eq_iff, digits?_upper, whole]

theorem unsigned?_cons (c : Char) (ds : List Char) :
    unsigned? (c :: ds) =
      if c = '+' ∨ c = '-' then none
      else match (if c = '0' then ds.head?.bind radix? else none) with
        | some radix => signed? radix ds.tail
        | none => signed? 10 (c :: ds) := by
  unfold unsigned?
  split
  · simp_all
  · simp_all
  · rename_i same
    cases same
    rfl
  · cases ds with
    | nil => simp_all
    | cons mark ds => simp_all

theorem unsigned?_upper (ds : List Char) : unsigned? (Text.upper ds) = unsigned? ds := by
  cases ds with
  | nil => rfl
  | cons c ds =>
    have whole := signed?_upper 10 (c :: ds)
    have mark : (Text.upper ds).head?.bind radix? = ds.head?.bind radix? := by
      cases ds with
      | nil => rfl
      | cons mark ds => exact radix?_toUpper mark
    have rest (radix : Nat) : signed? radix (Text.upper ds).tail = signed? radix ds.tail := by
      rw [Text.upper, ← List.map_tail]
      exact signed?_upper radix ds.tail
    rw [Text.upper_cons] at whole ⊢
    simp (disch := decide) only [unsigned?_cons, Text.toUpper_eq_iff, whole, mark, rest]

theorem parse?_cons (c : Char) (ds : List Char) :
    parse? (c :: ds) =
      if c = '-' then (unsigned? ds).bind fun v => narrow? (-v)
      else if c = '+' then unsigned? ds
      else unsigned? (c :: ds) := by
  unfold parse?
  split <;> simp_all

/-- The sign, the mark of the radix and the digits of a literal may be written in either case. -/
theorem parse?_upper (word : List Char) : parse? (Text.upper word) = parse? word := by
  cases word with
  | nil => rfl
  | cons c ds =>
    have whole := unsigned?_upper (c :: ds)
    rw [Text.upper_cons] at whole ⊢
    simp (disch := decide) only [parse?_cons, Text.toUpper_eq_iff, unsigned?_upper, whole]

end Literal

theorem Text.caseless_upper (word : List Char) : caseless (upper word) = caseless word := by
  rw [caseless, caseless, upper_upper]

theorem Opcode.ofName?_upper (word : List Char) : ofName? (Text.upper word) = ofName? word := by
  rw [ofName?, ofName?, Text.upper_upper]

theorem Register.ofName?_upper (word : List Char) : ofName? (Text.upper word) = ofName? word := by
  simp only [ofName?, Text.sameLetters, Text.upper_upper]

namespace Statement

/-- A statement with both its words in upper case. -/
def upper (s : Statement) : Statement :=
  ⟨Text.upper s.word, s.operand.map Text.upper⟩

theorem isConstant_upper (s : Statement) : s.upper.isConstant = s.isConstant := by
  simp (disch := decide) only [isConstant, upper, Text.head?_upper_eq_iff]

theorem label?_upper (s : Statement) : s.upper.label? = s.label?.map Text.upper := by
  obtain ⟨word, operand⟩ := s
  cases word with
  | nil => rfl
  | cons c name =>
    by_cases colon : c = ':'
    · subst colon
      rfl
    · have apart := mt (Text.toUpper_eq_iff (by decide : ':'.isAlpha = false) c).1 colon
      simp [label?, upper, Text.upper_cons, colon, apart]

theorem ofLine?_upper (line : List Char) : ofLine? (Text.upper line) = (ofLine? line).map upper := by
  rw [ofLine?_eq, ofLine?_eq, Text.words_upper]
  cases Text.words line with
  | nil => rfl
  | cons word more =>
    simp (disch := decide) only [List.map_cons, Text.head?_upper_eq_iff, List.head?_map]
    split <;> rfl

theorem ofSource_upper (cs : List Char) : ofSource (Text.upper cs) = (ofSource cs).map upper := by
  rw [ofSource, ofSource, Text.lines_upper, List.filterMap_map, List.map_filterMap]
  simp only [Function.comp_def, ofLine?_upper]

end Statement

theorem Constants.ofStatements_map_upper (ss : List Statement) :
    ofStatements (ss.map Statement.upper) = ofStatements ss := by
  have value (s : Statement) : s.upper.operand.bind Literal.parse? = s.operand.bind Literal.parse? := by
    simp only [Statement.upper, Option.bind_map, Function.comp_def, Literal.parse?_upper]
  rw [ofStatements, ofStatements, List.foldl_map]
  simp only [Statement.isConstant_upper, value]
  simp only [Statement.upper, Text.caseless_upper]

theorem Constants.number?_upper (table : Constants) (operand : Option (List Char)) :
    table.number? (operand.map Text.upper) = table.number? operand := by
  cases operand with
  | none => rfl
  | some word =>
    simp (disch := decide) only [number?, Option.map_some, Text.head?_upper_eq_iff, Text.caseless_upper,
      Literal.parse?_upper]

namespace Draft

theorem addLabel_upper (d : Draft) (name : List Char) (parameter : UInt8) :
    d.addLabel (Text.upper name) parameter = d.addLabel name parameter := by
  rw [addLabel, addLabel, Text.caseless_upper]

theorem parameter_upper (d : Draft) (constants : Constants) (op : Opcode) (operand : Option (List Char)) :
    d.parameter constants op (operand.map Text.upper) = d.parameter constants op operand := by
  simp only [parameter, Constants.number?_upper, Option.bind_map, Function.comp_def, Text.caseless_upper,
    Register.ofName?_upper]

theorem add_upper (constants : Constants) (d : Draft) (s : Statement) :
    d.add constants s.upper = d.add constants s := by
  have number : constants.number? s.upper.operand = constants.number? s.operand :=
    Constants.number?_upper constants s.operand
  have op : Opcode.ofName? s.upper.word = Opcode.ofName? s.word := Opcode.ofName?_upper s.word
  rw [add, add, Statement.label?_upper, number, op]
  cases s.label? with
  | none => simp only [Option.map_none, Statement.upper, parameter_upper]
  | some name => exact addLabel_upper d name _

end Draft

namespace Code

theorem ofStatements_map_upper (ss : List Statement) :
    ofStatements (ss.map Statement.upper) = ofStatements ss := by
  rw [ofStatements, ofStatements, Constants.ofStatements_map_upper, List.foldl_map]
  simp only [Draft.add_upper]

/-- No letter's case is seen by the assembler, wherever in a source text the letter stands. -/
theorem ofSource_recased {source other : String} (recased : Text.Recased source.toList other.toList) :
    ofSource other = ofSource source := by
  -- either way to write the text is as good as capitals throughout
  have same := congrArg Statement.ofSource (Text.upper_eq_of_recased recased)
  rw [Statement.ofSource_upper, Statement.ofSource_upper] at same
  rw [ofSource, ofSource, ← ofStatements_map_upper, same, ofStatements_map_upper]

/-- Names of constants, labels, operations and registers, the marks and digits of numbers, comments and
words that mean nothing. -/
theorem ofSource_recased_of_mixed :
    let source := "$Rate 0xfF # per second\n:Loop\nset $rATE\nGET xB\njump lOOP\nicon 0B11\nJunk wV"
    let other := "$rAte 0XFf # Per Second\n:lOOp\nSET $RAte\nget Xb\nJUMp LoOp\nIcon 0b11\njUNK Wv"
    Text.Recased source.toList other.toList ∧ source ≠ other ∧ ofSource other = ofSource source :=
  ⟨by decide, by decide, ofSource_recased (by decide)⟩

end Code

end PocketConsole
