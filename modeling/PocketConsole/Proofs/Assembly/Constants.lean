import PocketConsole.Proofs.Assembly.JumpTarget
import PocketConsole.Proofs.Assembly.Literals

namespace PocketConsole

namespace Literal

theorem toNat_toByte (v : Int) : ((toByte v).toNat : Int) = v % 256 := by
  simp only [toByte, UInt8.toNat_ofNat', Nat.reducePow]
  omega

theorem Spelled.unique (word : List Char) (v w : Int) (first : Spelled word v) (second : Spelled word w) :
    v = w :=
  Option.some.inj ((parse?_of_spelled first).symm.trans (parse?_of_spelled second))

/-- The words that are read as literals: the documented spellings, and those with a second sign behind the
mark of a radix. -/
def Read (word : List Char) (v : Int) : Prop :=
  Spelled word v ∨ TwiceSigned word v

theorem read_iff {word : List Char} {v : Int} : Read word v ↔ parse? word = some v :=
  (parse?_eq_some_iff word v).symm

end Literal

namespace Statement

/-- Whether the statement gives a value to the constant of a name, in whatever case it is written. -/
def defines (name : List Char) (s : Statement) : Bool :=
  s.isConstant && Text.sameLetters s.word name

/-- The statement that gives a value to the constant of a name last. -/
def lastDefinition? (ss : List Statement) (name : List Char) : Option Statement :=
  ss.reverse.find? (defines name)

/-- The value that a definition gives. -/
def given (d : Statement) : Int :=
  (d.operand.bind Literal.parse?).getD 0

/-- A statement of a text gives a value to the constant of a name, and none after it does. -/
def LastDefinition (ss : List Statement) (name : List Char) (d : Statement) : Prop :=
  ∃ before after, ss = before ++ d :: after ∧ d.defines name ∧ ∀ t ∈ after, ¬ t.defines name

/-- The value of a constant throughout a text, for a notion of what literals denote: that of its last
definition, and 0 if this has no literal or there is no definition. -/
inductive ConstantValue (denotes : List Char → Int → Prop) (ss : List Statement) (name : List Char) : Int → Prop
  | undefined : (∀ d ∈ ss, ¬ d.defines name) → ConstantValue denotes ss name 0
  | bare {d : Statement} : LastDefinition ss name d → d.operand = none → ConstantValue denotes ss name 0
  | literal {d : Statement} {word : List Char} {v : Int} : LastDefinition ss name d → d.operand = some word →
      denotes word v → ConstantValue denotes ss name v
  | other {d : Statement} {word : List Char} : LastDefinition ss name d → d.operand = some word →
      (∀ v, ¬ denotes word v) → ConstantValue denotes ss name 0

theorem lastDefinition?_concat (ss : List Statement) (s : Statement) (name : List Char) :
    lastDefinition? (ss ++ [s]) name = if s.defines name then some s else lastDefinition? ss name := by
  rw [lastDefinition?, List.reverse_concat, List.find?_cons]
  split <;> simp_all [lastDefinition?]

theorem lastDefinition?_eq_none_iff {ss : List Statement} {name : List Char} :
    lastDefinition? ss name = none ↔ ∀ d ∈ ss, ¬ d.defines name := by
  simp [lastDefinition?]

theorem lastDefinition?_eq_some_iff {ss : List Statement} {name : List Char} {d : Statement} :
    lastDefinition? ss name = some d ↔ LastDefinition ss name d := by
  rw [lastDefinition?, List.find?_eq_some_iff_append]
  constructor
  · rintro ⟨defines, after, before, parts, none⟩
    refine ⟨before.reverse, after.reverse, ?_, defines, by simpa using none⟩
    rw [← List.reverse_reverse ss, parts, List.reverse_append, List.reverse_cons, List.append_assoc]
    rfl
  · rintro ⟨before, after, rfl, defines, none⟩
    exact ⟨defines, after.reverse, before.reverse, by simp, by simpa using none⟩

theorem LastDefinition.unique {ss : List Statement} {name : List Char} {d e : Statement}
    (first : LastDefinition ss name d) (second : LastDefinition ss name e) : d = e :=
  Option.some.inj
    ((lastDefinition?_eq_some_iff.2 first).symm.trans (lastDefinition?_eq_some_iff.2 second))

namespace ConstantValue

variable {denotes : List Char → Int → Prop} {ss : List Statement} {name : List Char}

theorem of_last {d : Statement} (last : LastDefinition ss name d) {v : Int}
    (value : ConstantValue denotes ss name v) :
    (d.operand = none ∧ v = 0) ∨
      ∃ word, d.operand = some word ∧ (denotes word v ∨ (∀ u, ¬ denotes word u) ∧ v = 0) := by
  cases value with
  | undefined none =>
    obtain ⟨before, after, rfl, defines, -⟩ := last
    exact absurd defines (none d (by simp))
  | bare same absent =>
    obtain rfl := same.unique last
    exact .inl ⟨absent, rfl⟩
  | literal same word read =>
    obtain rfl := same.unique last
    exact .inr ⟨_, word, .inl read⟩
  | other same word none =>
    obtain rfl := same.unique last
    exact .inr ⟨_, word, .inr ⟨none, rfl⟩⟩

theorem of_undefined (undefined : ∀ d ∈ ss, ¬ d.defines name) {v : Int} (value : ConstantValue denotes ss name v) :
    v = 0 := by
  cases value with
  | undefined => rfl
  | bare last | literal last | other last =>
    obtain ⟨before, after, rfl, defines, -⟩ := last
    exact absurd defines (undefined _ (by simp))

/-- Where a word denotes one number at most, a constant has one value. -/
theorem unique (single : ∀ word v w, denotes word v → denotes word w → v = w) {v w : Int}
    (first : ConstantValue denotes ss name v) (second : ConstantValue denotes ss name w) : v = w := by
  cases found : lastDefinition? ss name with
  | none =>
    have undefined := lastDefinition?_eq_none_iff.1 found
    rw [of_undefined undefined first, of_undefined undefined second]
  | some d =>
    have last := lastDefinition?_eq_some_iff.1 found
    rcases of_last last first with ⟨bare, rfl⟩ | ⟨word, operand, value⟩
    · rcases of_last last second with ⟨-, rfl⟩ | ⟨other, operand, -⟩
      · rfl
      · rw [bare] at operand
        cases operand
    · rcases of_last last second with ⟨bare, -⟩ | ⟨other, same, again⟩
      · rw [bare] at operand
        cases operand
      · obtain rfl : word = other := Option.some.inj (operand.symm.trans same)
        rcases value with read | ⟨unread, rfl⟩
        · exact single word v w read (again.resolve_right fun h => h.1 v read)
        · exact (again.resolve_left (unread w)).2.symm

/-- Without a second sign behind the mark of a radix, all that is read as a literal is documented as one. -/
theorem spelled_of_read {v : Int} (value : ConstantValue Literal.Read ss name v)
    (single : ∀ d word, LastDefinition ss name d → d.operand = some word → ∀ u, ¬ Literal.TwiceSigned word u) :
    ConstantValue Literal.Spelled ss name v := by
  cases value with
  | undefined none => exact .undefined none
  | bare last absent => exact .bare last absent
  | literal last word read => exact .literal last word (read.resolve_right (single _ _ last word v))
  | other last word none => exact .other last word fun u spelled => none u (.inl spelled)

end ConstantValue

/-- The value that the assembler takes for a constant. -/
theorem constantValue_given (ss : List Statement) (name : List Char) :
    ConstantValue Literal.Read ss name (((lastDefinition? ss name).map given).getD 0) := by
  cases found : lastDefinition? ss name with
  | none => exact .undefined (lastDefinition?_eq_none_iff.1 found)
  | some d =>
    have last := lastDefinition?_eq_some_iff.1 found
    rw [Option.map_some, Option.getD_some, given]
    cases operand : d.operand with
    | none => exact .bare last operand
    | some word =>
      rw [Option.bind_some]
      cases read : Literal.parse? word with
      | some v => exact .literal last operand (Literal.read_iff.2 read)
      | none =>
        refine .other last operand fun v written => ?_
        rw [Literal.read_iff.1 written] at read
        cases read

end Statement

namespace Constants

theorem ofStatements_concat (ss : List Statement) (s : Statement) :
    ofStatements (ss ++ [s]) =
      if s.isConstant then (ofStatements ss).insert (Text.caseless s.word) s.given else ofStatements ss := by
  rw [ofStatements, List.foldl_append]
  rfl

/-- What the constants of a text hold under a name is what its last definition gives. -/
theorem getElem?_ofStatements (ss : List Statement) (name : List Char) :
    (ofStatements ss)[Text.caseless name]? = (Statement.lastDefinition? ss name).map Statement.given := by
  induction ss using List.reverseRec with
  | nil => simp [ofStatements, Statement.lastDefinition?]
  | append_singleton ss s ih =>
    rw [ofStatements_concat, Statement.lastDefinition?_concat, Statement.defines]
    by_cases constant : s.isConstant = true
    · rw [if_pos constant, constant, Bool.true_and, Std.HashMap.getElem?_insert, ih]
      simp only [beq_iff_eq, Text.caseless_eq_iff]
      split <;> rfl
    · rw [if_neg constant, if_neg (by simp [constant]), ih]

theorem number?_of_constant (ss : List Statement) {name : List Char} (dollar : name.head? = some '$') :
    (ofStatements ss).number? (some name) =
      some (((Statement.lastDefinition? ss name).map Statement.given).getD 0) := by
  rw [number?, if_pos dollar, Std.HashMap.getD_eq_getD_getElem?, getElem?_ofStatements]

end Constants

namespace Code

open Statement

/-- A statement other than a jump whose operand is a constant has the constant's value for its parameter,
be it an operation, a label or itself a definition. -/
theorem getElem?_tokens_of_constant {ss : List Statement} {j : Nat} {s : Statement} (line : ss[j]? = some s)
    {name : List Char} (operand : s.operand = some name) (dollar : name.head? = some '$')
    (straight : ∀ op, Opcode.ofName? s.word = some op → op.isJump = false) :
    (ofStatements ss).tokens[j]? =
      some (.ofOpcode ((Opcode.ofName? s.word).getD .nop)
        (Literal.toByte (((lastDefinition? ss name).map given).getD 0))) := by
  have number := Constants.number?_of_constant ss dollar
  rw [getElem?_tokens line, Draft.token, operand, number]
  cases word : Opcode.ofName? s.word with
  | some op =>
    rw [label?_of_operation word]
    simp only [Option.getD_some, Draft.parameter, straight op word, Bool.false_eq_true, if_false, number]
  | none =>
    have plain : Opcode.isJump .nop = false := rfl
    cases s.label? with
    | some label => rfl
    | none => simp only [Option.getD_none, Draft.parameter, plain, Bool.false_eq_true, if_false, number]

/-- Wherever in a text a constant stands, unless as the operand of a jump, it stands for the value of its last
definition. The value is the documented one, unless the definition has a second sign behind the mark of a
radix. -/
theorem token_of_constant {source : String} {j : Nat} {s : Statement}
    (line : (Statement.ofSource source.toList)[j]? = some s) {name : List Char} (operand : s.operand = some name)
    (dollar : name.head? = some '$') (straight : ∀ op, Opcode.ofName? s.word = some op → op.isJump = false) :
    ∃ p v, (ofSource source).tokens[j]? = some (.ofOpcode ((Opcode.ofName? s.word).getD .nop) p) ∧
      (p.toNat : Int) = v % 256 ∧ ConstantValue Literal.Read (Statement.ofSource source.toList) name v ∧
      ((∀ d word, LastDefinition (Statement.ofSource source.toList) name d → d.operand = some word →
          ∀ u, ¬ Literal.TwiceSigned word u) →
        ConstantValue Literal.Spelled (Statement.ofSource source.toList) name v) := by
  have value := constantValue_given (Statement.ofSource source.toList) name
  exact ⟨_, _, getElem?_tokens_of_constant line operand dollar straight, Literal.toNat_toByte _, value,
    value.spelled_of_read⟩

/-- A label takes the value of a constant that is defined again after it, in the other case, and not the one
that was defined before. -/
theorem token_of_constant_at_label :
    let source := "$N 7\n:top $n\nset $N\n$n -0X12c\n$nn 9"
    let ss := Statement.ofSource source.toList
    ss[1]? = some ⟨":top".toList, some "$n".toList⟩ ∧
      (ofSource source).tokens[1]? = some (.ofOpcode .nop 212) ∧
      ConstantValue Literal.Spelled ss "$n".toList (-300) := by
  intro source ss
  have line : ss[1]? = some ⟨":top".toList, some "$n".toList⟩ := by decide
  have last : LastDefinition ss "$n".toList ⟨"$n".toList, some "-0X12c".toList⟩ :=
    lastDefinition?_eq_some_iff.1 (by decide)
  have digits : Literal.Digits 16 "12c".toList 300 := (Literal.digits?_eq_some_iff (by decide)).1 (by decide)
  have spelled : Literal.Spelled "-0X12c".toList (-300) :=
    .marked .minus (.hexadecimal (.inr rfl)) digits (by decide)
  obtain ⟨p, v, token, byte, -, documented⟩ := token_of_constant line rfl rfl (by decide)
  have value := documented fun d word other operand u twice => by
    obtain rfl := other.unique last
    obtain rfl := Option.some.inj operand
    exact twice.not_spelled spelled
  obtain rfl : v = -300 := value.unique Literal.Spelled.unique (.literal last rfl spelled)
  have parameter : p = 212 := UInt8.toNat_inj.1 (Int.ofNat.inj byte)
  rw [parameter] at token
  exact ⟨line, token, value⟩

/-- A second sign behind the mark of a radix gives a value where the documentation knows of no literal. -/
theorem constant_sign_behind_mark :
    let source := "push $n\n$N 0x+5"
    let ss := Statement.ofSource source.toList
    (ofSource source).tokens[0]? = some (.ofOpcode .push 5) ∧ ConstantValue Literal.Spelled ss "$n".toList 0 ∧
      ∀ v, ConstantValue Literal.Spelled ss "$n".toList v → v = 0 := by
  intro source ss
  have last : LastDefinition ss "$n".toList ⟨"$N".toList, some "0x+5".toList⟩ :=
    lastDefinition?_eq_some_iff.1 (by decide)
  have foreign : ∀ v, ¬ Literal.Spelled "0x+5".toList v := by
    intro v spelled
    have letter := spelled.isAlphanum_tail '+' (by decide)
    cases letter
  have zero : ConstantValue Literal.Spelled ss "$n".toList 0 := .other last rfl foreign
  have line : ss[0]? = some ⟨"push".toList, some "$n".toList⟩ := by decide
  have token := getElem?_tokens_of_constant line rfl rfl (by decide)
  refine ⟨?_, zero, fun v value => value.unique Literal.Spelled.unique zero⟩
  rw [ofSource, token]
  decide

end Code

end PocketConsole
