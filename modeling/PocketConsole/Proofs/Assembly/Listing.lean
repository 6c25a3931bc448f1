import PocketConsole.Proofs.Assembly.JumpTarget
import PocketConsole.Proofs.Assembly.Literals

namespace PocketConsole

/-- The lines that write an operation with a parameter: its word in any case, a space, and a documented
spelling of a number that is the parameter modulo 256. -/
inductive Listing.Line : Opcode → UInt8 → List Char → Prop
  | parts {op : Opcode} {p : UInt8} {word literal : List Char} {v : Int} :
      Text.Recased op.name.toList word → Literal.Spelled literal v → v % 256 = p.toNat →
      Line op p (word ++ ' ' :: literal)

/-- The texts that write operations with their parameters, one a line. The last line may lack its end. -/
inductive Listing : List (Opcode × UInt8) → List Char → Prop
  | nil : Listing [] []
  | last {op : Opcode} {p : UInt8} {line : List Char} : Listing.Line op p line → Listing [(op, p)] line
  | cons {op : Opcode} {p : UInt8} {line rest : List Char} {more : List (Opcode × UInt8)} :
      Listing.Line op p line → Listing more rest → Listing ((op, p) :: more) (line ++ '\n' :: rest)

namespace Text

theorem isBlank_of_isAlphanum {c : Char} (letter : c.isAlphanum = true) : isBlank c = false := by
  have range : 48 ≤ c.toNat ∧ c.toNat ≤ 122 := by
    rw [Char.isAlphanum, Bool.or_eq_true, isAlpha_iff, isUpper_iff, isLower_iff] at letter
    rcases letter with (capital | small) | digit
    · omega
    · omega
    · simp only [Char.isDigit, Bool.and_eq_true, decide_eq_true_eq] at digit
      exact ⟨digit.1, Nat.le_trans digit.2 (by decide)⟩
  simp only [isBlank, Bool.or_eq_false_iff, Bool.and_eq_false_iff, decide_eq_false_iff_not, beq_eq_false_iff_ne]
  omega

end Text

namespace Literal

theorem Spelled.isWord {word : List Char} {v : Int} (spelled : Spelled word v) : Text.IsWord word := by
  obtain ⟨sign, s, body, signed, rfl, nonempty, letters⟩ := spelled.exists_body
  refine ⟨by simp [nonempty], fun c member => ?_⟩
  rcases List.mem_append.1 member with front | inside
  · cases signed with
    | absent => cases front
    | plus | minus =>
      rw [List.mem_singleton.1 front]
      rfl
  · exact Text.isBlank_of_isAlphanum (letters c inside)

theorem Spelled.head?_ne {word : List Char} {v : Int} (spelled : Spelled word v) : word.head? ≠ some '$' := by
  obtain ⟨sign, s, body, signed, rfl, nonempty, letters⟩ := spelled.exists_body
  cases signed with
  | plus | minus => simp
  | absent =>
    intro dollar
    have letter := letters '$' (List.mem_of_mem_head? dollar)
    cases letter

end Literal

namespace Opcode

theorem isUpper_name (op : Opcode) : ∀ c ∈ op.name.toList, c.isUpper = true := by
  have all : op.name.toList.all Char.isUpper = true := by cases op <;> rfl
  exact List.all_eq_true.1 all

theorem upper_name (op : Opcode) : Text.upper op.name.toList = op.name.toList := by
  refine (List.map_congr_left fun c member => ?_).trans (List.map_id _)
  have capital := Text.isUpper_iff.1 (isUpper_name op c member)
  exact Text.toUpper_eq_self (by omega)

theorem ofName?_name (op : Opcode) : ofName? op.name.toList = some op := by
  cases op <;> rfl

variable {op : Opcode} {word : List Char}

theorem ofName?_of_recased (recased : Text.Recased op.name.toList word) : ofName? word = some op := by
  rw [← ofName?_upper, Text.upper_eq_of_recased recased, ofName?_upper, ofName?_name]

theorem isAlpha_of_recased (recased : Text.Recased op.name.toList word) : ∀ c ∈ word, c.isAlpha = true := by
  have same := (Text.upper_eq_of_recased recased).trans (upper_name op)
  intro c member
  have capital := isUpper_name op c.toUpper (same ▸ List.mem_map_of_mem member)
  have letter : c.toUpper.isAlpha = true := Text.isAlpha_iff.2 (.inl capital)
  rwa [Text.isAlpha_toUpper] at letter

theorem isWord_of_recased (recased : Text.Recased op.name.toList word) : Text.IsWord word := by
  have letters := isAlpha_of_recased recased
  refine ⟨?_, fun c member => Text.isBlank_of_isAlphanum (by rw [Char.isAlphanum, letters c member, Bool.true_or])⟩
  rintro rfl
  have none := ofName?_of_recased recased
  cases none

end Opcode

namespace Statement

/-- Whether a statement writes an operation with a parameter. -/
def Writes (op : Opcode) (p : UInt8) (s : Statement) : Prop :=
  Opcode.ofName? s.word = some op ∧
    ∃ literal v, s.operand = some literal ∧ literal.head? ≠ some '$' ∧ Literal.parse? literal = some v ∧
      Literal.toByte v = p

theorem exists_writes_of_line {op : Opcode} {p : UInt8} {line : List Char} (written : Listing.Line op p line) :
    ∃ s, ofSource line = [s] ∧ s.Writes op p := by
  obtain ⟨recased, spelled, congruent⟩ := written
  rename_i word literal v
  have first := Opcode.isWord_of_recased recased
  have second := spelled.isWord
  have words : Text.words (word ++ ' ' :: literal) = [word, literal] := by
    rw [Text.words_append_blank rfl, first.words_eq, second.words_eq]
    rfl
  have single : '\n' ∉ word ++ ' ' :: literal := by
    simp [first.feed_not_mem, second.feed_not_mem]
  have plain : word.head? ≠ some '#' := by
    intro comment
    have letter := Opcode.isAlpha_of_recased recased '#' (List.mem_of_mem_head? comment)
    cases letter
  refine ⟨⟨word, some literal⟩, ?_, Opcode.ofName?_of_recased recased, literal, v, rfl, spelled.head?_ne,
    Literal.parse?_of_spelled spelled, ?_⟩
  · rw [ofSource, Text.lines_eq_singleton single, List.filterMap_cons, ofLine?_eq, words]
    simp [plain]
  · rw [Literal.toByte, congruent, Int.toNat_natCast, UInt8.ofNat_toNat]

/-- A listing is read as one statement for each operation. -/
theorem forall₂_writes_of_listing {code : List (Opcode × UInt8)} {text : List Char} (listing : Listing code text) :
    List.Forall₂ (fun i s => Writes i.1 i.2 s) code (ofSource text) := by
  induction listing with
  | nil => exact .nil
  | last line =>
    obtain ⟨s, read, writes⟩ := exists_writes_of_line line
    rw [read]
    exact .cons writes .nil
  | cons line _ ih =>
    obtain ⟨s, read, writes⟩ := exists_writes_of_line line
    rw [ofSource_append_feed, read]
    exact .cons writes ih

end Statement

namespace Draft

/-- A statement that writes an operation other than a jump adds its token, and no label. -/
theorem add_of_writes (constants : Constants) (d : Draft) {op : Opcode} (straight : op.isJump = false) {p : UInt8}
    {s : Statement} (writes : s.Writes op p) :
    d.add constants s = { d with tokens := d.tokens.push (.ofOpcode op p) } := by
  obtain ⟨word, literal, v, operand, plain, read, byte⟩ := writes
  have number : constants.number? s.operand = some v := by
    rw [operand, Constants.number?, if_neg plain, read]
  simp only [add, Statement.label?_of_operation word, word, Option.getD_some, parameter, straight,
    Bool.false_eq_true, if_false, number, byte]

theorem foldl_add_of_writes (constants : Constants) {code : List (Opcode × UInt8)}
    (straight : ∀ i ∈ code, i.1.isJump = false) {ss : List Statement}
    (writes : List.Forall₂ (fun i s => Statement.Writes i.1 i.2 s) code ss) (d : Draft) :
    ss.foldl (Draft.add constants) d =
      { d with tokens := d.tokens ++ code.map fun i => Token.ofOpcode i.1 i.2 } := by
  induction writes generalizing d with
  | nil => simp
  | cons first _ ih =>
    have here := straight _ List.mem_cons_self
    have next := ih fun i member => straight i (List.mem_cons_of_mem _ member)
    rw [List.foldl_cons, add_of_writes constants d here first, next]
    simp

end Draft

/-- A listing without jumps is assembled to what it lists, whatever the constants of the text. -/
theorem Code.ofSource_of_listing {code : List (Opcode × UInt8)} (straight : ∀ i ∈ code, i.1.isJump = false)
    {source : String} (listing : Listing code source.toList) :
    ofSource source = ⟨code.map fun i => .ofOpcode i.1 i.2, .empty⟩ := by
  have writes := Statement.forall₂_writes_of_listing listing
  rw [ofSource, ofStatements, Draft.foldl_add_of_writes _ straight writes]
  simp

theorem exists_listing (code : List (Opcode × UInt8)) : ∃ text, Listing code text := by
  induction code with
  | nil => exact ⟨[], .nil⟩
  | cons i more ih =>
    obtain ⟨op, p⟩ := i
    obtain ⟨rest, listing⟩ := ih
    have word : Text.Recased op.name.toList op.name.toList := List.forall₂_same.2 fun c _ => .inl rfl
    have digits : Literal.Digits 10 (Nat.toDigits 10 p.toNat) p.toNat :=
      Literal.digits_toDigits (by decide) (by decide) _
    have literal := Literal.Spelled.decimal .absent digits (by have := p.toNat_lt; omega)
    exact ⟨_, .cons (.parts word literal (by have := p.toNat_lt; omega)) listing⟩

namespace Rig

variable {σ τ : Type} [Store σ]

/-- All code without jumps can be listed, and however it is listed it is assembled to just these tokens and no
labels; and in a machine that has been loaded with it, whatever has become of it since, a cycle at the place of
a token fetches its opcode and its parameter and carries them out, up to the end of storage. -/
theorem cycle_of_listing {code : List (Opcode × UInt8)} (straight : ∀ i ∈ code, i.1.isJump = false) :
    (∃ source : String, Listing code source.toList) ∧
      ∀ source : String, Listing code source.toList →
        Code.ofSource source = ⟨code.map fun i => .ofOpcode i.1 i.2, .empty⟩ ∧
          ∀ (start : Rig τ) (name : String) (i : Nat) (op : Opcode) (p : UInt8), i < 32768 →
            code[i]? = some (op, p) → ∀ m, (start.load (.ofSource name source)).machine.Later m →
              m.index.toNat = i → m.get .sc = 0 → ∀ host : Host σ,
                opcode ⟨m, host⟩ = op.toByte ∧ m.storage.get (2 * i + 1) = p ∧
                  cycle ⟨m, host⟩ = perform ⟨m.past, host⟩ op p := by
  constructor
  · obtain ⟨text, listing⟩ := exists_listing code
    exact ⟨String.ofList text, by rwa [String.toList_ofList]⟩
  · intro source listing
    have assembled := Code.ofSource_of_listing straight listing
    refine ⟨assembled, fun start name i op p inside listed m later here awake host => ?_⟩
    subst here
    have token : (Program.ofSource name source).code.tokens[m.index.toNat]? = some (.ofOpcode op p) := by
      rw [Program.ofSource, assembled, List.getElem?_map, listed]
      rfl
    have held := later.sameProgram.bytes_of_token inside token
    exact ⟨held.1, held.2, cycle_of_next (Machine.next?_of_token awake held.1 held.2) host⟩

/-- Signs, zeros in front, two radices and either case; the last line has no end. -/
theorem cycle_of_listing_of_two :
    let code : List (Opcode × UInt8) := [(.push, 255), (.clear, 2)]
    let source := "pUsh -0X0fF01\nCLEAR +0b010"
    let start : Rig Shelf := ⟨.fresh, ⟨.empty, #[]⟩⟩
    let m := (start.load (.ofSource "two" source)).machine.goto ⟨0, 1⟩
    (∀ i ∈ code, i.1.isJump = false) ∧ Listing code source.toList ∧
      Code.ofSource source = ⟨[.ofOpcode .push 255, .ofOpcode .clear 2], .empty⟩ ∧
      ∀ host : Host Shelf, cycle ⟨m, host⟩ = perform ⟨m.past, host⟩ .clear 2 := by
  intro code source start m
  have hexadecimal : Literal.Digits 16 "0fF01".toList 65281 := (Literal.digits?_eq_some_iff (by decide)).1 (by decide)
  have binary : Literal.Digits 2 "010".toList 2 := (Literal.digits?_eq_some_iff (by decide)).1 (by decide)
  have first : Listing.Line .push 255 ("pUsh".toList ++ ' ' :: "-0X0fF01".toList) :=
    .parts (by decide) (.marked .minus (.hexadecimal (.inr rfl)) hexadecimal (by decide)) (by decide)
  have second : Listing.Line .clear 2 ("CLEAR".toList ++ ' ' :: "+0b010".toList) :=
    .parts (by decide) (.marked .plus (.binary (.inl rfl)) binary (by decide)) (by decide)
  have straight : ∀ i ∈ code, i.1.isJump = false := by decide
  have text : source.toList =
      "pUsh".toList ++ ' ' :: "-0X0fF01".toList ++ '\n' :: ("CLEAR".toList ++ ' ' :: "+0b010".toList) := by decide
  have listing : Listing code source.toList := text ▸ .cons first (.last second)
  have later : (start.load (.ofSource "two" source)).machine.Later m := .goto _ .start
  have here : m.index.toNat = 1 := by
    rw [Machine.index, Machine.counter_goto]
    decide
  have awake : m.get .sc = 0 := by
    simp only [m, Machine.goto, Machine.get_put]
    exact Registers.get_zero .sc
  obtain ⟨assembled, carried⟩ := (cycle_of_listing (σ := Shelf) (τ := Shelf) straight).2 source listing
  exact ⟨straight, listing, assembled, fun host =>
    (carried start "two" 1 .clear 2 (by decide) rfl m later here awake host).2.2⟩

end Rig

end PocketConsole
