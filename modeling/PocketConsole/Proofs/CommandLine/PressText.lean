import Mathlib.Data.List.TakeWhile
import PocketConsole.CommandLine.Press
import PocketConsole.Proofs.Assembly.Literals

namespace PocketConsole

/-- The spellings of a number that a 64-bit word holds: decimal digits, after at most one plus. -/
def WordSpelled (cs : List Char) (n : UInt64) : Prop :=
  ∃ ds, (cs = ds ∨ cs = '+' :: ds) ∧ Literal.Digits 10 ds n.toNat

theorem Literal.digit?_ten (c : Char) : digit? 10 c = if c.isDigit then some (c.toNat - '0'.toNat) else none := by
  have range : '0' ≤ c ∧ c ≤ '9' ↔ c.isDigit = true := by
    rw [Char.isDigit, Bool.and_eq_true, decide_eq_true_eq, decide_eq_true_eq]
    exact Iff.rfl
  by_cases decimal : '0' ≤ c ∧ c ≤ '9'
  · have last : c.toNat ≤ 57 := decimal.2
    have small : c.toNat - '0'.toNat < 10 := by
      have zero : '0'.toNat = 48 := rfl
      omega
    rw [if_pos (range.1 decimal)]
    simp only [digit?, decimal, and_self, if_true, small]
  · rw [if_neg (mt range.2 decimal), digit?, if_neg decimal]
    refine if_neg ?_
    split
    · omega
    · split <;> omega

/-- Digits alone are read as a literal of radix 10 is. -/
theorem Rate.natural?_eq_digits? (ds : List Char) : natural? ds = Literal.digits? 10 ds := by
  have folded : ∀ v, (ds.foldlM (fun n c => (Literal.digit? 10 c).map fun d => n * 10 + d) v) =
      if ds.all Char.isDigit then some (Nat.ofDigitChars 10 ds v) else none := by
    induction ds with
    | nil => exact fun v => rfl
    | cons c more ih =>
      intro v
      rw [List.foldlM_cons, Literal.digit?_ten, List.all_cons, Nat.ofDigitChars_cons]
      cases digit : c.isDigit with
      | true =>
        rw [if_pos rfl, Bool.true_and, Nat.mul_comm 10 v]
        exact ih _
      | false => rfl
  rw [natural?, Literal.digits?, folded]
  by_cases none : ds = []
  · rw [if_pos none, if_neg fun both => both.1 none]
  · rw [if_neg none]
    exact if_congr (and_iff_right none) rfl rfl

theorem wordNumber?_eq_some_iff {cs : List Char} {n : UInt64} : wordNumber? cs = some n ↔ WordSpelled cs n := by
  have bounded : ∀ ds,
      ((Rate.natural? ds).bind fun m => if m < UInt64.size then some (UInt64.ofNat m) else none) = some n ↔
        Literal.Digits 10 ds n.toNat := by
    intro ds
    rw [Rate.natural?_eq_digits?, ← Literal.digits?_eq_some_iff (by decide), Option.bind_eq_some_iff]
    constructor
    · rintro ⟨m, read, fits⟩
      obtain ⟨small, same⟩ := Option.ite_none_right_eq_some.1 fits
      rw [read, ← Option.some.inj same, UInt64.toNat_ofNat_of_lt' small]
    · exact fun read => ⟨_, read, by rw [if_pos n.toNat_lt, UInt64.ofNat_toNat]⟩
  unfold wordNumber?
  split
  · rename_i ds
    rw [bounded]
    constructor
    · exact fun digits => ⟨ds, .inr rfl, digits⟩
    · rintro ⟨other, rfl | same, digits⟩
      · exact absurd rfl (digits.plain (by decide) '+' rfl).1
      · rwa [(List.cons.inj same).2]
  · rename_i unsigned
    rw [bounded]
    constructor
    · exact fun digits => ⟨cs, .inl rfl, digits⟩
    · rintro ⟨ds, rfl | plus, digits⟩
      · exact digits
      · exact absurd plus (unsigned ds)

theorem wordNumber?_eq_none_iff {cs : List Char} : wordNumber? cs = none ↔ ∀ n, ¬ WordSpelled cs n := by
  simp only [Option.eq_none_iff_forall_ne_some, ne_eq, wordNumber?_eq_some_iff]

theorem Button.ofName?_eq_some_iff {word : List Char} {b : Button} :
    ofName? word = some b ↔ Text.Recased b.name.toList word := by
  rw [Text.recased_iff]
  constructor
  · intro found
    have same := List.find?_some found
    exact ((Text.sameLetters_iff _ _).1 same).symm
  · intro same
    have alike : ∀ c : Button, Text.sameLetters c.name.toList word = Text.sameLetters c.name.toList b.name.toList := by
      intro c
      rw [Text.sameLetters, Text.sameLetters, same]
    rw [ofName?, funext alike]
    exact ofName?_name b

theorem Button.ofName?_eq_none_iff {word : List Char} :
    ofName? word = none ↔ ∀ b : Button, ¬ Text.Recased b.name.toList word := by
  simp only [Option.eq_none_iff_forall_ne_some, ne_eq, ofName?_eq_some_iff]

namespace Press

/-- The first colon ends the frame. -/
theorem parse_append {left : List Char} (first : ':' ∉ left) (right : List Char) :
    parse (left ++ ':' :: right) =
      (wordNumber? left).elim (.error .frame) fun frame =>
        (Button.ofName? right).elim (.error .button) fun button => .ok ⟨frame, button⟩ := by
  have plain : ∀ c ∈ left, decide (c ≠ ':') = true := fun c member => decide_eq_true fun colon => first (colon ▸ member)
  have taken : (left ++ ':' :: right).takeWhile (· ≠ ':') = left := by
    rw [List.takeWhile_append_of_pos plain, List.takeWhile_cons_of_neg (by decide), List.append_nil]
  have dropped : (left ++ ':' :: right).dropWhile (· ≠ ':') = ':' :: right := by
    rw [List.dropWhile_append_of_pos plain, List.dropWhile_cons_of_neg (by decide)]
  rw [parse, taken, dropped]
  dsimp only
  cases wordNumber? left with
  | none => rfl
  | some frame => cases Button.ofName? right <;> rfl

theorem parse_eq_format_iff (text : List Char) : parse text = .error .format ↔ ':' ∉ text := by
  constructor
  · intro refused colon
    obtain ⟨left, right, rfl, first⟩ := List.eq_append_cons_of_mem colon
    rw [parse_append first] at refused
    cases read : wordNumber? left with
    | none =>
      rw [read] at refused
      cases refused
    | some frame =>
      rw [read] at refused
      cases named : Button.ofName? right <;> rw [named] at refused <;> cases refused
  · intro none
    have dropped : text.dropWhile (· ≠ ':') = [] := by
      rw [List.dropWhile_eq_nil_iff]
      exact fun c member => decide_eq_true fun colon => none (colon ▸ member)
    rw [parse, dropped]

variable {left right : List Char}

theorem parse_eq_frame_iff (first : ':' ∉ left) :
    parse (left ++ ':' :: right) = .error .frame ↔ ∀ frame, ¬ WordSpelled left frame := by
  rw [parse_append first, ← wordNumber?_eq_none_iff]
  cases wordNumber? left with
  | none => simp
  | some frame => cases Button.ofName? right <;> simp

theorem parse_eq_button_iff (first : ':' ∉ left) :
    parse (left ++ ':' :: right) = .error .button ↔
      (∃ frame, WordSpelled left frame) ∧ ∀ b : Button, ¬ Text.Recased b.name.toList right := by
  simp only [parse_append first, ← wordNumber?_eq_some_iff, ← Button.ofName?_eq_none_iff]
  cases wordNumber? left with
  | none => simp
  | some frame => cases Button.ofName? right <;> simp

theorem parse_eq_ok_iff (first : ':' ∉ left) (p : Press) :
    parse (left ++ ':' :: right) = .ok p ↔ WordSpelled left p.frame ∧ Text.Recased p.button.name.toList right := by
  rw [parse_append first, ← wordNumber?_eq_some_iff, ← Button.ofName?_eq_some_iff]
  obtain ⟨frame, button⟩ := p
  cases wordNumber? left with
  | none => simp
  | some frame => cases Button.ofName? right <;> simp

/-- A number in its shortest spelling and the name of a button in any case. -/
theorem parse_of_written (p : Press) {word : List Char} (name : Text.Recased p.button.name.toList word) :
    parse (Nat.toDigits 10 p.frame.toNat ++ ':' :: word) = .ok p := by
  have digits : Literal.Digits 10 (Nat.toDigits 10 p.frame.toNat) p.frame.toNat :=
    Literal.digits_toDigits (by decide) (by decide) _
  have first : ':' ∉ Nat.toDigits 10 p.frame.toNat := by
    intro colon
    have letter := digits.isAlphanum (by decide) ':' colon
    cases letter
  exact (parse_eq_ok_iff first p).2 ⟨⟨_, .inl rfl, digits⟩, name⟩

/-- A press is refused for its form exactly if there is no colon in it; else for its frame exactly if what stands before
the first colon is no number of a 64-bit word; else for its button exactly if what follows, other colons included, is no
name of a button in any case; and else it is that frame and that button. So every press is read as it is written. -/
theorem outcome_of_parse :
    (∀ text, parse text = .error .format ↔ ':' ∉ text) ∧
    (∀ left right, ':' ∉ left →
      (parse (left ++ ':' :: right) = .error .frame ↔ ∀ frame, ¬ WordSpelled left frame) ∧
      (parse (left ++ ':' :: right) = .error .button ↔
        (∃ frame, WordSpelled left frame) ∧ ∀ b : Button, ¬ Text.Recased b.name.toList right) ∧
      ∀ p, parse (left ++ ':' :: right) = .ok p ↔
        WordSpelled left p.frame ∧ Text.Recased p.button.name.toList right) ∧
    ∀ (p : Press) (word : List Char), Text.Recased p.button.name.toList word →
      parse (Nat.toDigits 10 p.frame.toNat ++ ':' :: word) = .ok p := by
  refine ⟨parse_eq_format_iff, fun left right first => ⟨?_, ?_, ?_⟩, fun p word => parse_of_written p⟩
  · exact parse_eq_frame_iff first
  · exact parse_eq_button_iff first
  · exact parse_eq_ok_iff first

/-- Where frame and button are wrong, the frame is told of, here one that no word holds; the frame before it is read. -/
theorem outcome_of_parse_at_last_frame :
    ':' ∉ "18446744073709551616".toList ∧ parse "18446744073709551616:up".toList = .error .frame ∧
      (∀ frame, ¬ WordSpelled "18446744073709551616".toList frame) ∧
      Text.Recased "action".toList "AcTioN".toList ∧
      parse "18446744073709551615:AcTioN".toList = .ok ⟨18446744073709551615, .action⟩ := by
  obtain ⟨-, outcomes, written⟩ := outcome_of_parse
  have first : ':' ∉ "18446744073709551616".toList := by decide
  have refused : parse "18446744073709551616:up".toList = .error .frame := rfl
  have name : Text.Recased "action".toList "AcTioN".toList := by decide
  exact ⟨first, refused, (outcomes _ "up".toList first).1.1 refused, name,
    written ⟨18446744073709551615, .action⟩ _ name⟩

end Press

end PocketConsole
