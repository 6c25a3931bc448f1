import PocketConsole.Proofs.Json.Numerals
import PocketConsole.Proofs.Json.Strings

namespace PocketConsole

namespace Json

theorem lexemes?_cons {c : Char} (visible : isSpace c = false) (done : List Lexeme) (r : List Char) :
    lexemes? done (c :: r) = (Lexeme.read? c r).bind fun (l, rest) => lexemes? (l :: done) rest := by
  rw [lexemes?, if_neg (Bool.eq_false_iff.1 visible)]
  split
  · rename_i none
    rw [none, Option.bind_none]
  · rename_i l rest some
    rw [some, Option.bind_some]

theorem lexemes?_eq_map (done : List Lexeme) (cs : List Char) :
    lexemes? done cs = (lexemes? [] cs).map (done.reverse ++ ·) := by
  cases cs with
  | nil => simp [lexemes?]
  | cons c r =>
    by_cases blank : isSpace c = true
    · rw [lexemes?, if_pos blank, lexemes?, if_pos blank]
      exact lexemes?_eq_map done r
    · have visible := Bool.eq_false_iff.2 blank
      rw [lexemes?_cons visible, lexemes?_cons visible]
      cases read : Lexeme.read? c r with
      | none => rfl
      | some found =>
        obtain ⟨l, rest⟩ := found
        have _shorter := Lexeme.length_read? read
        rw [Option.bind_some, Option.bind_some]
        dsimp only
        rw [lexemes?_eq_map (l :: done), lexemes?_eq_map [l], Option.map_map]
        simp [Function.comp_def]
termination_by cs.length
decreasing_by all_goals simp only [List.length_cons]; omega

/-- The place that a text leads to, lexeme by lexeme. -/
def places? (p : Place) (cs : List Char) : Option Place :=
  (lexemes? [] cs).bind fun ls => ls.foldlM Place.step p

theorem places?_nil (p : Place) : places? p [] = some p := by
  rw [places?, lexemes?]
  rfl

theorem places?_cons {c : Char} (visible : isSpace c = false) (p : Place) (r : List Char) :
    places? p (c :: r) =
      (Lexeme.read? c r).bind fun (l, rest) => (p.step l).bind fun q => places? q rest := by
  rw [places?, lexemes?_cons visible]
  cases Lexeme.read? c r with
  | none => rfl
  | some found =>
    obtain ⟨l, rest⟩ := found
    rw [Option.bind_some, Option.bind_some]
    dsimp only
    rw [lexemes?_eq_map]
    cases step : p.step l with
    | none => cases lexemes? [] rest <;> simp [step]
    | some q =>
      rw [Option.bind_some, places?]
      cases lexemes? [] rest <;> simp [step]

theorem places?_blank {blank : List Char} (each : Blank blank) (p : Place) (r : List Char) :
    places? p (blank ++ r) = places? p r := by
  induction blank with
  | nil => rfl
  | cons c more ih =>
    have space : isSpace c = true := by
      rcases each c List.mem_cons_self with rfl | rfl | rfl | rfl <;> decide
    have rest := ih fun d member => each d (List.mem_cons_of_mem c member)
    rw [List.cons_append, places?, lexemes?, if_pos space]
    exact rest

theorem isSpace_of_isDigit {c : Char} (digit : c.isDigit = true) : isSpace c = false := by
  have apart := fun a other => Numeral.ne_of_isDigit (c := a) digit other
  simp [isSpace, apart ' ' rfl, apart '\t' rfl, apart '\n' rfl, apart '\r' rfl]

theorem Lexeme.read?_of_isDigit {c : Char} (digit : c.isDigit = true) (r : List Char) :
    Lexeme.read? c r = (Numeral.read? (c :: r)).map fun (n, rest) => (.number n, rest) := by
  unfold Lexeme.read?
  split
  case h_11 => rfl
  all_goals cases digit

theorem places?_numeral {n : Numeral} {cs : List Char} (spelled : n.Spelled cs) (p : Place) {r : List Char}
    (ends : Numeral.EndsBefore r) :
    places? p (cs ++ r) = (p.step (.number n)).bind fun q => places? q r := by
  have read := Numeral.read?_append spelled ends
  obtain ⟨c, more, rfl, visible, first⟩ : ∃ c more, cs = c :: more ∧ isSpace c = false ∧
      ∀ r, Lexeme.read? c r = (Numeral.read? (c :: r)).map fun (n, rest) => (.number n, rest) := by
    obtain @⟨negative, whole, fraction, point, power, exponent, wholes, fractions, exponents⟩ := spelled
    obtain ⟨d, more, rfl, digit⟩ := wholes.exists_cons
    cases negative with
    | true => exact ⟨'-', _, rfl, by decide, fun _ => rfl⟩
    | false => exact ⟨d, _, rfl, isSpace_of_isDigit digit, Lexeme.read?_of_isDigit digit⟩
  rw [List.cons_append] at read ⊢
  rw [places?_cons visible, first, read]
  rfl

theorem places?_text {ps : List JsonText.Piece} {cs : List Char} (spelled : JsonText.Spelled ps cs)
    (p : Place) (r : List Char) :
    places? p ('"' :: (cs ++ '"' :: r)) = (JsonText.characters? ps).bind fun s =>
      (p.step (.text (String.ofList s))).bind fun q => places? q r := by
  rw [places?_cons (by decide), Lexeme.read?, JsonText.read?_append spelled]
  cases JsonText.characters? ps <;> rfl

end Json

end PocketConsole
