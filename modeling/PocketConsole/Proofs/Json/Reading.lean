import PocketConsole.Proofs.Json.Lexemes
import PocketConsole.Proofs.Json.Limits

namespace PocketConsole

namespace Json

open JsonText (Piece characters?)

theorem endsBefore_cons {c : Char} (mark : c = ',' ∨ c = ']' ∨ c = '\x7d') (r : List Char) :
    Numeral.EndsBefore (c :: r) := by
  rintro _ ⟨⟩
  rcases mark with rfl | rfl | rfl <;> exact ⟨rfl, by decide, by decide, by decide⟩

theorem endsBefore_blank {blank r : List Char} (each : Blank blank) (ends : Numeral.EndsBefore r) :
    Numeral.EndsBefore (blank ++ r) := by
  cases blank with
  | nil => exact ends
  | cons c more =>
    rintro _ ⟨⟩
    rcases each c List.mem_cons_self with rfl | rfl | rfl | rfl <;>
      exact ⟨rfl, by decide, by decide, by decide⟩

/-! ### Opening -/

/-- A phrase starts with a character that closes nothing. -/
theorem Spelled.first {p : Phrase} {cs : List Char} (spelled : Spelled p cs) :
    ∃ blank c rest, cs = blank ++ c :: rest ∧ Blank blank ∧ isSpace c = false ∧ c ≠ ']' ∧
      c ≠ '\x7d' := by
  induction spelled with
  | null => exact ⟨[], _, _, rfl, .nil, by decide, by decide, by decide⟩
  | @bool b =>
    cases b with
    | true => exact ⟨[], 't', _, rfl, .nil, by decide, by decide, by decide⟩
    | false => exact ⟨[], 'f', _, rfl, .nil, by decide, by decide, by decide⟩
  | number spelled =>
    obtain @⟨negative, whole, fraction, point, power, exponent, wholes, -, -⟩ := spelled
    obtain ⟨d, more, rfl, digit⟩ := wholes.exists_cons
    cases negative with
    | true => exact ⟨[], '-', _, rfl, .nil, by decide, by decide, by decide⟩
    | false =>
      exact ⟨[], d, _, rfl, .nil, isSpace_of_isDigit digit, Numeral.ne_of_isDigit digit rfl,
        Numeral.ne_of_isDigit digit rfl⟩
  | text => exact ⟨[], _, _, rfl, .nil, by decide, by decide, by decide⟩
  | noItems => exact ⟨[], _, _, rfl, .nil, by decide, by decide, by decide⟩
  | array => exact ⟨[], _, _, rfl, .nil, by decide, by decide, by decide⟩
  | noMembers => exact ⟨[], _, _, rfl, .nil, by decide, by decide, by decide⟩
  | object => exact ⟨[], _, _, rfl, .nil, by decide, by decide, by decide⟩
  | @blanks _ before _ behind spaces _ _ ih =>
    obtain ⟨blank, c, rest, rfl, each, visible⟩ := ih
    refine ⟨before ++ blank, c, rest ++ behind, by simp, fun d member => ?_, visible⟩
    exact (List.mem_append.1 member).elim (spaces d) (each d)
  | lastItem _ ih => exact ih
  | @item _ _ _ ds _ _ ih =>
    obtain ⟨blank, c, rest, rfl, each, visible⟩ := ih
    exact ⟨blank, c, rest ++ ',' :: ds, by simp, each, visible⟩
  | @named _ _ before _ _ _ spaces =>
    exact ⟨before, _, _, rfl, spaces, by decide, by decide, by decide⟩
  | lastMember _ ih => exact ih
  | @nextMember _ _ _ ds _ _ ih =>
    obtain ⟨blank, c, rest, rfl, each, visible⟩ := ih
    exact ⟨blank, c, rest ++ ',' :: ds, by simp, each, visible⟩

theorem Lexeme.read?_closing {c : Char} {r rest : List Char} {l : Lexeme}
    (read : Lexeme.read? c r = some (l, rest)) :
    (l = .closeArray → c = ']') ∧ (l = .closeObject → c = '\x7d') := by
  unfold Lexeme.read? at read
  split at read
  case h_7 | h_11 =>
    obtain ⟨_, -, same⟩ := Option.map_eq_some_iff.1 read
    cases same
    simp
  case h_8 | h_9 | h_10 =>
    split at read
    · cases read
      simp
    · cases read
  all_goals
    cases read
    simp

theorem Place.step_arrayStart (frames : List Frame) {l : Lexeme} (other : l ≠ .closeArray) :
    Place.step (.arrayStart frames) l = Place.step (.value (.array [] :: frames)) l := by
  cases l with
  | closeArray => exact absurd rfl other
  | _ => rfl

theorem Place.step_objectStart (frames : List Frame) {l : Lexeme} (other : l ≠ .closeObject) :
    Place.step (.objectStart frames) l = Place.step (.memberStart frames []) l := by
  cases l with
  | closeObject => exact absurd rfl other
  | _ => rfl

theorem Spelled.places?_start {p : Phrase} {cs : List Char} (spelled : Spelled p cs)
    (frames : List Frame) (r : List Char) :
    places? (.arrayStart frames) (cs ++ r) = places? (.value (.array [] :: frames)) (cs ++ r) ∧
      places? (.objectStart frames) (cs ++ r) = places? (.memberStart frames []) (cs ++ r) := by
  obtain ⟨blank, c, rest, rfl, each, visible, notBracket, notBrace⟩ := spelled.first
  simp only [List.append_assoc, places?_blank each, List.cons_append, places?_cons visible]
  cases read : Lexeme.read? c (rest ++ r) with
  | none => exact ⟨rfl, rfl⟩
  | some found =>
    obtain ⟨l, after⟩ := found
    obtain ⟨closeArray, closeObject⟩ := Lexeme.read?_closing read
    simp only [Option.bind_some, Place.step_arrayStart frames fun same => notBracket (closeArray same),
      Place.step_objectStart frames fun same => notBrace (closeObject same), and_self]

/-! ### Reading -/

/-- The text of a phrase leads from a place where the phrase may come to the place behind it, and leads
nowhere if the phrase is beyond the limits. -/
def Phrase.Leads (cs : List Char) : Phrase → Prop
  | .value t => ∀ frames room r, frames.length + room = depthLimit → Numeral.EndsBefore r →
      places? (.value frames) (cs ++ r) = (t.value? room).bind fun v => places? (.after frames v) r
  | .items ts => ∀ frames items room r, frames.length + 1 + room = depthLimit → Numeral.EndsBefore r →
      places? (.value (.array items :: frames)) (cs ++ r) =
        (Tree.items? room ts).bind fun vs => places? (.arrayNext frames (vs.reverse ++ items)) r
  | .member (ps, t) => ∀ frames members room r, frames.length + 1 + room = depthLimit →
      Numeral.EndsBefore r → places? (.memberStart frames members) (cs ++ r) =
        (characters? ps).bind fun s => (t.value? room).bind fun v =>
          places? (.objectNext frames ((String.ofList s, v) :: members)) r
  | .members ms => ∀ frames members room r, frames.length + 1 + room = depthLimit →
      Numeral.EndsBefore r → places? (.memberStart frames members) (cs ++ r) =
        (Tree.members? room ms).bind fun es => places? (.objectNext frames (es.reverse ++ members)) r

theorem places?_mark {c : Char} {l : Lexeme} (visible : isSpace c = false)
    (read : ∀ r, Lexeme.read? c r = some (l, r)) {p q : Place} (step : p.step l = some q) (r : List Char) :
    places? p (c :: r) = places? q r := by
  rw [places?_cons visible, read, Option.bind_some]
  dsimp only
  rw [step, Option.bind_some]

/-- An array or an object is opened if there is room for one more level. -/
theorem places?_open {c : Char} {l : Lexeme} {frames : List Frame} {inner : Place}
    (visible : isSpace c = false) (read : ∀ r, Lexeme.read? c r = some (l, r))
    (step : Place.step (.value frames) l = if frames.length < depthLimit then some inner else none)
    (r : List Char) :
    places? (.value frames) (c :: r) = if frames.length < depthLimit then places? inner r else none := by
  rw [places?_cons visible, read, Option.bind_some]
  dsimp only
  rw [step]
  split <;> rfl

theorem Phrase.leads_array {ts : List Tree} {cs : List Char}
    (inside : ∀ frames room r, frames.length + 1 + room = depthLimit →
      places? (.arrayStart frames) (cs ++ ']' :: r) =
        (Tree.items? room ts).bind fun vs => places? (.after frames (.array vs)) r) :
    Phrase.Leads ('[' :: (cs ++ [']'])) (.value (.array ts)) := by
  intro frames room r depth _
  rw [List.cons_append, List.append_assoc, List.singleton_append,
    places?_open (by decide) (fun _ => rfl) rfl]
  cases room with
  | zero =>
    rw [if_neg (by omega)]
    rfl
  | succ room =>
    rw [if_pos (by omega), inside frames room r (by omega), Tree.value?, Option.bind_map]
    rfl

theorem Phrase.leads_object {ms : List (List Piece × Tree)} {cs : List Char}
    (inside : ∀ frames room r, frames.length + 1 + room = depthLimit →
      places? (.objectStart frames) (cs ++ '\x7d' :: r) =
        (Tree.members? room ms).bind fun es => places? (.after frames (.object es)) r) :
    Phrase.Leads ('\x7b' :: (cs ++ ['\x7d'])) (.value (.object ms)) := by
  intro frames room r depth _
  rw [List.cons_append, List.append_assoc, List.singleton_append,
    places?_open (by decide) (fun _ => rfl) rfl]
  cases room with
  | zero =>
    rw [if_neg (by omega)]
    rfl
  | succ room =>
    rw [if_pos (by omega), inside frames room r (by omega), Tree.value?, Option.bind_map]
    rfl

/-- The text of a phrase is read as what the phrase stands for. -/
theorem Spelled.leads {p : Phrase} {cs : List Char} (spelled : Spelled p cs) : p.Leads cs := by
  -- the frames and what follows stay free, since the parts of a phrase come under more frames and before a
  -- comma or a closing character
  induction spelled with
  | null =>
    intro frames room r _ _
    exact places?_cons (by decide) _ _
  | @bool b =>
    intro frames room r _ _
    cases b with
    | true => exact places?_cons (by decide) _ _
    | false => exact places?_cons (by decide) _ _
  | number spelled =>
    intro frames room r _ ends
    rw [places?_numeral spelled _ ends, Tree.value?, Place.step, Place.start]
    split <;> rfl
  | text spelled =>
    intro frames room r _ _
    rw [List.cons_append, List.append_assoc, List.singleton_append, places?_text spelled, Tree.value?]
    cases characters? _ <;> rfl
  | noItems each =>
    refine Phrase.leads_array fun frames room r _ => ?_
    rw [places?_blank each]
    exact places?_mark (by decide) (fun _ => rfl) rfl r
  | @array ts cs items ih =>
    refine Phrase.leads_array fun frames room r depth => ?_
    rw [(items.places?_start frames _).1, ih frames [] room _ depth (endsBefore_cons (.inr (.inl rfl)) r)]
    refine congrArg _ (funext fun vs => places?_mark (by decide) (fun _ => rfl) ?_ r)
    rw [Place.step, List.append_nil, List.reverse_reverse]
  | noMembers each =>
    refine Phrase.leads_object fun frames room r _ => ?_
    rw [places?_blank each]
    exact places?_mark (by decide) (fun _ => rfl) rfl r
  | @object ms cs members ih =>
    refine Phrase.leads_object fun frames room r depth => ?_
    rw [(members.places?_start frames _).2, ih frames [] room _ depth (endsBefore_cons (.inr (.inr rfl)) r)]
    refine congrArg _ (funext fun es => places?_mark (by decide) (fun _ => rfl) ?_ r)
    rw [Place.step, List.append_nil, List.reverse_reverse]
  | blanks before _ behind ih =>
    intro frames room r depth ends
    rw [List.append_assoc, places?_blank before, List.append_assoc,
      ih frames room _ depth (endsBefore_blank behind ends)]
    simp only [places?_blank behind]
  | lastItem _ ih =>
    intro frames items room r depth ends
    rw [ih (.array items :: frames) room r depth ends, Tree.items?, Tree.items?]
    cases Tree.value? _ _ <;> rfl
  | @item t ts cs ds _ _ first rest =>
    intro frames items room r depth ends
    have comma := endsBefore_cons (.inl rfl) (ds ++ r)
    rw [List.append_assoc, List.cons_append, first (.array items :: frames) room _ depth comma, Tree.items?]
    cases t.value? room with
    | none => rfl
    | some v =>
      have next : places? (.after (.array items :: frames) v) (',' :: (ds ++ r)) =
          places? (.value (.array (v :: items) :: frames)) (ds ++ r) :=
        places?_mark (by decide) (fun _ => rfl) rfl _
      rw [Option.bind_some, next, rest frames (v :: items) room r depth ends]
      cases Tree.items? room ts <;> simp
  | @named ps t _ cs behind ds before spelled blank _ ih =>
    intro frames members room r depth ends
    have split : '"' :: (cs ++ '"' :: (behind ++ ':' :: ds)) ++ r =
        '"' :: (cs ++ '"' :: (behind ++ ':' :: (ds ++ r))) := by simp
    rw [List.append_assoc, places?_blank before, split, places?_text spelled]
    refine congrArg _ (funext fun s => ?_)
    have colon : places? (.nameEnd frames members (String.ofList s)) (':' :: (ds ++ r)) =
        places? (.value (.object members (String.ofList s) :: frames)) (ds ++ r) :=
      places?_mark (by decide) (fun _ => rfl) rfl _
    rw [Place.step, Option.bind_some, places?_blank blank, colon,
      ih (.object members (String.ofList s) :: frames) room r depth ends]
    rfl
  | @lastMember m _ _ ih =>
    intro frames members room r depth ends
    rw [ih frames members room r depth ends, Tree.members?, Tree.members?]
    cases characters? m.1 <;> cases Tree.value? room m.2 <;> rfl
  | @nextMember m ms cs ds _ _ first rest =>
    intro frames members room r depth ends
    have comma := endsBefore_cons (.inl rfl) (ds ++ r)
    rw [List.append_assoc, List.cons_append, first frames members room _ depth comma, Tree.members?]
    cases characters? m.1 with
    | none => rfl
    | some s =>
      cases m.2.value? room with
      | none => rfl
      | some v =>
        have next : places? (.objectNext frames ((String.ofList s, v) :: members)) (',' :: (ds ++ r)) =
            places? (.memberStart frames ((String.ofList s, v) :: members)) (ds ++ r) :=
          places?_mark (by decide) (fun _ => rfl) rfl _
        rw [Option.bind_some, Option.bind_some, next, rest frames _ room r depth ends]
        cases Tree.members? room ms <;> simp

theorem parse?_eq (text : String) : parse? text = (places? (.value []) text.toList).bind fun
    | .complete v => some v
    | _ => none := by
  rw [parse?, places?, Option.bind_assoc]
  refine congrArg _ (funext fun ls => ?_)
  rw [ofLexemes?]
  cases ls.foldlM Place.step (.value []) with
  | none => rfl
  | some p => cases p <;> rfl

/-- A text that spells a value is read as what it spells, or refused if that is beyond the limits. -/
theorem parse?_of_spelled {t : Tree} {text : String} (spelled : Spelled (.value t) text.toList) :
    parse? text = t.value? depthLimit := by
  have nothing : Numeral.EndsBefore [] := by rintro _ ⟨⟩
  have leads := spelled.leads [] depthLimit [] (Nat.zero_add _) nothing
  rw [List.append_nil] at leads
  rw [parse?_eq, leads, Option.bind_assoc]
  cases t.value? depthLimit with
  | none => rfl
  | some v => rw [Option.bind_some, places?_nil]; rfl

end Json

end PocketConsole
