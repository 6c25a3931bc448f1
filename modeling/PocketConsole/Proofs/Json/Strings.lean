import PocketConsole.Proofs.Json.Grammar

namespace PocketConsole.JsonText

theorem hexDigit?_of_hexDigit {c : Char} {v : Nat} (digit : HexDigit c v) : hexDigit? c = some v := by
  have each : ∀ v < 16, hexDigit? (Nat.digitChar v) = some v ∧
      hexDigit? (Nat.digitChar v).toUpper = some v := by
    decide
  obtain ⟨small, rfl | rfl⟩ := digit
  · exact (each v small).1
  · exact (each v small).2

theorem unit?_of_hexDigits {a b c d : Char} {i j k l : Nat} (first : HexDigit a i) (second : HexDigit b j)
    (third : HexDigit c k) (fourth : HexDigit d l) :
    unit? a b c d = some (((i * 16 + j) * 16 + k) * 16 + l) := by
  rw [unit?, hexDigit?_of_hexDigit first, hexDigit?_of_hexDigit second, hexDigit?_of_hexDigit third,
    hexDigit?_of_hexDigit fourth]
  rfl

/-- A character that need not be escaped stands for itself. -/
theorem read?_plain {c : Char} (notQuote : c ≠ '"') (notBackslash : c ≠ '\\') (printed : ¬ c < ' ')
    (done r : List Char) : read? done (c :: r) = read? (c :: done) r := by
  rw [read?.eq_def]
  split
  case h_6 first rest _ _ same =>
    simp only [List.cons.injEq] at same
    obtain ⟨rfl, rfl⟩ := same
    rw [if_neg (by simp [printed, notBackslash])]
  all_goals simp_all

theorem read?_letter {mark c : Char} (letter : (mark, c) ∈ letters) (done r : List Char) :
    read? done ('\\' :: mark :: r) = read? (c :: done) r := by
  simp only [letters, List.mem_cons, Prod.mk.injEq, List.not_mem_nil, or_false] at letter
  rcases letter with ⟨rfl, rfl⟩ | ⟨rfl, rfl⟩ | ⟨rfl, rfl⟩ | ⟨rfl, rfl⟩ | ⟨rfl, rfl⟩ | ⟨rfl, rfl⟩ |
    ⟨rfl, rfl⟩ | ⟨rfl, rfl⟩
  all_goals rfl

/-- An escaped unit that is no half of a pair stands for its character, whatever follows. -/
theorem read?_unit {a b c d : Char} {u : Nat} (unit : unit? a b c d = some u)
    (whole : isLeading u = false ∧ isTrailing u = false) (done r : List Char) :
    read? done ('\\' :: 'u' :: a :: b :: c :: d :: r) = read? (Char.ofNat u :: done) r := by
  rw [read?.eq_def]
  split
  case h_5 mark rest notUnit same =>
    simp only [List.cons.injEq, true_and] at same
    exact absurd same.2.symm (notUnit a b c d r same.1.symm)
  case h_6 first rest notQuote notEscape same =>
    simp only [List.cons.injEq] at same
    exact absurd same.2.symm (notEscape 'u' _ same.1.symm)
  all_goals simp_all

/-- Two halves stand for the character that they make up. -/
theorem read?_pair {a b c d e f g h : Char} {u v : Nat} (first : unit? a b c d = some u)
    (second : unit? e f g h = some v) (leading : isLeading u = true) (trailing : isTrailing v = true)
    (done r : List Char) :
    read? done ('\\' :: 'u' :: a :: b :: c :: d :: '\\' :: 'u' :: e :: f :: g :: h :: r) =
      read? (joined u v :: done) r := by
  rw [read?, first]
  dsimp only
  rw [if_pos leading, second]
  dsimp only
  rw [if_pos trailing]

/-- A half is refused unless it is the first of two. -/
theorem read?_half {a b c d : Char} {u : Nat} (unit : unit? a b c d = some u)
    (half : isLeading u = true ∨ isTrailing u = true) {r : List Char}
    (alone : isLeading u = true → ∀ e f g h rest v, r = '\\' :: 'u' :: e :: f :: g :: h :: rest →
      unit? e f g h = some v → isTrailing v = false) (done : List Char) :
    read? done ('\\' :: 'u' :: a :: b :: c :: d :: r) = none := by
  by_cases followed : ∃ e f g h rest, r = '\\' :: 'u' :: e :: f :: g :: h :: rest
  · obtain ⟨e, f, g, h, rest, rfl⟩ := followed
    rw [read?, unit]
    dsimp only
    by_cases leading : isLeading u = true
    · rw [if_pos leading]
      cases second : unit? e f g h with
      | none => rfl
      | some v =>
        have single := alone leading e f g h rest v rfl second
        dsimp only
        rw [single, if_neg Bool.false_ne_true]
    · rw [if_neg leading, if_pos (half.resolve_left leading)]
  · rw [read?, unit]
    · dsimp only
      rw [if_pos (Bool.or_eq_true_iff.2 half)]
    · intro e f g h rest same
      exact followed ⟨e, f, g, h, rest, same⟩

theorem Spelled.exists_unit {u : Nat} {ps : List Piece} {cs : List Char}
    (spelled : Spelled (.unit u :: ps) cs) :
    ∃ a b c d ds, cs = '\\' :: 'u' :: a :: b :: c :: d :: ds ∧ unit? a b c d = some u ∧ Spelled ps ds := by
  obtain _ | @⟨_, _, cs, ds, piece, more⟩ := spelled
  obtain _ | _ | @⟨a, b, c, d, i, j, k, l, first, second, third, fourth⟩ := piece
  exact ⟨a, b, c, d, ds, rfl, unit?_of_hexDigits first second third fourth, more⟩

theorem Spelled.unit_of_append {ps : List Piece} {cs r rest : List Char} {e f g h : Char}
    (spelled : Spelled ps cs) (same : cs ++ '"' :: r = '\\' :: 'u' :: e :: f :: g :: h :: rest) :
    ∃ v more, ps = .unit v :: more ∧ unit? e f g h = some v := by
  cases spelled with
  | nil => cases same
  | @cons p ps cs ds piece more =>
    cases piece with
    | plain _ _ notBackslash => exact absurd (List.cons.inj same).1 notBackslash
    | letter letter =>
      obtain rfl := (List.cons.inj (List.cons.inj same).2).1
      simp [letters] at letter
    | @unit a b c d i j k l first second third fourth =>
      simp only [List.cons_append, List.cons.injEq, true_and] at same
      obtain ⟨rfl, rfl, rfl, rfl, -⟩ := same
      exact ⟨_, ps, rfl, unit?_of_hexDigits first second third fourth⟩

/-- A string is read from each of its spellings. -/
theorem read?_append {ps : List Piece} {cs : List Char} (spelled : Spelled ps cs) (done r : List Char) :
    read? done (cs ++ '"' :: r) = (characters? ps).map fun s => (done.reverse ++ s, r) := by
  -- as the characters are put together, so that two halves are taken in one case
  fun_induction characters? ps generalizing cs done with
  | case1 =>
    cases spelled
    simp [read?]
  | case2 c more ih =>
    obtain _ | @⟨_, _, cs, ds, piece, rest⟩ := spelled
    have read : read? done (cs ++ (ds ++ '"' :: r)) = read? (c :: done) (ds ++ '"' :: r) := by
      cases piece with
      | plain printed notQuote notBackslash =>
        exact read?_plain notQuote notBackslash (Char.not_lt.2 printed) done _
      | letter letter => exact read?_letter letter done _
    rw [List.append_assoc, read, ih rest, Option.map_map]
    simp [Function.comp_def]
  | case3 u leading v more trailing ih =>
    obtain ⟨a, b, c, d, _, rfl, first, follow⟩ := spelled.exists_unit
    obtain ⟨e, f, g, h, ds, rfl, second, rest⟩ := follow.exists_unit
    have read := read?_pair first second leading trailing done (ds ++ '"' :: r)
    simp only [List.cons_append, read, ih rest, Option.map_map, Function.comp_def, List.reverse_cons,
      List.append_assoc, List.nil_append]
  | case4 u leading v more single =>
    obtain ⟨a, b, c, d, ds, rfl, first, rest⟩ := spelled.exists_unit
    refine read?_half first (.inl leading) (fun _ e f g h _ w same second => ?_) done
    obtain ⟨_, _, same, unit⟩ := rest.unit_of_append same
    cases same
    rw [second] at unit
    cases unit
    exact Bool.eq_false_iff.2 single
  | case5 u more leading other =>
    obtain ⟨a, b, c, d, ds, rfl, first, rest⟩ := spelled.exists_unit
    refine read?_half first (.inl leading) (fun _ e f g h _ w same _ => ?_) done
    obtain ⟨v, others, rfl, -⟩ := rest.unit_of_append same
    exact absurd rfl (other v others)
  | case6 u more notLeading trailing =>
    obtain ⟨a, b, c, d, ds, rfl, first, rest⟩ := spelled.exists_unit
    exact read?_half first (.inr trailing) (fun leading => absurd leading notLeading) done
  | case7 u more notLeading notTrailing ih =>
    obtain ⟨a, b, c, d, ds, rfl, first, rest⟩ := spelled.exists_unit
    have whole := And.intro (Bool.eq_false_iff.2 notLeading) (Bool.eq_false_iff.2 notTrailing)
    have read := read?_unit first whole done (ds ++ '"' :: r)
    simp only [List.cons_append, read, ih rest, Option.map_map, Function.comp_def, List.reverse_cons,
      List.append_assoc, List.nil_append]

theorem spelled_map_plain {s : List Char} (plain : s.all fun c => ' ' ≤ c ∧ c ≠ '"' ∧ c ≠ '\\') :
    Spelled (s.map .plain) s := by
  induction s with
  | nil => exact .nil
  | cons c more ih =>
    rw [List.all_cons, Bool.and_eq_true, decide_eq_true_iff] at plain
    obtain ⟨⟨printed, notQuote, notBackslash⟩, rest⟩ := plain
    exact .cons (.plain printed notQuote notBackslash) (ih rest)

theorem characters?_of_whole {u : Nat} (whole : isLeading u = false ∧ isTrailing u = false)
    (more : List Piece) : characters? (.unit u :: more) = (characters? more).map (Char.ofNat u :: ·) := by
  rw [characters?.eq_def]
  dsimp only
  rw [whole.1, whole.2, if_neg Bool.false_ne_true, if_neg Bool.false_ne_true]

theorem hexPadded_of_control : ∀ n < 32, Text.hexPadded 4 n =
    [Nat.digitChar 0, Nat.digitChar 0, Nat.digitChar (n / 16), Nat.digitChar (n % 16)] := by
  decide

/-- What is written for a character is a part of a string that stands for it, whatever follows. -/
theorem spelled_writeChar (c : Char) : ∃ p : Piece, p.Spelled (writeChar c) ∧
    ∀ more, characters? (p :: more) = (characters? more).map (c :: ·) := by
  unfold writeChar
  iterate 7
    split
    · subst c
      exact ⟨.plain _, .letter (by decide), fun _ => rfl⟩
  split
  · rename_i control
    have small : c.toNat < 32 := control
    have digit : ∀ v < 16, HexDigit (Nat.digitChar v) v := fun v bound => ⟨bound, .inl rfl⟩
    have spelled := Piece.Spelled.unit (digit 0 (by decide)) (digit 0 (by decide))
      (digit (c.toNat / 16) (by omega)) (digit (c.toNat % 16) (by omega))
    have value : ((0 * 16 + 0) * 16 + c.toNat / 16) * 16 + c.toNat % 16 = c.toNat := by omega
    rw [value] at spelled
    rw [hexPadded_of_control c.toNat small]
    refine ⟨.unit c.toNat, spelled, fun more => ?_⟩
    have notLeading : isLeading c.toNat = false := by
      simp only [isLeading, Bool.and_eq_false_iff, decide_eq_false_iff_not]
      omega
    have notTrailing : isTrailing c.toNat = false := by
      simp only [isTrailing, Bool.and_eq_false_iff, decide_eq_false_iff_not]
      omega
    rw [characters?_of_whole ⟨notLeading, notTrailing⟩, Char.ofNat_toNat]
  · rename_i notQuote notBackslash _ _ _ _ _ printed
    exact ⟨.plain c, .plain (Char.not_lt.1 printed) notQuote notBackslash, fun _ => rfl⟩

theorem spelled_flatMap_writeChar (s : List Char) :
    ∃ ps, Spelled ps (s.flatMap writeChar) ∧ characters? ps = some s := by
  induction s with
  | nil => exact ⟨[], .nil, rfl⟩
  | cons c more ih =>
    obtain ⟨p, piece, reads⟩ := spelled_writeChar c
    obtain ⟨ps, spelled, same⟩ := ih
    rw [List.flatMap_cons]
    exact ⟨p :: ps, .cons piece spelled, by rw [reads, same, Option.map_some]⟩

end PocketConsole.JsonText
