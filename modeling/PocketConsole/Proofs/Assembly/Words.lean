import PocketConsole.Assembly.Statement
import PocketConsole.Proofs.Text.Pieces

namespace PocketConsole

namespace Text

/-- The words of a line: what stands between its blanks. -/
def words (line : List Char) : List (List Char) :=
  (line.splitOnP isBlank).filter fun word => word ≠ []

/-- A word has a character, and none of its characters is a blank. -/
structure IsWord (word : List Char) : Prop where
  nonempty : word ≠ []
  plain : ∀ c ∈ word, isBlank c = false

theorem words_nil : words [] = [] := rfl

/-- A blank ends a word and begins the next. -/
theorem words_append_blank {c : Char} (blank : isBlank c = true) (before after : List Char) :
    words (before ++ c :: after) = words before ++ words after := by
  rw [words, List.splitOnP_append_cons _ _ blank, List.filter_append]
  rfl

theorem words_cons_blank {c : Char} (blank : isBlank c = true) (cs : List Char) : words (c :: cs) = words cs :=
  words_append_blank blank [] cs

theorem IsWord.words_eq {word : List Char} (single : IsWord word) : words word = [word] := by
  rw [words, List.splitOnP_eq_singleton single.plain]
  simp [single.nonempty]

/-- A word goes on up to a blank or to the end. -/
theorem IsWord.words_append {word rest : List Char} (single : IsWord word)
    (ends : ∀ c, rest.head? = some c → isBlank c = true) : words (word ++ rest) = word :: words rest := by
  cases rest with
  | nil => rw [List.append_nil, single.words_eq, words_nil]
  | cons c rest =>
    have blank := ends c rfl
    rw [words_append_blank blank, single.words_eq, words_cons_blank blank]
    rfl

theorem not_of_mem_splitOnP {α : Type} {p : α → Bool} {xs piece : List α} (member : piece ∈ xs.splitOnP p) :
    ∀ x ∈ piece, p x = false := by
  induction xs generalizing piece with
  | nil =>
    rw [List.splitOnP_nil, List.mem_singleton] at member
    rw [member]
    exact fun x none => absurd none List.not_mem_nil
  | cons a xs ih =>
    obtain ⟨first, more, pieces⟩ := List.exists_cons_of_ne_nil (List.splitOnP_ne_nil p xs)
    rw [pieces] at ih
    rw [List.splitOnP_cons_eq_if_modifyHead, pieces] at member
    split at member
    · rcases List.mem_cons.1 member with rfl | later
      · exact fun x none => absurd none List.not_mem_nil
      · exact ih later
    · rename_i plain
      rcases List.mem_cons.1 member with rfl | later
      · intro x inside
        rcases List.mem_cons.1 inside with rfl | rest
        · simpa using plain
        · exact ih List.mem_cons_self x rest
      · exact ih (List.mem_cons_of_mem _ later)

theorem isWord_of_mem_words {line word : List Char} (member : word ∈ words line) : IsWord word := by
  obtain ⟨piece, nonempty⟩ := List.mem_filter.1 member
  exact ⟨of_decide_eq_true nonempty, not_of_mem_splitOnP piece⟩

theorem words_trimLeft (cs : List Char) : words (trimLeft cs) = words cs := by
  induction cs with
  | nil => rfl
  | cons c cs ih =>
    rw [trimLeft, List.dropWhile_cons]
    split
    · rename_i blank
      exact ih.trans (words_cons_blank blank cs).symm
    · rfl

theorem head?_dropWhile {α : Type} {p : α → Bool} {xs : List α} {x : α}
    (first : (xs.dropWhile p).head? = some x) : p x = false := by
  have head := List.head?_dropWhile_not p xs
  rw [first] at head
  simpa using head

/-- The words of a line are its first word and those of what stands after it. -/
theorem words_eq (cs : List Char) :
    words cs = if (firstWord cs).1 = [] then [] else (firstWord cs).1 :: words (firstWord cs).2 := by
  rw [← words_trimLeft]
  unfold firstWord
  dsimp only
  split
  · rename_i none
    cases rest : trimLeft cs with
    | nil => rfl
    | cons c more =>
      have first : isBlank c = false := head?_dropWhile (congrArg List.head? rest)
      simp [rest, first] at none
  · rename_i nonempty
    have parts := List.takeWhile_append_dropWhile (p := fun c => !isBlank c) (l := trimLeft cs)
    have single : IsWord ((trimLeft cs).takeWhile fun c => !isBlank c) :=
      ⟨nonempty, fun c inside => by simpa using List.all_eq_true.1 List.all_takeWhile c inside⟩
    refine (congrArg words parts.symm).trans (single.words_append fun c first => ?_)
    simpa using head?_dropWhile first

theorem lines_eq_splitOn (cs : List Char) : lines cs = cs.splitOn '\n' :=
  splitAt_eq_splitOn '\n' cs

/-- A line feed ends a line and begins the next. -/
theorem lines_append_feed (before after : List Char) :
    lines (before ++ '\n' :: after) = lines before ++ lines after :=
  splitAt_append '\n' before after

theorem lines_eq_singleton {line : List Char} (single : '\n' ∉ line) : lines line = [line] :=
  splitAt_of_not_mem single

theorem IsWord.feed_not_mem {word : List Char} (single : IsWord word) : '\n' ∉ word := by
  intro feed
  have plain := single.plain '\n' feed
  cases plain

end Text

namespace Statement

/-- The statement of a line is its first word and the second, if there is one. -/
theorem ofLine?_eq (line : List Char) :
    ofLine? line =
      match Text.words line with
      | [] => none
      | word :: more => if word.head? = some '#' then none else some ⟨word, more.head?⟩ := by
  rw [Text.words_eq]
  unfold ofLine?
  cases Text.firstWord line with
  | mk word rest =>
    cases word with
    | nil => rfl
    | cons c cs =>
      by_cases comment : c = '#'
      · subst comment
        rfl
      · have apart : (c :: cs).head? ≠ some '#' := by simpa using comment
        simp only [List.cons_ne_nil, if_false, apart, Text.words_eq rest]
        split
        · rename_i empty
          cases empty
        · rename_i same
          cases same
          exact absurd rfl comment
        · rename_i same
          cases same
          cases Text.firstWord rest with
          | mk operand more => cases operand <;> rfl

/-- The statements of a text that is written behind another, from a new line on, follow those of the other. -/
theorem ofSource_append_feed (before after : List Char) :
    ofSource (before ++ '\n' :: after) = ofSource before ++ ofSource after := by
  rw [ofSource, Text.lines_append_feed, List.filterMap_append]
  rfl

end Statement

end PocketConsole
