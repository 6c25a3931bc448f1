import Mathlib.Logic.Relation
import PocketConsole.Assembly.Basic
import PocketConsole.Proofs.Assembly.Words

namespace PocketConsole

namespace Text

/-- Whether a line is kept: after its first blanks something stands, and no comment. -/
def isKept (line : List Char) : Bool :=
  match trimLeft line with
  | [] => false
  | c :: _ => c ≠ '#'

/-- The first word and, if there is one, the second after a space. -/
def firstTwo : List (List Char) → List Char
  | [] => []
  | [word] => word
  | word :: operand :: _ => word ++ ' ' :: operand

/-- The lines that are kept, each with its first two words alone. -/
def compact (ls : List (List Char)) : List (List Char) :=
  (ls.filter isKept).map fun line => firstTwo (words line)

/-- The canonical layout of a source text: nothing but the lines that are kept and their first two words,
each line ended by a line feed. -/
def canonical (source : String) : String :=
  String.ofList ((compact (lines source.toList)).flatMap fun line => line ++ ['\n'])

/-- A change of the layout of a text, given by its lines. -/
inductive Relaid : List (List Char) → List (List Char) → Prop
  /-- A line that is blank or a comment comes in anywhere. -/
  | insert (before after : List (List Char)) {line : List Char} (idle : isKept line = false) :
      Relaid (before ++ after) (before ++ line :: after)
  /-- A line ends in a carriage return as well. -/
  | carriage (before after : List (List Char)) (line : List Char) :
      Relaid (before ++ line :: after) (before ++ (line ++ ['\r']) :: after)
  /-- The blanks around and between the words of a line change. -/
  | space (before after : List (List Char)) {line other : List Char} (same : words other = words line) :
      Relaid (before ++ line :: after) (before ++ other :: after)
  /-- More is written behind two words. -/
  | extend (before after : List (List Char)) {line : List Char} (full : 2 ≤ (words line).length) {gap : Char}
      (blank : isBlank gap = true) (more : List Char) :
      Relaid (before ++ line :: after) (before ++ (line ++ gap :: more) :: after)

theorem isKept_eq (line : List Char) :
    isKept line = (words line).head?.any fun word => word.head? ≠ some '#' := by
  rw [words_eq, isKept, firstWord]
  dsimp only
  cases rest : trimLeft line with
  | nil => rfl
  | cons c cs =>
    have plain : isBlank c = false := head?_dropWhile (congrArg List.head? rest)
    simp [plain]

theorem firstTwo_take (ws : List (List Char)) : firstTwo (ws.take 2) = firstTwo ws := by
  rcases ws with _ | ⟨word, _ | ⟨operand, more⟩⟩ <;> rfl

theorem words_firstTwo {ws : List (List Char)} (each : ∀ word ∈ ws, IsWord word) :
    words (firstTwo ws) = ws.take 2 := by
  rcases ws with _ | ⟨word, _ | ⟨operand, more⟩⟩
  · rfl
  · exact (each word List.mem_cons_self).words_eq
  · have first := each word List.mem_cons_self
    have second := each operand (List.mem_cons_of_mem _ List.mem_cons_self)
    rw [firstTwo, words_append_blank rfl, first.words_eq, second.words_eq]
    rfl

theorem compact_append (before after : List (List Char)) :
    compact (before ++ after) = compact before ++ compact after := by
  simp [compact]

theorem compact_cons (line : List Char) (after : List (List Char)) :
    compact (line :: after) = compact [line] ++ compact after :=
  compact_append [line] after

theorem compact_of_kept {line : List Char} (kept : isKept line = true) : compact [line] = [firstTwo (words line)] := by
  simp [compact, kept]

theorem compact_of_idle {line : List Char} (idle : isKept line = false) : compact [line] = [] := by
  simp [compact, idle]

/-- Of a line its first two words are seen, and no more. -/
theorem compact_congr {line other : List Char} (same : (words other).take 2 = (words line).take 2) :
    compact [other] = compact [line] := by
  have kept : isKept other = isKept line := by
    have head := congrArg List.head? same
    rw [List.head?_take, List.head?_take] at head
    rw [isKept_eq, isKept_eq]
    exact congrArg _ head
  cases found : isKept line with
  | false => rw [compact_of_idle (kept.trans found), compact_of_idle found]
  | true =>
    rw [compact_of_kept (kept.trans found), compact_of_kept found, ← firstTwo_take, same, firstTwo_take]

theorem compact_firstTwo (line : List Char) : compact [firstTwo (words line)] = compact [line] := by
  refine compact_congr ?_
  rw [words_firstTwo fun word inside => isWord_of_mem_words inside, List.take_take]
  rfl

theorem compact_compact (ls : List (List Char)) : compact (compact ls) = compact ls := by
  induction ls with
  | nil => rfl
  | cons line ls ih =>
    rw [compact_cons, compact_append, ih]
    cases found : isKept line with
    | false => rw [compact_of_idle found]; rfl
    | true => rw [compact_of_kept found, compact_firstTwo, compact_of_kept found]

theorem compact_replace (before after : List (List Char)) {line other : List Char}
    (same : (words other).take 2 = (words line).take 2) :
    compact (before ++ other :: after) = compact (before ++ line :: after) := by
  rw [compact_append, compact_append, compact_cons other, compact_cons line, compact_congr same]

theorem compact_of_relaid {ls others : List (List Char)} (relaid : Relaid ls others) :
    compact others = compact ls := by
  cases relaid with
  | insert before after idle =>
    rw [compact_append, compact_append, compact_cons, compact_of_idle idle, List.nil_append]
  | carriage before after line =>
    refine compact_replace before after ?_
    rw [words_append_blank rfl, words_nil, List.append_nil]
  | space before after same => exact compact_replace before after (congrArg _ same)
  | extend before after full blank more =>
    refine compact_replace before after ?_
    rw [words_append_blank blank, List.take_append_of_le_length full]

theorem words_flatMap {ws : List (List Char)} (each : ∀ word ∈ ws, IsWord word) :
    words (ws.flatMap fun word => word ++ [' ']) = ws := by
  induction ws with
  | nil => rfl
  | cons word ws ih =>
    have rest := ih fun other inside => each other (List.mem_cons_of_mem _ inside)
    rw [List.flatMap_cons, List.append_assoc, List.singleton_append, words_append_blank rfl,
      (each word List.mem_cons_self).words_eq, rest]
    rfl

theorem relaid_firstTwo (before after : List (List Char)) (line : List Char) :
    Relation.EqvGen Relaid (before ++ line :: after) (before ++ firstTwo (words line) :: after) := by
  have each (word : List Char) (inside : word ∈ words line) := isWord_of_mem_words inside
  have short := words_firstTwo each
  by_cases full : 2 ≤ (words line).length
  · -- with its other words behind them the first two are the line but for its blanks
    let rest := ((words line).drop 2).flatMap fun word => word ++ [' ']
    have longer : words (firstTwo (words line) ++ ' ' :: rest) = words line := by
      rw [words_append_blank rfl, short, words_flatMap fun word inside => each word (List.mem_of_mem_drop inside),
        List.take_append_drop]
    refine .trans _ _ _ (.rel _ _ (.space before after longer)) (.symm _ _ (.rel _ _ ?_))
    exact .extend before after (by rw [short, List.length_take]; omega) rfl rest
  · refine .rel _ _ (.space before after ?_)
    rw [short, List.take_of_length_le (by omega)]

theorem relaid_compact (before ls : List (List Char)) :
    Relation.EqvGen Relaid (before ++ ls) (before ++ compact ls) := by
  induction ls generalizing before with
  | nil => exact .refl _
  | cons line ls ih =>
    rw [compact_cons]
    cases found : isKept line with
    | false =>
      rw [compact_of_idle found]
      exact .trans _ _ _ (.symm _ _ (.rel _ _ (.insert before ls found))) (ih before)
    | true =>
      have below := ih (before ++ [firstTwo (words line)])
      rw [List.append_assoc, List.append_assoc] at below
      rw [compact_of_kept found]
      exact .trans _ _ _ (relaid_firstTwo before ls line) below

/-- Changes of the layout lead from one text to another exactly if both are the same once compacted. -/
theorem relaid_iff (ls others : List (List Char)) :
    Relation.EqvGen Relaid ls others ↔ compact others = compact ls := by
  constructor
  · intro changes
    induction changes with
    | rel ls others change => exact compact_of_relaid change
    | refl ls => rfl
    | symm ls others _ ih => exact ih.symm
    | trans ls middle others _ _ first second => exact second.trans first
  · intro same
    have back := relaid_compact [] others
    rw [same] at back
    exact .trans _ _ _ (relaid_compact [] ls) (.symm _ _ back)

theorem feed_not_mem_firstTwo {ws : List (List Char)} (none : ∀ word ∈ ws, '\n' ∉ word) : '\n' ∉ firstTwo ws := by
  rcases ws with _ | ⟨word, _ | ⟨operand, more⟩⟩
  · exact List.not_mem_nil
  · exact none word List.mem_cons_self
  · have first := none word List.mem_cons_self
    have second := none operand (List.mem_cons_of_mem _ List.mem_cons_self)
    simp [firstTwo, first, second]

theorem feed_not_mem_of_mem_compact {ls : List (List Char)} {line : List Char} (member : line ∈ compact ls) :
    '\n' ∉ line := by
  obtain ⟨original, -, rfl⟩ := List.mem_map.1 member
  exact feed_not_mem_firstTwo fun word inside => (isWord_of_mem_words inside).feed_not_mem

theorem lines_flatMap {ls : List (List Char)} (single : ∀ line ∈ ls, '\n' ∉ line) :
    lines (ls.flatMap fun line => line ++ ['\n']) = ls ++ [[]] := by
  induction ls with
  | nil => rfl
  | cons line ls ih =>
    have rest := ih fun other member => single other (List.mem_cons_of_mem _ member)
    rw [List.flatMap_cons, List.append_assoc, List.singleton_append, lines_append_feed,
      lines_eq_singleton (single line List.mem_cons_self), rest]
    rfl

theorem compact_lines_canonical (source : String) :
    compact (lines (canonical source).toList) = compact (lines source.toList) := by
  rw [canonical, String.toList_ofList, lines_flatMap fun line member => feed_not_mem_of_mem_compact member,
    compact_append, compact_compact]
  exact List.append_nil _

end Text

namespace Statement

theorem ofLine?_of_idle {line : List Char} (idle : Text.isKept line = false) : ofLine? line = none := by
  rw [Text.isKept_eq] at idle
  rw [ofLine?_eq]
  cases split : Text.words line with
  | nil => rfl
  | cons word more =>
    rw [split] at idle
    exact if_pos (by simpa using idle)

theorem ofLine?_firstTwo (line : List Char) : ofLine? (Text.firstTwo (Text.words line)) = ofLine? line := by
  rw [ofLine?_eq, ofLine?_eq, Text.words_firstTwo fun word inside => Text.isWord_of_mem_words inside]
  rcases Text.words line with _ | ⟨word, _ | ⟨operand, more⟩⟩ <;> rfl

theorem filterMap_ofLine?_compact (ls : List (List Char)) :
    (Text.compact ls).filterMap ofLine? = ls.filterMap ofLine? := by
  induction ls with
  | nil => rfl
  | cons line ls ih =>
    rw [Text.compact_cons, List.filterMap_append, ih]
    cases found : Text.isKept line with
    | false => rw [Text.compact_of_idle found, List.filterMap_cons, ofLine?_of_idle found]; rfl
    | true =>
      rw [Text.compact_of_kept found, List.filterMap_cons, List.filterMap_cons, ofLine?_firstTwo]
      cases ofLine? line <;> rfl

theorem ofSource_congr {cs others : List Char}
    (same : Text.compact (Text.lines others) = Text.compact (Text.lines cs)) : ofSource others = ofSource cs := by
  rw [ofSource, ofSource, ← filterMap_ofLine?_compact, same, filterMap_ofLine?_compact]

end Statement

/-- The canonical layout of a source text gives the same code and is canonical itself, and however often the
layout is changed the code stays. -/
theorem Code.ofSource_canonical (source : String) :
    ofSource (Text.canonical source) = ofSource source ∧
      Text.canonical (Text.canonical source) = Text.canonical source ∧
      ∀ other : String, Relation.EqvGen Text.Relaid (Text.lines source.toList) (Text.lines other.toList) →
        ofSource other = ofSource source := by
  have same := Text.compact_lines_canonical source
  refine ⟨congrArg ofStatements (Statement.ofSource_congr same), ?_, fun other changes => ?_⟩
  · rw [Text.canonical, same]
    rfl
  · exact congrArg ofStatements (Statement.ofSource_congr ((Text.relaid_iff _ _).1 changes))

/-- Unicode blanks, carriage returns, blank lines and comments, a last line without an end, words behind the
second. -/
theorem Code.ofSource_canonical_of_untidy :
    let source := "$n 3\n:top\nset  $n\njump top"
    let other := "# counts\r\n$n\u00a03 # three\r\n\r\n\t:top\n \u3000\n  set $n\r\n# again\n\u2003jump\rtop now"
    Text.canonical other = "$n 3\n:top\nset $n\njump top\n" ∧
      Text.canonical (Text.canonical other) = Text.canonical other ∧ ofSource other = ofSource source :=
  ⟨by decide, (ofSource_canonical _).2.1, (ofSource_canonical _).2.2 _ ((Text.relaid_iff _ _).2 (by decide))⟩

end PocketConsole
