import PocketConsole.Text.Blank
import PocketConsole.Text.Lines

namespace PocketConsole

/-- What the assembler sees of a line: its first word and its second, if it has one. -/
structure Statement where
  word : List Char
  operand : Option (List Char)
deriving DecidableEq, Repr

namespace Statement

/-- The statement of a line. Blank lines and lines whose first word starts with `#` have none. -/
def ofLine? (line : List Char) : Option Statement :=
  match Text.firstWord line with
  | ([], _) => none
  | ('#' :: _, _) => none
  | (word, rest) =>
    match Text.firstWord rest with
    | ([], _) => some ⟨word, none⟩
    | (operand, _) => some ⟨word, some operand⟩

/-- The statements of a source text, in order. -/
def ofSource (source : List Char) : List Statement :=
  (Text.lines source).filterMap ofLine?

/-- Whether the statement gives a value to a constant. -/
def isConstant (s : Statement) : Bool :=
  s.word.head? = some '$'

/-- The name that the statement declares as a label. -/
def label? (s : Statement) : Option (List Char) :=
  match s.word with
  | ':' :: name => some name
  | _ => none

end Statement

end PocketConsole
