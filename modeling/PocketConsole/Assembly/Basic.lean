import Std.Data.HashMap
import PocketConsole.Assembly.Literal
import PocketConsole.Assembly.Statement
import PocketConsole.Program
import PocketConsole.Register

namespace PocketConsole

/-- Values of the constants of a source text, by their upper-case names. -/
abbrev Constants : Type := Std.HashMap String Int

/-- The constants of a text. They hold everywhere in it; of two values the later one counts, and a
value that is missing or no literal is 0. -/
def Constants.ofStatements (ss : List Statement) : Constants :=
  ss.foldl
    (fun table s =>
      if s.isConstant then
        table.insert (Text.caseless s.word) ((s.operand.bind Literal.parse?).getD 0)
      else table)
    ∅

/-- The number that an operand stands for: 0 if it is absent, the value of a constant (0 without
one), or that of a literal. -/
def Constants.number? (table : Constants) : Option (List Char) → Option Int
  | none => some 0
  | some word =>
    if word.head? = some '$' then some (table.getD (Text.caseless word) 0) else Literal.parse? word

/-- Code under construction. -/
structure Draft where
  tokens : Array Token := #[]
  labels : Labels := .empty
  /-- The number of the latest label of each name, in upper case. -/
  numbers : Std.HashMap String UInt8 := ∅

namespace Draft

/-- The draft after a label: a token that does nothing, and a number, counted modulo 256, that leads
back to it. -/
def addLabel (d : Draft) (name : List Char) (parameter : UInt8) : Draft :=
  let number := UInt8.ofNat d.labels.size
  let here := UInt16.ofNat d.tokens.size
  { tokens := d.tokens.push (.ofOpcode .nop parameter)
    labels := d.labels.insert number (.ofUInt16 here)
    numbers := d.numbers.insert (Text.caseless name) number }

/-- The parameter of an operation: for a jump the number of the label named, 0 if it has not been
declared yet; else a number or the number of a register, or 0. -/
def parameter (d : Draft) (constants : Constants) (op : Opcode) (operand : Option (List Char)) :
    UInt8 :=
  if op.isJump then (operand.bind fun name => d.numbers[Text.caseless name]?).getD 0
  else match constants.number? operand with
    | some v => Literal.toByte v
    | none => ((operand.bind Register.ofName?).map Register.toByte).getD 0

/-- The draft after a statement, which gives exactly one token. An unknown word does nothing. -/
def add (constants : Constants) (d : Draft) (s : Statement) : Draft :=
  match s.label? with
  | some name => d.addLabel name (((constants.number? s.operand).map Literal.toByte).getD 0)
  | none =>
    let op := (Opcode.ofName? s.word).getD .nop
    let parameter := d.parameter constants op s.operand
    { d with tokens := d.tokens.push (.ofOpcode op parameter) }

theorem size_tokens_add (constants : Constants) (d : Draft) (s : Statement) :
    (d.add constants s).tokens.size = d.tokens.size + 1 := by
  unfold add addLabel
  split <;> simp

end Draft

/-- The code of a list of statements. -/
def Code.ofStatements (ss : List Statement) : Code :=
  let draft := ss.foldl (Draft.add (.ofStatements ss)) {}
  ⟨draft.tokens.toList, draft.labels⟩

/-- Assembles a source text. Every text is assembled: what cannot be understood does nothing. -/
def Code.ofSource (source : String) : Code :=
  .ofStatements (Statement.ofSource source.toList)

/-- The program of a source text. -/
def Program.ofSource (name source : String) : Program :=
  { name := name, code := .ofSource source }

end PocketConsole
