import PocketConsole.Json.Numeral
import PocketConsole.Json.Text

namespace PocketConsole

/-- A JSON value. Objects keep their members as written, repeated names included. -/
inductive Json
  | null
  | bool (b : Bool)
  | number (n : Numeral)
  | text (s : String)
  | array (items : List Json)
  | object (members : List (String × Json))

namespace Json

/-- What a JSON text is made of, blanks apart. -/
inductive Lexeme
  | openArray
  | closeArray
  | openObject
  | closeObject
  | comma
  | colon
  | null
  | bool (b : Bool)
  | number (n : Numeral)
  | text (s : String)
deriving DecidableEq, Repr

/-- The blanks allowed between lexemes. -/
def isSpace (c : Char) : Bool :=
  c = ' ' || c = '\t' || c = '\n' || c = '\r'

/-- Reads the lexeme that starts with a character. -/
def Lexeme.read? (c : Char) (r : List Char) : Option (Lexeme × List Char) :=
  match c with
  | '[' => some (.openArray, r)
  | ']' => some (.closeArray, r)
  | '\x7b' => some (.openObject, r)
  | '\x7d' => some (.closeObject, r)
  | ',' => some (.comma, r)
  | ':' => some (.colon, r)
  | '"' => (JsonText.read? [] r).map fun (s, rest) => (.text (String.ofList s), rest)
  | 'n' =>
    match r with
    | 'u' :: 'l' :: 'l' :: rest => some (.null, rest)
    | _ => none
  | 't' =>
    match r with
    | 'r' :: 'u' :: 'e' :: rest => some (.bool true, rest)
    | _ => none
  | 'f' =>
    match r with
    | 'a' :: 'l' :: 's' :: 'e' :: rest => some (.bool false, rest)
    | _ => none
  | c => (Numeral.read? (c :: r)).map fun (n, rest) => (.number n, rest)

theorem Lexeme.length_read? {c : Char} {r rest : List Char} {l : Lexeme}
    (read : Lexeme.read? c r = some (l, rest)) : rest.length ≤ r.length := by
  unfold Lexeme.read? at read
  split at read
  all_goals first
    | (simp only [Option.some.injEq, Prod.mk.injEq] at read; exact read.2 ▸ Nat.le_refl _)
    | skip
  · obtain ⟨⟨s, after⟩, inner, same⟩ := Option.map_eq_some_iff.1 read
    simp only [Prod.mk.injEq] at same
    exact same.2 ▸ Nat.le_of_lt (JsonText.length_read? inner)
  · split at read
    · simp only [Option.some.injEq, Prod.mk.injEq] at read
      simp only [← read.2, List.length_cons]
      omega
    · simp at read
  · split at read
    · simp only [Option.some.injEq, Prod.mk.injEq] at read
      simp only [← read.2, List.length_cons]
      omega
    · simp at read
  · split at read
    · simp only [Option.some.injEq, Prod.mk.injEq] at read
      simp only [← read.2, List.length_cons]
      omega
    · simp at read
  · obtain ⟨⟨n, after⟩, inner, same⟩ := Option.map_eq_some_iff.1 read
    have shorter := Numeral.length_read? inner
    simp only [Prod.mk.injEq] at same
    rw [← same.2]
    simp only [List.length_cons] at shorter
    omega

/-- Reads a text as lexemes, behind those already read, latest first. -/
def lexemes? (done : List Lexeme) : List Char → Option (List Lexeme)
  | [] => some done.reverse
  | c :: r =>
    if isSpace c then lexemes? done r
    else
      match _read : Lexeme.read? c r with
      | none => none
      | some (l, rest) => lexemes? (l :: done) rest
termination_by cs => cs.length
decreasing_by
  · simp
  · exact Nat.lt_succ_of_le (Lexeme.length_read? _read)

/-- A value that is being read and waits for one of its parts, which are kept latest first. -/
inductive Frame
  | array (items : List Json)
  | object (members : List (String × Json)) (key : String)

/-- Where a reader stands: what has been read of the enclosing values, and what may come next. -/
inductive Place
  /-- A value must come. -/
  | value (frames : List Frame)
  /-- An array has been opened. -/
  | arrayStart (frames : List Frame)
  /-- An item has been read. -/
  | arrayNext (frames : List Frame) (items : List Json)
  /-- An object has been opened. -/
  | objectStart (frames : List Frame)
  /-- A name must come. -/
  | memberStart (frames : List Frame) (members : List (String × Json))
  /-- A name has been read. -/
  | nameEnd (frames : List Frame) (members : List (String × Json)) (key : String)
  /-- A member has been read. -/
  | objectNext (frames : List Frame) (members : List (String × Json))
  /-- The value is complete. -/
  | complete (v : Json)

/-- How many values may enclose one another. -/
def depthLimit : Nat :=
  127

/-- The place after a value within its frames. -/
def Place.after (frames : List Frame) (v : Json) : Place :=
  match frames with
  | [] => .complete v
  | .array items :: more => .arrayNext more (v :: items)
  | .object members key :: more => .objectNext more ((key, v) :: members)

/-- The place after the first lexeme of a value. -/
def Place.start (frames : List Frame) : Lexeme → Option Place
  | .null => some (.after frames .null)
  | .bool b => some (.after frames (.bool b))
  | .number n => if n.inRange then some (.after frames (.number n)) else none
  | .text s => some (.after frames (.text s))
  | .openArray => if frames.length < depthLimit then some (.arrayStart frames) else none
  | .openObject => if frames.length < depthLimit then some (.objectStart frames) else none
  | _ => none

/-- The place after one more lexeme, if it may come. -/
def Place.step : Place → Lexeme → Option Place
  | .value frames, l => Place.start frames l
  | .arrayStart frames, .closeArray => some (.after frames (.array []))
  | .arrayStart frames, l => Place.start (.array [] :: frames) l
  | .arrayNext frames items, .comma => some (.value (.array items :: frames))
  | .arrayNext frames items, .closeArray => some (.after frames (.array items.reverse))
  | .objectStart frames, .closeObject => some (.after frames (.object []))
  | .objectStart frames, .text s => some (.nameEnd frames [] s)
  | .memberStart frames members, .text s => some (.nameEnd frames members s)
  | .nameEnd frames members key, .colon => some (.value (.object members key :: frames))
  | .objectNext frames members, .comma => some (.memberStart frames members)
  | .objectNext frames members, .closeObject => some (.after frames (.object members.reverse))
  | _, _ => none

/-- The value of a list of lexemes. -/
def ofLexemes? (ls : List Lexeme) : Option Json :=
  match ls.foldlM Place.step (.value []) with
  | some (.complete v) => some v
  | _ => none

/-- The value of a text. -/
def parse? (s : String) : Option Json :=
  (lexemes? [] s.toList).bind ofLexemes?

/-- The byte that a value is. -/
def byte? : Json → Option UInt8
  | number n => n.toByte?
  | _ => none

/-- The bytes that a value lists. -/
def bytes? : Json → Option (List UInt8)
  | array items => items.mapM byte?
  | _ => none

end Json

end PocketConsole
