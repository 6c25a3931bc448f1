import PocketConsole.Json.Basic

/-! The texts that RFC 8259 calls JSON, apart from any reader of them. -/

namespace PocketConsole

namespace Numeral

/-- At least one digit, and nothing but digits. -/
def Digits (ds : List Char) : Prop :=
  ds ≠ [] ∧ ∀ d ∈ ds, d.isDigit = true

/-- The digits before a point: a zero, or digits that do not start with one. -/
def Whole (ds : List Char) : Prop :=
  ds = ['0'] ∨ Digits ds ∧ ds.head? ≠ some '0'

/-- The digits after a point, written behind it if there are any. -/
inductive FractionSpelled : List Char → List Char → Prop
  | absent : FractionSpelled [] []
  | present {ds : List Char} : Digits ds → FractionSpelled ds ('.' :: ds)

/-- The sign of an exponent. -/
inductive SignSpelled : Bool → List Char → Prop
  | minus : SignSpelled true ['-']
  | plus : SignSpelled false ['+']
  | absent : SignSpelled false []

/-- An exponent, written behind a letter if there is one. -/
inductive ExponentSpelled : Option (Bool × List Char) → List Char → Prop
  | absent : ExponentSpelled none []
  | present {letter : Char} {negative : Bool} {sign ds : List Char} : letter = 'e' ∨ letter = 'E' →
      SignSpelled negative sign → Digits ds →
      ExponentSpelled (some (negative, ds)) (letter :: (sign ++ ds))

/-- A minus, the digits before the point, those after it, and the exponent. -/
inductive Spelled : Numeral → List Char → Prop
  | parts {negative : Bool} {whole fraction point power : List Char}
      {exponent : Option (Bool × List Char)} :
      Whole whole → FractionSpelled fraction point → ExponentSpelled exponent power →
      Spelled ⟨negative, whole, fraction, exponent⟩
        ((if negative then ['-'] else []) ++ (whole ++ (point ++ power)))

end Numeral

namespace JsonText

/-- A part of a string: a character, or a 16-bit unit that is given by its digits. -/
inductive Piece
  | plain (c : Char)
  | unit (u : Nat)

/-- The letters that stand for a character behind a backslash. -/
def letters : List (Char × Char) :=
  [('"', '"'), ('\\', '\\'), ('/', '/'), ('b', '\x08'), ('f', '\x0c'), ('n', '\n'), ('r', '\r'),
    ('t', '\t')]

/-- A digit in radix 16, in either case. -/
def HexDigit (c : Char) (v : Nat) : Prop :=
  v < 16 ∧ (c = Nat.digitChar v ∨ c = (Nat.digitChar v).toUpper)

/-- The ways in which a part of a string may be written. -/
inductive Piece.Spelled : Piece → List Char → Prop
  | plain {c : Char} : ' ' ≤ c → c ≠ '"' → c ≠ '\\' → Spelled (.plain c) [c]
  | letter {mark c : Char} : (mark, c) ∈ letters → Spelled (.plain c) ['\\', mark]
  | unit {a b c d : Char} {i j k l : Nat} : HexDigit a i → HexDigit b j → HexDigit c k → HexDigit d l →
      Spelled (.unit (((i * 16 + j) * 16 + k) * 16 + l)) ['\\', 'u', a, b, c, d]

/-- What stands between the quotes of a string. -/
inductive Spelled : List Piece → List Char → Prop
  | nil : Spelled [] []
  | cons {p : Piece} {ps : List Piece} {cs ds : List Char} :
      p.Spelled cs → Spelled ps ds → Spelled (p :: ps) (cs ++ ds)

/-- The characters of a string. Units that are halves must come in pairs. -/
def characters? : List Piece → Option (List Char)
  | [] => some []
  | .plain c :: more => (characters? more).map (c :: ·)
  | .unit u :: more =>
    if isLeading u then
      match more with
      | .unit v :: rest => if isTrailing v then (characters? rest).map (joined u v :: ·) else none
      | _ => none
    else if isTrailing u then none
    else (characters? more).map (Char.ofNat u :: ·)

end JsonText

namespace Json

open JsonText (Piece characters?)

/-- A JSON value with its strings as they are made up of parts. -/
inductive Tree
  | null
  | bool (b : Bool)
  | number (n : Numeral)
  | text (ps : List Piece)
  | array (items : List Tree)
  | object (members : List (List Piece × Tree))

/-- What a stretch of a text may be. -/
inductive Phrase
  /-- A value, blanks around it included. -/
  | value (t : Tree)
  /-- Values with commas between them, at least one. -/
  | items (ts : List Tree)
  /-- A name and a value. -/
  | member (m : List Piece × Tree)
  /-- Names and values with commas between them, at least one. -/
  | members (ms : List (List Piece × Tree))

/-- Nothing but spaces, tabs and ends of lines. -/
def Blank (cs : List Char) : Prop :=
  ∀ c ∈ cs, c = ' ' ∨ c = '\t' ∨ c = '\n' ∨ c = '\r'

theorem Blank.nil : Blank [] :=
  fun _ none => absurd none List.not_mem_nil

/-- The ways in which a phrase may be written. -/
inductive Spelled : Phrase → List Char → Prop
  | null : Spelled (.value .null) ['n', 'u', 'l', 'l']
  | bool {b : Bool} :
      Spelled (.value (.bool b)) (if b then ['t', 'r', 'u', 'e'] else ['f', 'a', 'l', 's', 'e'])
  | number {n : Numeral} {cs : List Char} : n.Spelled cs → Spelled (.value (.number n)) cs
  | text {ps : List Piece} {cs : List Char} : JsonText.Spelled ps cs →
      Spelled (.value (.text ps)) ('"' :: (cs ++ ['"']))
  | noItems {blank : List Char} : Blank blank → Spelled (.value (.array [])) ('[' :: (blank ++ [']']))
  | array {ts : List Tree} {cs : List Char} : Spelled (.items ts) cs →
      Spelled (.value (.array ts)) ('[' :: (cs ++ [']']))
  | noMembers {blank : List Char} : Blank blank →
      Spelled (.value (.object [])) ('\x7b' :: (blank ++ ['\x7d']))
  | object {ms : List (List Piece × Tree)} {cs : List Char} : Spelled (.members ms) cs →
      Spelled (.value (.object ms)) ('\x7b' :: (cs ++ ['\x7d']))
  | blanks {t : Tree} {before cs behind : List Char} : Blank before → Spelled (.value t) cs →
      Blank behind → Spelled (.value t) (before ++ (cs ++ behind))
  | lastItem {t : Tree} {cs : List Char} : Spelled (.value t) cs → Spelled (.items [t]) cs
  | item {t : Tree} {ts : List Tree} {cs ds : List Char} : Spelled (.value t) cs →
      Spelled (.items ts) ds → Spelled (.items (t :: ts)) (cs ++ ',' :: ds)
  | named {ps : List Piece} {t : Tree} {before cs behind ds : List Char} : Blank before →
      JsonText.Spelled ps cs → Blank behind → Spelled (.value t) ds →
      Spelled (.member (ps, t)) (before ++ ('"' :: (cs ++ '"' :: (behind ++ ':' :: ds))))
  | lastMember {m : List Piece × Tree} {cs : List Char} : Spelled (.member m) cs →
      Spelled (.members [m]) cs
  | nextMember {m : List Piece × Tree} {ms : List (List Piece × Tree)} {cs ds : List Char} :
      Spelled (.member m) cs → Spelled (.members ms) ds → Spelled (.members (m :: ms)) (cs ++ ',' :: ds)

end Json

end PocketConsole
