namespace PocketConsole.Text

/-- A word with its ASCII letters in upper case; every other character stays. -/
def upper (cs : List Char) : List Char :=
  cs.map Char.toUpper

/-- A word as a key, one for all ways to write its ASCII letters. -/
def caseless (cs : List Char) : String :=
  String.ofList (upper cs)

/-- Equality of words up to the case of ASCII letters. -/
def sameLetters (a b : List Char) : Bool :=
  upper a == upper b

theorem sameLetters_iff (a b : List Char) : sameLetters a b = true ↔ upper a = upper b := by
  simp [sameLetters]

theorem caseless_eq_iff (a b : List Char) :
    caseless a = caseless b ↔ sameLetters a b = true := by
  rw [sameLetters_iff, caseless, caseless, String.ofList_inj]

end PocketConsole.Text
