namespace PocketConsole.Text

/-- The pieces between the places where a character stands; one more than there are such places. -/
def splitAt (mark : Char) (cs : List Char) : List (List Char) :=
  cs.foldr
    (fun c pieces =>
      if c = mark then [] :: pieces
      else match pieces with
        | [] => [[c]]
        | piece :: more => (c :: piece) :: more)
    [[]]

theorem splitAt_cons (mark c : Char) (cs : List Char) :
    splitAt mark (c :: cs) =
      if c = mark then [] :: splitAt mark cs
      else match splitAt mark cs with
        | [] => [[c]]
        | piece :: more => (c :: piece) :: more := rfl

/-- The lines of a text; a line feed ends a line. -/
def lines (cs : List Char) : List (List Char) :=
  splitAt '\n' cs

end PocketConsole.Text
