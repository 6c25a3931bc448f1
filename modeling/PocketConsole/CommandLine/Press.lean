import PocketConsole.CommandLine.Rate
import PocketConsole.Button

namespace PocketConsole

/-- A press of a button in a scripted run. It is let go in the next frame. -/
structure Press where
  frame : UInt64
  button : Button
deriving DecidableEq, Repr

/-- What is wrong with the text of a press. -/
inductive PressError
  | format
  | frame
  | button
deriving DecidableEq, Repr

/-- Reads a number below 2 ^ 64: digits, after a plus or not. -/
def wordNumber? (cs : List Char) : Option UInt64 :=
  let ds :=
    match cs with
    | '+' :: r => r
    | cs => cs
  (Rate.natural? ds).bind fun n => if n < UInt64.size then some (UInt64.ofNat n) else none

namespace Press

/-- Reads a frame and a button, with a colon between them. -/
def parse (text : List Char) : Except PressError Press :=
  match text.dropWhile (· ≠ ':') with
  | [] => .error .format
  | _ :: name =>
    match wordNumber? (text.takeWhile (· ≠ ':')) with
    | none => .error .frame
    | some frame =>
      match Button.ofName? name with
      | none => .error .button
      | some button => .ok ⟨frame, button⟩

end Press

end PocketConsole
