import PocketConsole.CommandLine.Press

namespace PocketConsole

/-- What a run is asked to do. -/
structure Arguments where
  /-- The path of the source text. -/
  source : String
  frames : UInt64
  rate : Rate
  /-- The name of the program; without it the name of the source file serves. -/
  name : Option String
  /-- The folder that keeps saves; without it they are forgotten at the end. -/
  saves : Option String
  presses : List Press
  /-- The path of the picture of the last frame. -/
  picture : Option String

namespace Arguments

/-- What an argument can give. -/
inductive Key
  | source
  | frames
  | rate
  | name
  | saves
  | press
  | picture
deriving DecidableEq, Repr

/-- The key of an option. -/
def Key.ofOption? (name : String) : Option Key :=
  match name with
  | "frames" => some frames
  | "fps" => some rate
  | "name" => some Key.name
  | "save-dir" => some saves
  | "press" => some press
  | "png" => some picture
  | _ => none

/-- Why there is nothing to run. -/
inductive Stop
  | usage
  | press (e : PressError)
  | version
  | help
deriving DecidableEq, Repr

/-- What has been given so far. -/
structure Given where
  source : Option String := none
  frames : Option UInt64 := none
  rate : Option Rate := none
  name : Option String := none
  saves : Option String := none
  /-- Presses, latest first. -/
  presses : List Press := []
  picture : Option String := none

/-- A value for what may be given once. -/
def once {α : Type} (before : Option α) (value : Option α) : Except Stop (Option α) :=
  match before, value with
  | none, some v => .ok (some v)
  | _, _ => .error .usage

/-- A path; it must not be empty. -/
def path? (text : String) : Option String :=
  if text = "" then none else some text

/-- Takes a value for a key. -/
def Given.take (g : Given) (key : Key) (text : String) : Except Stop Given :=
  match key with
  | .source => (once g.source (path? text)).map fun v => { g with source := v }
  | .frames => (once g.frames (wordNumber? text.toList)).map fun v => { g with frames := v }
  | .rate => (once g.rate (Rate.parse? text)).map fun v => { g with rate := v }
  | .name => (once g.name (some text)).map fun v => { g with name := v }
  | .saves => (once g.saves (path? text)).map fun v => { g with saves := v }
  | .press =>
    match Press.parse text.toList with
    | .ok p => .ok { g with presses := p :: g.presses }
    | .error e => .error (.press e)
  | .picture => (once g.picture (path? text)).map fun v => { g with picture := v }

/-- Where reading arguments stands. -/
structure Scan where
  given : Given := {}
  /-- The key last named and its value, which are taken when the next argument is understood. -/
  pending : Option (Key × Option String) := none
  /-- Whether the remaining arguments are no options, whatever they look like. -/
  plain : Bool := false

namespace Scan

/-- Takes what is pending. -/
def settle (s : Scan) : Except Stop Scan :=
  match s.pending with
  | none => .ok s
  | some (_, none) => .error .usage
  | some (key, some text) => (s.given.take key text).map fun g => { s with given := g, pending := none }

/-- The scan after an argument that is no option and no value of one. There is room for one. -/
def place (s : Scan) (text : String) : Except Stop Scan :=
  let seen := s.given.source.isSome || (s.pending.map Prod.fst) == some .source
  if seen then .error .usage
  else s.settle.map fun s => { s with pending := some (.source, some text) }

/-- The scan after an option with its dashes taken off. A value may follow an equals sign. -/
def option (s : Scan) (text : List Char) : Except Stop Scan := do
  let name := String.ofList (text.takeWhile (· ≠ '='))
  let value :=
    match text.dropWhile (· ≠ '=') with
    | [] => none
    | _ :: v => some (String.ofList v)
  match Key.ofOption? name, value with
  | some key, none =>
    let s ← s.settle
    return { s with pending := some (key, none) }
  | some key, some v =>
    let s ← s.settle
    return { s with given := ← s.given.take key v }
  | none, none =>
    if name = "version" then
      let _ ← s.settle
      throw .version
    else if name = "help" then
      let _ ← s.settle
      throw .help
    else throw .usage
  | none, some _ => throw .usage

/-- The scan after an option of one letter, with its dash taken off. -/
def letter (s : Scan) (c : Char) : Except Stop Scan := do
  if c = 'V' then
    let _ ← s.settle
    throw .version
  else if c = 'h' then
    let _ ← s.settle
    throw .help
  else throw .usage

/-- The scan after one more argument. -/
def next (s : Scan) (text : String) : Except Stop Scan :=
  if s.plain then s.place text
  else
    match text.toList with
    | ['-', '-'] => .ok { s with plain := true }
    | '-' :: '-' :: more => s.option more
    | '-' :: c :: _ => s.letter c
    | _ =>
      match s.pending with
      | some (key, none) => .ok { s with pending := some (key, some text) }
      | _ => s.place text

end Scan

/-- Sixty frames, unless another number is given. -/
def defaultFrames : UInt64 :=
  60

/-- Thirty frames a second, unless another rate is given. -/
def defaultRate : Rate :=
  .finite false (.ofNat 30)

/-- Reads the arguments of a run. -/
def parse (args : List String) : Except Stop Arguments := do
  let scanned ← args.foldlM Scan.next {}
  let settled ← scanned.settle
  let g := settled.given
  match g.source with
  | none => throw .usage
  | some source =>
    return {
      source := source
      frames := g.frames.getD defaultFrames
      rate := g.rate.getD defaultRate
      name := g.name
      saves := g.saves
      presses := g.presses.reverse
      picture := g.picture }

end Arguments

end PocketConsole
