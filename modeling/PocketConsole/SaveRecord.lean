import PocketConsole.Json.Basic
import PocketConsole.Store

namespace PocketConsole

/-- What all programs have saved, by program name. -/
structure SaveRecord where
  saves : SortedMap String (List UInt8)

namespace SaveRecord

/-- The key of the record in a store. -/
def key : String :=
  "tamago.save"

/-- The record without saves. -/
def empty : SaveRecord :=
  ⟨.empty⟩

/-- What a program has saved. -/
def get? (r : SaveRecord) (name : String) : Option (List UInt8) :=
  r.saves.get? name

/-- The record with a program's save replaced. -/
def insert (r : SaveRecord) (name : String) (data : List UInt8) : SaveRecord :=
  ⟨r.saves.insert name data⟩

/-- The record of the members of an object, the last one of each name. A member that is no list of
bytes costs its own program only. -/
def ofMembers (members : List (String × Json)) : SaveRecord × List Event :=
  let latest := (SortedMap.ofList members).entries
  (⟨.ofList (latest.filterMap fun (name, v) => v.bytes?.map fun data => (name, data))⟩,
    latest.filterMap fun (name, v) => if v.bytes?.isNone then some (.malformedSave name) else none)

/-- The record that a text holds, and what is wrong with the text. -/
def ofText (text : String) : SaveRecord × List Event :=
  match Json.parse? text with
  | some (.object members) => ofMembers members
  | _ => (empty, [.malformedRecord])

/-- A comma between each two pieces. -/
def commaSeparated (pieces : List (List Char)) : List Char :=
  (pieces.intersperse [',']).flatten

/-- The bytes of a save as they are written. -/
def writeBytes (data : List UInt8) : List Char :=
  ['['] ++ commaSeparated (data.map fun v => Nat.toDigits 10 v.toNat) ++ [']']

/-- A save with its name as it is written. -/
def writeEntry (e : String × List UInt8) : List Char :=
  JsonText.write e.1.toList ++ [':'] ++ writeBytes e.2

/-- The text of a record: an object whose members are in order of their names. -/
def toText (r : SaveRecord) : String :=
  String.ofList (['\x7b'] ++ commaSeparated (r.saves.entries.map writeEntry) ++ ['\x7d'])

variable {σ : Type} [Store σ]

/-- Reads the record of a store. -/
def read (h : Host σ) : SaveRecord × Host σ :=
  match h.get key with
  | (none, h) => (empty, h)
  | (some text, h) => ((ofText text).1, h.noteAll (ofText text).2)

/-- Writes the record to a store. -/
def write (r : SaveRecord) (h : Host σ) : Host σ :=
  h.set key r.toText

/-- What a store's record says, whatever is noted on the way. -/
theorem fst_read (h : Host σ) :
    (read h).1 = ((Store.get h.store key).map fun text => (ofText text).1).getD empty := by
  unfold read Host.get
  cases Store.get h.store key <;> rfl

theorem store_read (h : Host σ) : (read h).2.store = h.store := by
  have same := Host.store_get h key
  unfold read
  split <;> simp_all [Host.store_noteAll]

theorem store_write (r : SaveRecord) (h : Host σ) :
    (r.write h).store = Store.set h.store key r.toText :=
  Host.store_set h key r.toText

end SaveRecord

end PocketConsole
