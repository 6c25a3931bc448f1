import PocketConsole.Event
import PocketConsole.SortedMap

namespace PocketConsole

/-- A place where texts are kept by key. -/
class Store (σ : Type) where
  /-- The text kept under a key. -/
  get : σ → String → Option String
  /-- The store after it has been given a text to keep. -/
  set : σ → String → String → σ
  /-- What is worth noting when a key is asked for. -/
  remark : σ → String → Option Event := fun _ _ => none
  /-- What is worth noting when a text is given. -/
  complaint : σ → String → String → Option Event := fun _ _ _ => none

/-- A store that gives back the text last set. -/
class LawfulStore (σ : Type) [Store σ] : Prop where
  get_set : ∀ (s : σ) (key other text : String),
    Store.get (Store.set s key text) other = if key = other then some text else Store.get s other

theorem LawfulStore.get_set_self {σ : Type} [Store σ] [LawfulStore σ] (s : σ) (key text : String) :
    Store.get (Store.set s key text) key = some text := by
  rw [get_set, if_pos rfl]

/-- A store that keeps nothing. -/
inductive Forgetful
  | forgetful

instance : Store Forgetful where
  get _ _ := none
  set s _ _ := s

/-- A store that keeps its texts as long as it lasts itself. -/
structure Shelf where
  texts : SortedMap String String

namespace Shelf

/-- The shelf that keeps nothing yet. -/
def empty : Shelf :=
  ⟨.empty⟩

end Shelf

instance : Store Shelf where
  get s key := s.texts.get? key
  set s key text := ⟨s.texts.insert key text⟩

instance : LawfulStore Shelf where
  get_set s key other text := SortedMap.get?_insert s.texts key other text

/-- What a machine calls out to: a store, and a journal of events. -/
structure Host (σ : Type) where
  store : σ
  journal : Array Event := #[]

namespace Host

variable {σ : Type}

/-- The host after an event. -/
def note (h : Host σ) (e : Event) : Host σ :=
  { h with journal := h.journal.push e }

/-- The host after several events. -/
def noteAll (h : Host σ) (es : List Event) : Host σ :=
  es.foldl note h

/-- Asks for the text under a key. -/
def get [Store σ] (h : Host σ) (key : String) : Option String × Host σ :=
  (Store.get h.store key, h.noteAll (Store.remark h.store key).toList)

/-- Gives a text to keep under a key. -/
def set [Store σ] (h : Host σ) (key text : String) : Host σ :=
  let noted := h.noteAll (Store.complaint h.store key text).toList
  { noted with store := Store.set noted.store key text }

theorem store_noteAll (h : Host σ) (es : List Event) : (h.noteAll es).store = h.store := by
  induction es generalizing h with
  | nil => rfl
  | cons e more ih => exact ih (h.note e)

theorem store_get [Store σ] (h : Host σ) (key : String) : (h.get key).2.store = h.store :=
  store_noteAll _ _

theorem store_set [Store σ] (h : Host σ) (key text : String) :
    (h.set key text).store = Store.set h.store key text := by
  simp only [set, store_noteAll]

end Host

end PocketConsole
