import Mathlib.Data.List.Forall2
import PocketConsole.Proofs.Saves.History

namespace PocketConsole

namespace SortedMap

variable {κ ν : Type} [LE κ] [LT κ] [DecidableLT κ] [DecidableEq κ] [Std.IsLinearOrder κ]
  [Std.LawfulOrderLT κ]

/-- The last value of a key is the one that counts. -/
theorem get?_ofList (es : List (κ × ν)) (k : κ) :
    (ofList es).get? k = (es.reverse.find? fun e => e.1 = k).map Prod.snd := by
  rw [ofList, ← List.foldr_reverse]
  induction es.reverse with
  | nil => rfl
  | cons e more ih =>
    rw [List.foldr_cons, get?_insert, ih, List.find?_cons]
    by_cases same : e.1 = k <;> simp [same]

theorem get?_ofList_filterMap {ω : Type} (m : SortedMap κ ν) (decode : ν → Option ω) (k : κ) :
    (ofList (m.entries.filterMap fun e => (decode e.2).map fun w => (e.1, w))).get? k =
      (m.get? k).bind decode := by
  have sorted : (m.entries.filterMap fun e => (decode e.2).map fun w => (e.1, w)).Pairwise
      fun a b => a.1 < b.1 := by
    refine List.pairwise_filterMap.2 (m.sorted.imp fun {d e} less a isA b isB => ?_)
    obtain ⟨v, -, rfl⟩ := Option.map_eq_some_iff.1 isA
    obtain ⟨w, -, rfl⟩ := Option.map_eq_some_iff.1 isB
    exact less
  ext w
  rw [get?_eq_some_iff, entries_ofList sorted, List.mem_filterMap, Option.bind_eq_some_iff]
  constructor
  · rintro ⟨⟨j, v⟩, member, same⟩
    obtain ⟨_, decoded, same⟩ := Option.map_eq_some_iff.1 same
    obtain ⟨rfl, rfl⟩ := Prod.mk.inj same
    exact ⟨v, (get?_eq_some_iff m j v).2 member, decoded⟩
  · rintro ⟨v, found, decoded⟩
    exact ⟨(k, v), (get?_eq_some_iff m k v).1 found, by rw [decoded]; rfl⟩

end SortedMap

namespace Json

open JsonText (Piece characters?)

/-- The last value that the members of an object give to a name. -/
def Tree.last? (ms : List (List Piece × Tree)) (name : String) : Option Tree :=
  (ms.reverse.find? fun m => characters? m.1 = some name.toList).map Prod.snd

/-- A number from 0 to 255 without a minus, a fraction or an exponent. -/
def Tree.IsByte (t : Tree) (v : UInt8) : Prop :=
  ∃ n, t = .number n ∧ n.negative = false ∧ n.fraction = [] ∧ n.exponent = none ∧
    Numeral.value n.whole = v.toNat

/-- An array of nothing but such numbers. -/
def Tree.Lists (t : Tree) (data : List UInt8) : Prop :=
  ∃ items, t = .array items ∧ List.Forall₂ IsByte items data

theorem toByte?_eq_some_iff {n : Numeral} {v : UInt8} :
    n.toByte? = some v ↔ n.negative = false ∧ n.fraction = [] ∧ n.exponent = none ∧
      Numeral.value n.whole = v.toNat := by
  have bound := v.toNat_lt
  rw [Numeral.toByte?]
  split
  · rename_i plain
    obtain ⟨sign, fraction, exponent, small⟩ := plain
    simp only [sign, fraction, exponent, true_and, Option.some.injEq, ← UInt8.toNat_inj, UInt8.toNat_ofNat']
    omega
  · rename_i other
    simp only [false_iff, reduceCtorEq]
    rintro ⟨sign, fraction, exponent, value⟩
    exact other ⟨sign, fraction, exponent, by omega⟩

/-- What a tree stands for, by its kind. -/
theorem Tree.eq_of_value? {room : Nat} {t : Tree} {w : Json} (valued : t.value? room = some w) :
    (∃ n, t = .number n ∧ w = .number n) ∨
      (∃ items vs below, t = .array items ∧ items? below items = some vs ∧ w = .array vs) ∨
      (∀ n, t ≠ .number n) ∧ (∀ items, t ≠ .array items) ∧ w.byte? = none ∧ w.bytes? = none := by
  cases t with
  | number n =>
    rw [value?] at valued
    split at valued
    · exact .inl ⟨n, rfl, (Option.some.inj valued).symm⟩
    · cases valued
  | array items =>
    cases room with
    | zero => cases valued
    | succ below =>
      obtain ⟨vs, read, same⟩ := Option.map_eq_some_iff.1 valued
      exact .inr (.inl ⟨items, vs, below, rfl, read, same.symm⟩)
  | null =>
    cases valued
    exact .inr (.inr ⟨by simp, by simp, rfl, rfl⟩)
  | bool b =>
    cases valued
    exact .inr (.inr ⟨by simp, by simp, rfl, rfl⟩)
  | text ps =>
    obtain ⟨_, -, rfl⟩ := Option.map_eq_some_iff.1 valued
    exact .inr (.inr ⟨by simp, by simp, rfl, rfl⟩)
  | object members =>
    cases room with
    | zero => cases valued
    | succ below =>
      obtain ⟨_, -, rfl⟩ := Option.map_eq_some_iff.1 valued
      exact .inr (.inr ⟨by simp, by simp, rfl, rfl⟩)

theorem Tree.byte?_iff {room : Nat} {t : Tree} {w : Json} (valued : t.value? room = some w) (v : UInt8) :
    w.byte? = some v ↔ t.IsByte v := by
  obtain ⟨n, rfl, rfl⟩ | ⟨items, vs, below, rfl, -, rfl⟩ | ⟨noNumber, -, none, -⟩ := eq_of_value? valued
  · rw [byte?, toByte?_eq_some_iff]
    constructor
    · exact fun plain => ⟨n, rfl, plain⟩
    · rintro ⟨_, ⟨⟩, plain⟩
      exact plain
  · simp [byte?, IsByte]
  · simp [none, IsByte, noNumber]

theorem Tree.mapM_byte?_iff {room : Nat} {items : List Tree} {vs : List Json}
    (read : items? room items = some vs) (data : List UInt8) :
    vs.mapM byte? = some data ↔ List.Forall₂ IsByte items data := by
  induction items generalizing vs data with
  | nil =>
    cases read
    rw [List.forall₂_nil_left_iff]
    exact ⟨fun same => (Option.some.inj same).symm, fun same => congrArg some same.symm⟩
  | cons t more ih =>
    simp only [items?, Option.bind_eq_bind, Option.bind_eq_some_iff, Option.pure_def, Option.some.injEq] at read
    obtain ⟨w, valued, ws, rest, rfl⟩ := read
    simp only [List.mapM_cons, Option.bind_eq_bind, Option.bind_eq_some_iff, Option.pure_def,
      Option.some.injEq, List.forall₂_cons_left_iff, byte?_iff valued, ih rest]
    constructor
    · rintro ⟨v, byte, bytes, others, rfl⟩
      exact ⟨v, bytes, byte, others, rfl⟩
    · rintro ⟨v, bytes, byte, others, rfl⟩
      exact ⟨v, byte, bytes, others, rfl⟩

theorem Tree.bytes?_iff {room : Nat} {t : Tree} {w : Json} (valued : t.value? room = some w)
    (data : List UInt8) : w.bytes? = some data ↔ t.Lists data := by
  obtain ⟨n, rfl, rfl⟩ | ⟨items, vs, below, rfl, read, rfl⟩ | ⟨-, noArray, -, none⟩ := eq_of_value? valued
  · simp [bytes?, Lists]
  · rw [bytes?, mapM_byte?_iff read]
    constructor
    · exact fun each => ⟨items, rfl, each⟩
    · rintro ⟨_, ⟨⟩, each⟩
      exact each
  · simp [none, Lists, noArray]

theorem Tree.map_members? {room : Nat} {ms : List (List Piece × Tree)} {es : List (String × Json)}
    (read : members? room ms = some es) :
    ms.map (fun m => (characters? m.1, m.2.value? room)) = es.map fun e => (some e.1.toList, some e.2) := by
  induction ms generalizing es with
  | nil =>
    cases read
    rfl
  | cons m more ih =>
    obtain ⟨ps, t⟩ := m
    simp only [members?, Option.bind_eq_bind, Option.bind_eq_some_iff, Option.pure_def, Option.some.injEq] at read
    obtain ⟨s, named, w, valued, ws, rest, rfl⟩ := read
    rw [List.map_cons, List.map_cons, ih rest, named, valued, String.toList_ofList]

theorem Tree.map_last? {room : Nat} {ms : List (List Piece × Tree)} {es : List (String × Json)}
    (read : members? room ms = some es) (name : String) :
    (last? ms name).map (·.value? room) = ((es.reverse.find? fun e => e.1 = name).map Prod.snd).map some := by
  have same := congrArg (fun xs => (xs.reverse.find? fun x => x.1 = some name.toList).map Prod.snd)
    (map_members? read)
  simp only [← List.map_reverse, List.find?_map, Option.map_map, Function.comp_def] at same
  rw [last?, Option.map_map, Option.map_map]
  refine same.trans ?_
  simp only [Option.some.injEq, String.toList_inj]
  rfl

theorem Tree.lists_ofBytes (vs : List UInt8) : (Tree.ofBytes vs).Lists vs :=
  (bytes?_iff (value?_ofBytes 0 vs) vs).1 (bytes?_ofBytes vs)

theorem Tree.within_ofBytes (room : Nat) (vs : List UInt8) : (Tree.ofBytes vs).Within (room + 1) :=
  within_of_isSome_value? (by rw [value?_ofBytes]; rfl)

end Json

namespace SaveRecord

open Json (Tree Spelled depthLimit)
open JsonText (Piece)

variable {σ : Type} [Store σ]

theorem get?_ofMembers (es : List (String × Json)) (name : String) :
    (ofMembers es).1.get? name =
      ((es.reverse.find? fun e => e.1 = name).map Prod.snd).bind Json.bytes? := by
  rw [ofMembers_eq, get?, SortedMap.get?_ofList_filterMap, SortedMap.get?_ofList]

theorem kept?_of_stored {host : Host σ} {text : String} (stored : Store.get host.store key = some text)
    (name : String) : kept? host name = (ofText text).1.get? name := by
  rw [kept?, fst_read, stored]
  rfl

/-- Within the limits, a name has the bytes that its last value lists. -/
theorem kept?_of_within {host : Host σ} {text : String} {ms : List (List Piece × Tree)}
    (stored : Store.get host.store key = some text)
    (spelled : Spelled (.value (.object ms)) text.toList) (within : Tree.Within depthLimit (.object ms))
    (name : String) (data : List UInt8) :
    kept? host name = some data ↔ ∃ t, Tree.last? ms name = some t ∧ t.Lists data := by
  obtain ⟨w, valued⟩ := Option.isSome_iff_exists.1 (Tree.isSome_value? within)
  obtain ⟨es, read, rfl⟩ := Option.map_eq_some_iff.1 valued
  have last := Tree.map_last? read name
  have found : kept? host name =
      ((es.reverse.find? fun e => e.1 = name).map Prod.snd).bind Json.bytes? := by
    rw [kept?_of_stored stored, ofText, Json.textLaws.value_of_spelled _ _ spelled, valued]
    exact get?_ofMembers es name
  rw [found]
  cases entry : (es.reverse.find? fun e => e.1 = name).map Prod.snd with
  | none =>
    rw [entry] at last
    have absent : Tree.last? ms name = none := Option.map_eq_none_iff.1 last
    simp [absent]
  | some w =>
    rw [entry] at last
    obtain ⟨t, given, valued⟩ := Option.map_eq_some_iff.1 last
    rw [Option.bind_some, Tree.bytes?_iff valued, given]
    simp

/-- Beyond the limits, a record is as good as none. -/
theorem kept?_of_beyond {host : Host σ} {text : String} {t : Tree}
    (stored : Store.get host.store key = some text) (spelled : Spelled (.value t) text.toList)
    (beyond : ¬ t.Within depthLimit) (name : String) : kept? host name = none := by
  have refused : t.value? depthLimit = none := by
    cases valued : t.value? depthLimit with
    | none => rfl
    | some v => exact absurd (Tree.within_of_isSome_value? (by rw [valued]; rfl)) beyond
  rw [kept?_of_stored stored, ofText, Json.textLaws.value_of_spelled _ _ spelled, refused]
  rfl

end SaveRecord

namespace Rig

open Json (Tree Spelled depthLimit)
open JsonText (Piece)
open SaveRecord (kept?)

variable {σ : Type} [Store σ]

/-- As long as an object is within the limits as a whole, each name has what its last value lists and nothing
if that is no list of bytes, also after others have saved. A number out of range, half a pair or a value too
deep, anywhere in the object, costs every name. -/
theorem entries_of_object [LawfulStore σ] {host : Host σ} {text : String} {ms : List (List Piece × Tree)}
    (stored : Store.get host.store SaveRecord.key = some text)
    (spelled : Spelled (.value (.object ms)) text.toList) {name : String} {others : List Machine}
    (apart : ∀ m ∈ others, ¬ m.Saves name) :
    (Tree.Within depthLimit (.object ms) → ∀ data, kept? (turns host others) name = some data ↔
      ∃ t, Tree.last? ms name = some t ∧ t.Lists data) ∧
    (¬ Tree.Within depthLimit (.object ms) → kept? (turns host others) name = none) := by
  rw [kept?_turns apart]
  exact ⟨fun within => SaveRecord.kept?_of_within stored spelled within name,
    fun beyond => SaveRecord.kept?_of_beyond stored spelled beyond name⟩

/-- A record with two values of one name, of which the last one counts. -/
theorem entries_of_repeated_name :
    let pet := ['p', 'e', 't'].map Piece.plain
    let ms := [(pet, Tree.null), (pet, Tree.ofBytes [7])]
    let text := "\x7b\"pet\":null,\"pet\":[7]\x7d"
    let host : Host Shelf := ⟨Store.set Shelf.empty SaveRecord.key text, #[]⟩
    let other := Machine.ofProgram { name := "other", code := ⟨[.ofOpcode .save 0], .empty⟩ }
    Spelled (.value (.object ms)) text.toList ∧ other.Saves "other" ∧
      kept? (turns host [other]) "pet" = some [7] := by
  intro pet ms text host other
  have named : JsonText.Spelled pet ['p', 'e', 't'] := JsonText.spelled_map_plain (by decide)
  have chars : text.toList = ['\x7b', '"', 'p', 'e', 't', '"', ':', 'n', 'u', 'l', 'l', ',',
      '"', 'p', 'e', 't', '"', ':', '[', '7', ']', '\x7d'] := by simp [text]
  have spelled : Spelled (.value (.object ms)) text.toList := by
    rw [chars]
    exact .object (.nextMember (.named .nil named .nil .null)
      (.lastMember (.named .nil named .nil (Json.spelled_writeBytes [7]))))
  have stored : Store.get host.store SaveRecord.key = some text := LawfulStore.get_set_self _ _ _
  have saves : other.Saves "other" := ⟨rfl, 0, Machine.next?_ofProgram rfl (show 1 ≤ 32768 by decide)⟩
  have apart : ∀ m ∈ [other], ¬ m.Saves "pet" := by
    rintro m member ⟨same, -⟩
    obtain rfl := List.mem_singleton.1 member
    exact absurd same (by decide)
  have within : Tree.Within depthLimit (.object ms) :=
    .object (List.forall_mem_cons.2 ⟨rfl, List.forall_mem_singleton.2 rfl⟩)
      (List.forall_mem_cons.2 ⟨.null, List.forall_mem_singleton.2 (Tree.within_ofBytes 125 [7])⟩)
  have last : Tree.last? ms "pet" = some (Tree.ofBytes [7]) := by rfl
  exact ⟨spelled, saves,
    ((entries_of_object stored spelled apart).1 within [7]).2 ⟨_, last, Tree.lists_ofBytes [7]⟩⟩

/-- A number out of range under one name costs another name what its last value lists. -/
theorem entries_lost_beyond_range :
    ¬ ∀ (host : Host Shelf) (text : String) (ms : List (List Piece × Tree)),
      Store.get host.store SaveRecord.key = some text → Spelled (.value (.object ms)) text.toList →
      ∀ name t data, Tree.last? ms name = some t → t.Lists data → kept? host name = some data := by
  intro every
  let big : Numeral := ⟨false, ['1'], [], some (false, ['4', '0', '0'])⟩
  let ms := [(['p', 'e', 't'].map Piece.plain, Tree.ofBytes [1]), (['x'].map Piece.plain, .number big)]
  let text := "\x7b\"pet\":[1],\"x\":1e400\x7d"
  let host : Host Shelf := ⟨Store.set Shelf.empty SaveRecord.key text, #[]⟩
  have pet : JsonText.Spelled (['p', 'e', 't'].map Piece.plain) ['p', 'e', 't'] :=
    JsonText.spelled_map_plain (by decide)
  have x : JsonText.Spelled (['x'].map Piece.plain) ['x'] := JsonText.spelled_map_plain (by decide)
  have large : Spelled (.value (.number big)) ['1', 'e', '4', '0', '0'] :=
    .number (.parts (.inr ⟨⟨List.cons_ne_nil _ _, List.all_eq_true.1 rfl⟩, by decide⟩) .absent
      (.present (.inl rfl) .absent ⟨List.cons_ne_nil _ _, List.all_eq_true.1 rfl⟩))
  have chars : text.toList = ['\x7b', '"', 'p', 'e', 't', '"', ':', '[', '1', ']', ',',
      '"', 'x', '"', ':', '1', 'e', '4', '0', '0', '\x7d'] := by simp [text]
  have spelled : Spelled (.value (.object ms)) text.toList := by
    rw [chars]
    exact .object (.nextMember (.named .nil pet .nil (Json.spelled_writeBytes [1]))
      (.lastMember (.named .nil x .nil large)))
  have stored : Store.get host.store SaveRecord.key = some text := LawfulStore.get_set_self _ _ _
  have beyond : ¬ Tree.Within depthLimit (.object ms) := by
    intro within
    cases within with
    | object _ values =>
      cases values (['x'].map Piece.plain, .number big) (by simp [ms]) with
      | number range => exact absurd range (by decide)
  have last : Tree.last? ms "pet" = some (Tree.ofBytes [1]) := by rfl
  have kept := every host text ms stored spelled "pet" _ [1] last (Tree.lists_ofBytes [1])
  rw [SaveRecord.kept?_of_beyond stored spelled beyond] at kept
  cases kept

end Rig

end PocketConsole
