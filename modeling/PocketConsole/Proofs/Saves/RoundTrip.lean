import PocketConsole.Proofs.Json.Reading
import PocketConsole.SaveRecord

namespace PocketConsole

namespace Json

open JsonText (characters?)

/-- The number that a byte is. -/
def ofByte (v : UInt8) : Json :=
  .number (.ofNat v.toNat)

/-- The array that lists bytes. -/
def ofBytes (vs : List UInt8) : Json :=
  .array (vs.map ofByte)

theorem bytes?_ofBytes (vs : List UInt8) : (ofBytes vs).bytes? = some vs := by
  have each : ∀ v : UInt8, (ofByte v).byte? = some v := Numeral.toByte?_ofNat
  rw [ofBytes, bytes?]
  induction vs with
  | nil => rfl
  | cons v more ih => rw [List.map_cons, List.mapM_cons, each, ih]; rfl

theorem commaSeparated_singleton (cs : List Char) : SaveRecord.commaSeparated [cs] = cs :=
  List.append_nil cs

/-- The tree that lists bytes. -/
def Tree.ofBytes (vs : List UInt8) : Tree :=
  .array (vs.map fun v => .number (.ofNat v.toNat))

theorem spelled_writeBytes (vs : List UInt8) :
    Spelled (.value (Tree.ofBytes vs)) (SaveRecord.writeBytes vs) := by
  have items : ∀ (v : UInt8) more,
      Spelled (.items ((v :: more).map fun v : UInt8 => Tree.number (.ofNat v.toNat)))
        (SaveRecord.commaSeparated ((v :: more).map fun v : UInt8 => Nat.toDigits 10 v.toNat)) := by
    intro v more
    have number : ∀ v : UInt8, Spelled (.value (.number (.ofNat v.toNat))) (Nat.toDigits 10 v.toNat) :=
      fun v => .number (Numeral.spelled_ofNat v.toNat)
    induction more generalizing v with
    | nil =>
      rw [List.map_singleton, List.map_singleton, commaSeparated_singleton]
      exact .lastItem (number v)
    | cons w rest ih => exact .item (number v) (ih w)
  cases vs with
  | nil => exact .noItems .nil
  | cons v more => exact .array (items v more)

theorem value?_ofBytes (room : Nat) (vs : List UInt8) :
    (Tree.ofBytes vs).value? (room + 1) = some (ofBytes vs) := by
  have number : ∀ v : UInt8, Tree.value? room (.number (.ofNat v.toNat)) = some (ofByte v) := fun v =>
    if_pos (Numeral.inRange_ofNat (Nat.lt_trans v.toNat_lt (by decide)))
  have items : Tree.items? room (vs.map fun v => .number (.ofNat v.toNat)) = some (vs.map ofByte) := by
    induction vs with
    | nil => rfl
    | cons v more ih => rw [List.map_cons, Tree.items?, number, ih]; rfl
  rw [Tree.ofBytes, Tree.value?, items]
  rfl

/-- Saves as they are written spell members that stand for them. -/
theorem spelled_writeEntries (e : String × List UInt8) (es : List (String × List UInt8)) :
    ∃ ms, Spelled (.members ms) (SaveRecord.commaSeparated ((e :: es).map SaveRecord.writeEntry)) ∧
      ∀ room, Tree.members? (room + 1) ms = some ((e :: es).map fun e => (e.1, ofBytes e.2)) := by
  have named : ∀ e : String × List UInt8, ∃ ps,
      Spelled (.member (ps, Tree.ofBytes e.2)) (SaveRecord.writeEntry e) ∧
        characters? ps = some e.1.toList := by
    intro e
    obtain ⟨ps, spelled, same⟩ := JsonText.spelled_flatMap_writeChar e.1.toList
    have member := Spelled.named .nil spelled .nil (spelled_writeBytes e.2)
    refine ⟨ps, ?_, same⟩
    simpa [SaveRecord.writeEntry, JsonText.write] using member
  obtain ⟨ps, spelled, same⟩ := named e
  induction es generalizing e ps with
  | nil =>
    refine ⟨[(ps, Tree.ofBytes e.2)], ?_, fun room => ?_⟩
    · rw [List.map_singleton, commaSeparated_singleton]
      exact .lastMember spelled
    · rw [Tree.members?, same, value?_ofBytes, Tree.members?]
      simp
  | cons d more ih =>
    obtain ⟨qs, next, sameNext⟩ := named d
    obtain ⟨ms, rest, read⟩ := ih d qs next sameNext
    refine ⟨(ps, Tree.ofBytes e.2) :: ms, .nextMember spelled rest, fun room => ?_⟩
    rw [Tree.members?, same, value?_ofBytes, read]
    simp

/-- What is relied on of a reader of texts and of a writer of records. Nothing else of the two is used where saves are
read and written. -/
structure TextLaws (parse? : String → Option Json) (write : SaveRecord → String) : Prop where
  /-- A text that spells a tree has the value of the tree within the limits, and none beyond them. -/
  value_of_spelled : ∀ (t : Tree) (text : String), Spelled (.value t) text.toList → parse? text = t.value? depthLimit
  /-- The text of a record spells the object of its saves, in their order. -/
  spelled_write : ∀ r : SaveRecord, ∃ t, Spelled (.value t) (write r).toList ∧
    t.value? depthLimit = some (.object (r.saves.entries.map fun e => (e.1, ofBytes e.2)))

theorem TextLaws.value_write {parse? : String → Option Json} {write : SaveRecord → String}
    (laws : TextLaws parse? write) (r : SaveRecord) :
    parse? (write r) = some (.object (r.saves.entries.map fun e => (e.1, ofBytes e.2))) := by
  obtain ⟨t, spelled, valued⟩ := laws.spelled_write r
  rw [laws.value_of_spelled t _ spelled, valued]

/-- The reader and the writer at hand keep the laws. -/
theorem textLaws : TextLaws parse? SaveRecord.toText where
  value_of_spelled _ _ spelled := parse?_of_spelled spelled
  spelled_write r := by
    have text : r.toText.toList =
        '\x7b' :: (SaveRecord.commaSeparated (r.saves.entries.map SaveRecord.writeEntry) ++ ['\x7d']) := by
      rw [SaveRecord.toText, String.toList_ofList]
      rfl
    cases entries : r.saves.entries with
    | nil =>
      refine ⟨.object [], ?_, rfl⟩
      rw [text, entries]
      exact .noMembers .nil
    | cons e es =>
      obtain ⟨ms, members, read⟩ := spelled_writeEntries e es
      refine ⟨.object ms, ?_, ?_⟩
      · rw [text, entries]
        exact .object members
      · rw [depthLimit, Tree.value?, read]
        rfl

end Json

namespace SortedMap

variable {κ ν : Type} [LE κ] [LT κ] [DecidableLT κ] [DecidableEq κ] [Std.IsLinearOrder κ]
  [Std.LawfulOrderLT κ]

/-- A key above all others comes last. -/
theorem place_of_above {k : κ} {es : List (κ × ν)} (above : ∀ e ∈ es, e.1 < k) (v : ν) :
    place k v es = es ++ [(k, v)] := by
  induction es with
  | nil => rfl
  | cons e more ih =>
    have less := above e List.mem_cons_self
    have notGreater : ¬ k < e.1 := fun greater => Std.lt_irrefl (Std.lt_trans less greater)
    have apart : k ≠ e.1 := by
      rintro rfl
      exact Std.lt_irrefl less
    rw [place, if_neg notGreater, if_neg apart, ih fun d member => above d (List.mem_cons_of_mem _ member)]
    rfl

theorem foldl_insert_entries (m : SortedMap κ ν) {es : List (κ × ν)}
    (sorted : (m.entries ++ es).Pairwise fun a b => a.1 < b.1) :
    (es.foldl (fun m e => m.insert e.1 e.2) m).entries = m.entries ++ es := by
  induction es generalizing m with
  | nil => exact (List.append_nil _).symm
  | cons e more ih =>
    have above : ∀ d ∈ m.entries, d.1 < e.1 := fun d member =>
      (List.pairwise_append.1 sorted).2.2 d member e List.mem_cons_self
    have last : (m.insert e.1 e.2).entries = m.entries ++ [e] := place_of_above above e.2
    have joined : m.entries ++ [e] ++ more = m.entries ++ e :: more := by simp
    rw [List.foldl_cons, ih, last, joined]
    rwa [last, joined]

/-- The map of entries in order is made of just these entries. -/
theorem entries_ofList {es : List (κ × ν)} (sorted : es.Pairwise fun a b => a.1 < b.1) :
    (ofList es).entries = es :=
  foldl_insert_entries empty sorted

end SortedMap

namespace SaveRecord

theorem ofMembers_eq (members : List (String × Json)) :
    ofMembers members =
      (⟨.ofList ((SortedMap.ofList members).entries.filterMap fun e =>
          e.2.bytes?.map fun data => (e.1, data))⟩,
        (SortedMap.ofList members).entries.filterMap fun e =>
          if e.2.bytes?.isNone then some (.malformedSave e.1) else none) := rfl

/-- A record is read back from its text, and nothing is wrong with the text. -/
theorem ofText_toText (r : SaveRecord) : ofText r.toText = (r, []) := by
  have sorted : (r.saves.entries.map fun e => (e.1, Json.ofBytes e.2)).Pairwise fun a b => a.1 < b.1 :=
    List.pairwise_map.2 r.saves.sorted
  have decoded : (r.saves.entries.map fun e => (e.1, Json.ofBytes e.2)).filterMap
      (fun e => e.2.bytes?.map fun data => (e.1, data)) = r.saves.entries := by
    have each : (fun e : String × Json => e.2.bytes?.map fun data => (e.1, data)) ∘
        (fun e : String × List UInt8 => (e.1, Json.ofBytes e.2)) = some := by
      funext e
      simp only [Function.comp_apply, Json.bytes?_ofBytes, Option.map_some]
    rw [List.filterMap_map, each, List.filterMap_some]
  have faultless : (r.saves.entries.map fun e => (e.1, Json.ofBytes e.2)).filterMap
      (fun e => if e.2.bytes?.isNone then some (Event.malformedSave e.1) else none) = [] := by
    rw [List.filterMap_map, List.filterMap_eq_nil_iff]
    intro e _
    simp only [Function.comp_apply, Json.bytes?_ofBytes, Option.isNone_some, Bool.false_eq_true, if_false]
  have rebuilt : SortedMap.ofList r.saves.entries = r.saves := by
    apply SortedMap.ext_get?
    intro name
    rw [SortedMap.get?, SortedMap.entries_ofList r.saves.sorted, SortedMap.get?]
  rw [ofText, Json.textLaws.value_write]
  dsimp only
  rw [ofMembers_eq, SortedMap.entries_ofList sorted, decoded, faultless, rebuilt]

end SaveRecord

end PocketConsole
