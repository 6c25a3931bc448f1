import PocketConsole.Proofs.Saves.RoundTrip

namespace PocketConsole

namespace Text

theorem utf8EncodeChar_ne_nil (c : Char) (r : List UInt8) :
    ∃ v more, String.utf8EncodeChar c ++ r = v :: more := by
  rw [String.utf8EncodeChar]
  split_ifs <;> exact ⟨_, _, rfl⟩

/-- A lesser character is told from a greater one within its bytes, whatever follows. -/
theorem utf8EncodeChar_lt {c d : Char} (less : c < d) (r s : List UInt8) :
    String.utf8EncodeChar c ++ r < String.utf8EncodeChar d ++ s := by
  have below : c.val.toNat < d.val.toNat := less
  have bound : d.val.toNat < 0x110000 := by
    rcases d.valid with early | late
    · omega
    · exact late.2
  -- each digit in radix 64 is a quotient of the one before
  have second : ∀ n, n / 4096 = n / 64 / 64 := fun n => by omega
  have third : ∀ n, n / 262144 = n / 64 / 64 / 64 := fun n => by omega
  simp only [String.utf8EncodeChar, second, third]
  split_ifs <;>
    simp only [List.cons_append, List.nil_append, List.cons_lt_cons_iff, UInt8.lt_iff_toNat_lt,
      ← UInt8.toNat_inj, UInt8.toNat_ofNat'] <;>
    omega

theorem flatMap_utf8EncodeChar_lt {as bs : List Char} (less : as < bs) :
    as.flatMap String.utf8EncodeChar < bs.flatMap String.utf8EncodeChar := by
  induction as generalizing bs with
  | nil =>
    cases bs with
    | nil => exact absurd less (List.lt_irrefl [])
    | cons d bs =>
      obtain ⟨v, more, some⟩ := utf8EncodeChar_ne_nil d (bs.flatMap String.utf8EncodeChar)
      rw [List.flatMap_cons, some]
      exact List.nil_lt_cons v more
  | cons c as ih =>
    cases bs with
    | nil => exact absurd less (List.not_lt_nil _)
    | cons d bs =>
      rw [List.flatMap_cons, List.flatMap_cons]
      rcases List.cons_lt_cons_iff.1 less with first | ⟨rfl, rest⟩
      · exact utf8EncodeChar_lt first _ _
      · exact List.append_left_lt (ih rest)

/-- Strings are in the order of their bytes. -/
theorem toUTF8_lt {s t : String} (less : s < t) : s.toUTF8.data.toList < t.toUTF8.data.toList := by
  have bytes : ∀ s : String, s.toUTF8.data.toList = s.toList.flatMap String.utf8EncodeChar := by
    intro s
    rw [String.toUTF8_eq_toByteArray, ← String.ofList_toList (s := s), String.toByteArray_ofList,
      String.toList_ofList, List.utf8Encode, List.data_toByteArray]
  rw [bytes, bytes]
  exact flatMap_utf8EncodeChar_lt (String.lt_iff.1 less)

end Text

namespace SaveRecord

variable {σ : Type} [Store σ]

/-- The names stand in the text of a record in the order of their bytes. -/
theorem pairwise_names (r : SaveRecord) :
    r.saves.entries.Pairwise fun a b => a.1.toUTF8.data.toList < b.1.toUTF8.data.toList :=
  r.saves.sorted.imp Text.toUTF8_lt

theorem read_of_text {h : Host σ} {r : SaveRecord} (text : Store.get h.store key = some r.toText) :
    read h = (r, h.noteAll (Store.remark h.store key).toList) := by
  rw [read, Host.get, text]
  dsimp only
  rw [ofText_toText]
  rfl

/-- A record that has been written is read back as it was, with nothing noted but what the store remarks,
and writing what has been read stores the same text again: an object with the names in the order of their
bytes, each with the list of its bytes. -/
theorem read_write (kept : ∀ (s : σ) text, Store.get (Store.set s key text) key = some text)
    (r : SaveRecord) (h : Host σ) :
    let written := r.write h
    let (again, after) := read written
    again = r ∧ after = written.noteAll (Store.remark written.store key).toList ∧
      Store.get (again.write after).store key = Store.get written.store key ∧
      ∃ text, Store.get written.store key = some text ∧
        Json.parse? text = some (.object (r.saves.entries.map fun e => (e.1, Json.ofBytes e.2))) ∧
        r.saves.entries.Pairwise fun a b => a.1.toUTF8.data.toList < b.1.toUTF8.data.toList := by
  have stored : ∀ h : Host σ, Store.get (r.write h).store key = some r.toText := by
    intro h
    rw [store_write, kept]
  intro written
  rw [read_of_text (stored h)]
  exact ⟨rfl, rfl, (stored _).trans (stored h).symm, r.toText, stored h, Json.textLaws.value_write r, r.pairwise_names⟩

/-- A name without characters is read back, and one with characters that must be escaped. -/
theorem read_write_of_strange_names :
    let r := (empty.insert "" [0, 255]).insert "\"\\\n\x01é" []
    let written := r.write (⟨Shelf.empty, #[]⟩ : Host Shelf)
    (read written).1 = r ∧ (read written).2.journal = #[] ∧
      Store.get ((read written).1.write (read written).2).store key = Store.get written.store key := by
  intro r written
  have kept : ∀ (s : Shelf) text, Store.get (Store.set s key text) key = some text :=
    fun s text => (LawfulStore.get_set s key key text).trans (if_pos rfl)
  obtain ⟨again, after, same, -⟩ := read_write kept r ⟨Shelf.empty, #[]⟩
  exact ⟨again, congrArg Host.journal after, same⟩

end SaveRecord

end PocketConsole
