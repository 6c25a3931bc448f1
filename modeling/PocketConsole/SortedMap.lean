namespace PocketConsole

/-- A finite map kept as its entries in strictly increasing order of keys, so that equal maps have
equal entries. -/
structure SortedMap (κ ν : Type) [LT κ] where
  entries : List (κ × ν)
  sorted : entries.Pairwise fun a b => a.1 < b.1

namespace SortedMap

variable {κ ν : Type}

/-- The map without entries. -/
def empty [LT κ] : SortedMap κ ν :=
  ⟨[], .nil⟩

/-- The value of a key. -/
def get? [LT κ] [DecidableEq κ] (m : SortedMap κ ν) (k : κ) : Option ν :=
  (m.entries.find? fun e => e.1 = k).map Prod.snd

/-- How many keys have a value. -/
def size [LT κ] (m : SortedMap κ ν) : Nat :=
  m.entries.length

theorem get?_empty [LT κ] [DecidableEq κ] (k : κ) : (empty : SortedMap κ ν).get? k = none := rfl

theorem get?_eq_some_iff [LE κ] [LT κ] [DecidableEq κ] [Std.LawfulOrderLT κ]
    (m : SortedMap κ ν) (k : κ) (v : ν) :
    m.get? k = some v ↔ (k, v) ∈ m.entries := by
  obtain ⟨es, sorted⟩ := m
  simp only [get?]
  induction es with
  | nil => simp
  | cons e more ih =>
    obtain ⟨above, rest⟩ := List.pairwise_cons.1 sorted
    by_cases same : e.1 = k
    · have absent : (k, v) ∉ more := fun member => Std.lt_irrefl (same ▸ above _ member)
      simp only [List.find?_cons, same, decide_true, Option.map_some, Option.some.injEq,
        List.mem_cons, absent, or_false]
      exact ⟨fun h => by rw [← h, ← same], fun h => by rw [← h]⟩
    · have apart : (k, v) ≠ e := fun h => same (by rw [← h])
      simpa [same, apart] using ih rest

/-- Maps that answer alike are equal. -/
theorem ext_get? [LE κ] [LT κ] [DecidableEq κ] [Std.IsLinearOrder κ] [Std.LawfulOrderLT κ]
    {m n : SortedMap κ ν} (alike : ∀ k, m.get? k = n.get? k) : m = n := by
  have members : ∀ e, e ∈ m.entries ↔ e ∈ n.entries := fun e => by
    rw [← get?_eq_some_iff m e.1 e.2, ← get?_eq_some_iff n e.1 e.2, alike]
  obtain ⟨as, sortedA⟩ := m
  obtain ⟨bs, sortedB⟩ := n
  simp only at members
  have distinct {es : List (κ × ν)} (h : es.Pairwise fun a b => a.1 < b.1) : es.Nodup :=
    h.imp fun {a b} less (same : a = b) => Std.lt_irrefl (same ▸ less)
  have perm : as.Perm bs :=
    (List.perm_ext_iff_of_nodup (distinct sortedA) (distinct sortedB)).2 members
  have same := List.Perm.eq_of_pairwise
    (fun a b _ _ ab ba => absurd (Std.lt_trans ab ba) Std.lt_irrefl) sortedA sortedB perm
  subst same
  rfl

/-- The entries with a key set to a value. -/
def place [LT κ] [DecidableLT κ] [DecidableEq κ] (k : κ) (v : ν) : List (κ × ν) → List (κ × ν)
  | [] => [(k, v)]
  | e :: more =>
    if k < e.1 then (k, v) :: e :: more
    else if k = e.1 then (k, v) :: more
    else e :: place k v more

theorem fst_of_mem_place [LT κ] [DecidableLT κ] [DecidableEq κ] {k : κ} {v : ν}
    {es : List (κ × ν)} {e : κ × ν} (member : e ∈ place k v es) : e.1 = k ∨ e ∈ es := by
  induction es with
  | nil => simp_all [place]
  | cons d more ih =>
    rw [place] at member
    split at member
    · rcases List.mem_cons.1 member with rfl | member
      · exact .inl rfl
      · exact .inr member
    · split at member
      · rcases List.mem_cons.1 member with rfl | member
        · exact .inl rfl
        · exact .inr (List.mem_cons_of_mem _ member)
      · rcases List.mem_cons.1 member with rfl | member
        · exact .inr List.mem_cons_self
        · exact (ih member).imp_right (List.mem_cons_of_mem _)

variable [LE κ] [LT κ] [DecidableLT κ] [DecidableEq κ] [Std.IsLinearOrder κ] [Std.LawfulOrderLT κ]

theorem pairwise_place (k : κ) (v : ν) {es : List (κ × ν)}
    (sorted : es.Pairwise fun a b => a.1 < b.1) :
    (place k v es).Pairwise fun a b => a.1 < b.1 := by
  induction es with
  | nil => simp [place]
  | cons e more ih =>
    obtain ⟨above, rest⟩ := List.pairwise_cons.1 sorted
    rw [place]
    split
    · rename_i less
      refine List.pairwise_cons.2 ⟨fun d member => ?_, sorted⟩
      rcases List.mem_cons.1 member with rfl | member
      · exact less
      · exact Std.lt_trans less (above d member)
    · split
      · rename_i same
        exact List.pairwise_cons.2 ⟨fun d member => same ▸ above d member, rest⟩
      · rename_i notLess other
        have greater : e.1 < k := by
          rcases Std.lt_trichotomy k e.1 with h | h | h
          · exact absurd h notLess
          · exact absurd h other
          · exact h
        refine List.pairwise_cons.2 ⟨fun d member => ?_, ih rest⟩
        rcases fst_of_mem_place member with same | member
        · exact same ▸ greater
        · exact above d member

/-- The map with a key set to a value. -/
def insert (m : SortedMap κ ν) (k : κ) (v : ν) : SortedMap κ ν :=
  ⟨place k v m.entries, pairwise_place k v m.sorted⟩

/-- The map of a list of entries, in which the last value of a key counts. -/
def ofList (es : List (κ × ν)) : SortedMap κ ν :=
  es.foldl (fun m e => m.insert e.1 e.2) empty

theorem get?_insert (m : SortedMap κ ν) (k j : κ) (v : ν) :
    (m.insert k v).get? j = if k = j then some v else m.get? j := by
  obtain ⟨es, sorted⟩ := m
  simp only [get?, insert]
  induction es with
  | nil => by_cases same : k = j <;> simp [place, same]
  | cons e more ih =>
    have rest := ih (List.pairwise_cons.1 sorted).2
    rw [place]
    split
    · by_cases same : k = j <;> simp [same]
    · split
      · rename_i same
        by_cases found : k = j
        · simp [found]
        · simp [found, ← same]
      · rename_i other
        by_cases found : e.1 = j
        · have apart : k ≠ j := fun h => other (h.trans found.symm)
          simp [found, apart]
        · simpa [found] using rest

end SortedMap

end PocketConsole
