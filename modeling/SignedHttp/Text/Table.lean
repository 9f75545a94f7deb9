import SignedHttp.Text.Bytes

/-!
# Tables

A table maps texts to values. Its entries are listed in the order of their keys,
and that order is visible: names of policies and details of errors are shown in
it. A key that is inserted again takes the new value.

## Main definitions

* `Table`: A finite map from texts.
* `Table.insert`, `Table.erase`, `Table.find?`: The operations.
* `Table.ofList`: The table of a list, the last value of a repeated key.

## Theorems

* `find?_insert_self`, `find?_insert_of_ne`: What is found after an insertion.
* `find?_erase_self`, `find?_erase_of_ne`: What is found after an erasure.
* `find?_ofList`: What is found in the table of a list is the last value of the key.
* `mem_entries_of_find?`: What is found is an entry.
* `mem_entries_insert`, `mem_entries_erase`, `mem_entries_ofList`: Where an entry comes from.
-/

namespace SignedHttp

/-- A finite map from texts, listed in the order of its keys. -/
structure Table (α : Type) where
  entries : List (Bytes × α) := []
  deriving DecidableEq

namespace Table

variable {α : Type}

/-- The value under a key. -/
def find? (key : Bytes) (t : Table α) : Option α := t.entries.lookup key

/-- Is there a value under the key? -/
def contains (key : Bytes) (t : Table α) : Bool := (t.find? key).isSome

/-- The entries with a value put under a key, at the key's place. -/
def insertEntry (key : Bytes) (value : α) : List (Bytes × α) → List (Bytes × α)
  | [] => [(key, value)]
  | (k, v) :: rest =>
    if key = k then (key, value) :: rest
    else if key < k then (key, value) :: (k, v) :: rest
    else (k, v) :: insertEntry key value rest

/-- The table with a value put under a key. -/
def insert (key : Bytes) (value : α) (t : Table α) : Table α :=
  ⟨insertEntry key value t.entries⟩

/-- The table without a key. -/
def erase (key : Bytes) (t : Table α) : Table α := ⟨t.entries.filter (·.1 != key)⟩

/-- The table of a list of entries; of several values for a key the last one stands. -/
def ofList (entries : List (Bytes × α)) : Table α :=
  entries.foldl (fun t e => t.insert e.1 e.2) {}

def keys (t : Table α) : List Bytes := t.entries.map (·.1)

def size (t : Table α) : Nat := t.entries.length

theorem find?_insert_self (key : Bytes) (value : α) (t : Table α) :
    (t.insert key value).find? key = some value := by
  simp only [find?, insert]
  induction t.entries with
  | nil => simp [insertEntry]
  | cons e rest ih =>
    obtain ⟨k, v⟩ := e
    simp only [insertEntry]
    by_cases hk : key = k
    · simp [hk]
    · rw [if_neg hk]
      split
      · simp
      · rw [List.lookup_cons, ih]
        have : (key == k) = false := by simpa using hk
        rw [this]

theorem find?_insert_of_ne {key other : Bytes} (h : other ≠ key) (value : α) (t : Table α) :
    (t.insert key value).find? other = t.find? other := by
  have hne : (other == key) = false := by simpa using h
  simp only [find?, insert]
  induction t.entries with
  | nil => simp [insertEntry, List.lookup_cons, hne]
  | cons e rest ih =>
    obtain ⟨k, v⟩ := e
    simp only [insertEntry]
    by_cases hk : key = k
    · subst hk
      rw [if_pos rfl, List.lookup_cons, List.lookup_cons, hne]
    · rw [if_neg hk]
      split
      · rw [List.lookup_cons, hne]
      · rw [List.lookup_cons, List.lookup_cons, ih]

theorem find?_erase_self (key : Bytes) (t : Table α) : (t.erase key).find? key = none := by
  simp only [find?, erase, List.lookup_eq_none_iff, List.mem_filter, bne_iff_ne]
  rintro e ⟨_, he⟩
  simpa using Ne.symm he

theorem find?_erase_of_ne {key other : Bytes} (h : other ≠ key) (t : Table α) :
    (t.erase key).find? other = t.find? other := by
  simp only [find?, erase]
  induction t.entries with
  | nil => rfl
  | cons e rest ih =>
    obtain ⟨k, v⟩ := e
    by_cases hk : k = key
    · subst hk
      have hne : (other == k) = false := by simpa using h
      rw [List.filter_cons_of_neg (by simp), List.lookup_cons, hne, ih]
    · rw [List.filter_cons_of_pos (by simpa using hk), List.lookup_cons, List.lookup_cons, ih]

theorem ofList_concat (entries : List (Bytes × α)) (e : Bytes × α) :
    ofList (entries ++ [e]) = (ofList entries).insert e.1 e.2 := by
  simp only [ofList, List.foldl_append, List.foldl_cons, List.foldl_nil]

theorem find?_ofList (key : Bytes) (entries : List (Bytes × α)) :
    (ofList entries).find? key = entries.reverse.lookup key := by
  have hreverse : ∀ l : List (Bytes × α), (ofList l.reverse).find? key = l.lookup key := by
    intro l
    induction l with
    | nil => rfl
    | cons e l ih =>
      rw [List.reverse_cons, ofList_concat, List.lookup_cons]
      by_cases hk : key = e.1
      · rw [hk, find?_insert_self, beq_self_eq_true]
      · rw [find?_insert_of_ne hk, ih, beq_false_of_ne hk]
  rw [← hreverse, List.reverse_reverse]

theorem mem_entries_of_find? {key : Bytes} {value : α} {t : Table α}
    (h : t.find? key = some value) : (key, value) ∈ t.entries := by
  rw [find?, List.lookup_eq_some_iff] at h
  rcases h with ⟨before, after, he, -⟩
  rw [he]
  exact List.mem_append_right before (List.mem_cons_self ..)

theorem mem_entries_insert {key : Bytes} {value : α} {t : Table α} {e : Bytes × α}
    (h : e ∈ (t.insert key value).entries) : e = (key, value) ∨ e ∈ t.entries := by
  obtain ⟨entries⟩ := t
  change e ∈ insertEntry key value entries at h
  induction entries with
  | nil => exact Or.inl (List.mem_singleton.1 h)
  | cons first rest ih =>
    obtain ⟨k, v⟩ := first
    simp only [insertEntry] at h
    split at h
    · rcases List.mem_cons.1 h with h | h
      · exact Or.inl h
      · exact Or.inr (List.mem_cons_of_mem _ h)
    · split at h
      · exact List.mem_cons.1 h
      · rcases List.mem_cons.1 h with h | h
        · exact Or.inr (List.mem_cons.2 (Or.inl h))
        · exact (ih h).imp_right (List.mem_cons_of_mem _)

theorem mem_entries_erase {key : Bytes} {t : Table α} {e : Bytes × α} :
    e ∈ (t.erase key).entries ↔ e ∈ t.entries ∧ e.1 ≠ key := by
  rw [erase, List.mem_filter, bne_iff_ne]

theorem mem_entries_ofList {entries : List (Bytes × α)} {e : Bytes × α}
    (h : e ∈ (ofList entries).entries) : e ∈ entries := by
  have hfold : ∀ (l : List (Bytes × α)) (t : Table α),
      e ∈ (l.foldl (fun t e => t.insert e.1 e.2) t).entries → e ∈ l ∨ e ∈ t.entries := by
    intro l
    induction l with
    | nil => exact fun t h => Or.inr h
    | cons first rest ih =>
      intro t h
      rcases ih _ h with h | h
      · exact Or.inl (List.mem_cons_of_mem _ h)
      · exact (mem_entries_insert h).imp_left fun he => List.mem_cons.2 (Or.inl he)
  exact (hfold entries {} h).resolve_right List.not_mem_nil

end Table

end SignedHttp
