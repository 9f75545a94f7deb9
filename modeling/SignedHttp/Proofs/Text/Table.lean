import Mathlib.Data.List.Induction
import SignedHttp.Text.Table

/-!
# The Order of a Table

A table is given as the list of its entries. Nothing in the type says that the keys of the list
are in order, or that each of them is there once, but all tables that are made of entries are so:
a value is put in the place of its key. The tables with their keys in order are exactly these
(`ordered_iff`).

In such a table there is one entry for a key, so what is found under a key is what the entries
have there.

## Main definitions

* `Table.Ordered`: The keys are in order.

## Theorems

* `Ordered.insert`, `Ordered.erase`: Putting a value under a key and erasing a key keep the order.
* `ordered_iff`: The tables with their keys in order are those that are made of entries.
* `Ordered.find?_eq_some_iff`: An entry is what is found under its key.
-/

namespace SignedHttp

namespace Table

variable {α : Type} {t : Table α} {key : Bytes} {value : α}

/-- The keys are in order, so each of them is there once. -/
def Ordered (t : Table α) : Prop := t.entries.Pairwise fun a b => a.1 < b.1

/-- A value comes after the entries before its place, and before those after it. -/
theorem Ordered.insert (h : t.Ordered) (key : Bytes) (value : α) :
    (t.insert key value).Ordered := by
  rcases t with ⟨entries⟩
  change (insertEntry key value entries).Pairwise fun a b => a.1 < b.1
  change entries.Pairwise fun a b => a.1 < b.1 at h
  induction entries with
  | nil => exact List.pairwise_singleton _ _
  | cons e rest ih =>
      rcases e with ⟨k, v⟩
      rcases List.pairwise_cons.1 h with ⟨hfirst, hrest⟩
      rw [insertEntry]
      by_cases heq : key = k
      · rw [if_pos heq]
        exact List.pairwise_cons.2 ⟨fun e he => heq ▸ hfirst e he, hrest⟩
      · rw [if_neg heq]
        by_cases hlt : key < k
        · rw [if_pos hlt]
          refine List.pairwise_cons.2 ⟨fun e he => ?_, h⟩
          rcases List.mem_cons.1 he with rfl | he
          · exact hlt
          · exact List.lt_trans hlt (hfirst e he)
        · -- The place is further on, and what is put there is behind the first key as well.
          have hgt : k < key :=
            (List.le_iff_lt_or_eq.1 (List.not_lt.1 hlt)).resolve_right (Ne.symm heq)
          rw [if_neg hlt]
          refine List.pairwise_cons.2 ⟨fun e he => ?_, ih hrest⟩
          rcases mem_entries_insert (t := ⟨rest⟩) he with rfl | he
          · exact hgt
          · exact hfirst e he

theorem Ordered.erase (h : t.Ordered) (key : Bytes) : (t.erase key).Ordered :=
  List.Pairwise.filter _ h

/-- Whatever the order of the entries, the table that is made of them is in order. -/
theorem ordered_ofList (entries : List (Bytes × α)) : (ofList entries).Ordered := by
  induction entries using List.reverseRecOn with
  | nil => exact List.Pairwise.nil
  | append_singleton entries e ih =>
      rw [ofList_concat]
      exact ih.insert e.1 e.2

/-- A value whose key comes after all others is put at the end. -/
theorem insertEntry_of_forall_lt {entries : List (Bytes × α)} (h : ∀ e ∈ entries, e.1 < key)
    (value : α) : insertEntry key value entries = entries ++ [(key, value)] := by
  induction entries with
  | nil => rfl
  | cons e rest ih =>
      rcases List.forall_mem_cons.1 h with ⟨hfirst, hrest⟩
      have hne : key ≠ e.1 := fun heq => List.lt_irrefl e.1 (heq ▸ hfirst)
      have hnot : ¬key < e.1 := fun hlt => List.lt_irrefl key (List.lt_trans hlt hfirst)
      rw [insertEntry, if_neg hne, if_neg hnot, ih hrest, List.cons_append]

/-- The tables with their keys in order are those that are made of entries. -/
theorem ordered_iff : t.Ordered ↔ ∃ entries, t = ofList entries := by
  constructor
  · intro h
    rcases t with ⟨entries⟩
    refine ⟨entries, ?_⟩
    change entries.Pairwise fun a b => a.1 < b.1 at h
    -- From the last entry, which is put behind all others.
    induction entries using List.reverseRecOn with
    | nil => rfl
    | append_singleton entries e ih =>
        rcases List.pairwise_append.1 h with ⟨hentries, -, hlast⟩
        have hlt : ∀ f ∈ entries, f.1 < e.1 :=
          fun f hf => hlast f hf e (List.mem_singleton_self e)
        rw [ofList_concat, ← ih hentries, Table.insert, insertEntry_of_forall_lt hlt]
  · rintro ⟨entries, rfl⟩
    exact ordered_ofList entries

/-- What is found under a key is the only entry of the key. -/
theorem Ordered.find?_eq_some_iff (h : t.Ordered) :
    t.find? key = some value ↔ (key, value) ∈ t.entries := by
  constructor
  · exact mem_entries_of_find?
  · intro hmem
    rcases t with ⟨entries⟩
    rcases List.append_of_mem hmem with ⟨before, after, rfl⟩
    rcases List.pairwise_append.1 h with ⟨-, -, hbefore⟩
    refine List.lookup_eq_some_iff.2 ⟨before, after, rfl, fun e he => ?_⟩
    -- The keys before the entry are less, so none of them is found instead.
    have hlt : e.1 < key := hbefore e he _ (List.mem_cons_self ..)
    exact bne_iff_ne.2 fun heq => List.lt_irrefl e.1 (heq ▸ hlt)

end Table

end SignedHttp
