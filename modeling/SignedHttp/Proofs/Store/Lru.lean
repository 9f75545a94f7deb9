import Mathlib.Data.Finset.Card
import SignedHttp.Store.Lru

/-!
# How Long an Entry Stays

An entry of a bounded store leaves it only by being pushed over the end, so what
decides its fate is how many entries stand before it. These are entries of keys that
were used since, each at most once. As long as fewer different keys were used than
there may be entries, the entry stays.

`Behind` is that argument as an invariant: the entry is there, and before it stand
entries of different keys, all of them from a set of keys that may have been used.
The set does not grow along a run. It is fixed from the beginning as all that will be
used, and its size is compared with the capacity once.

## Main definitions

* `Lru.Behind`: An entry, and where those before it come from.

## Theorems

* `Behind.peek`: The entry is found.
* `behind_put`: An entry that was just put has nothing before it.
* `Behind.touch`: Using an entry of the set keeps the invariant.
* `Behind.put`: Putting one does so too, if the set is smaller than the store.
* `Behind.erase`, `Behind.filter`: So does taking other entries out.
* `peek_put_self`, `peek_touch_self`: What is found under the key that was used.
* `peek_put_none`, `peek_touch_none`: What is absent stays so while others are used.
* `mem_of_mem_put`, `touch_subset`, `erase_subset`: Where the entries come from.
* `size_touch_le`: There are no more of them after one was used.
-/

namespace SignedHttp

namespace Lru

variable {α : Type} {key other : Bytes} {value : α} {recent : Finset Bytes} {s : Lru α}

/-- Among entries, that of a key, and before it entries of different keys from a set. -/
def Behind (key : Bytes) (value : α) (recent : Finset Bytes) (entries : List (Bytes × α)) :
    Prop :=
  ∃ front back, entries = front ++ (key, value) :: back ∧ (front.map (·.1)).Nodup ∧
    ∀ e ∈ front, e.1 ≠ key ∧ e.1 ∈ recent

/-- Entries of other keys are passed over. -/
theorem lookup_append_of_ne {front : List (Bytes × α)} (h : ∀ e ∈ front, e.1 ≠ key)
    (back : List (Bytes × α)) : (front ++ back).lookup key = back.lookup key := by
  -- By induction on what is in front, which the search goes through one by one.
  induction front with
  | nil => rfl
  | cons e front ih =>
      rw [List.forall_mem_cons] at h
      rw [List.cons_append, List.lookup_cons, beq_false_of_ne (Ne.symm h.1)]
      exact ih h.2

/-- What stands before the entry does not hide it. -/
theorem Behind.peek (h : Behind key value recent s.entries) : s.peek key = some value := by
  rcases h with ⟨front, back, hentries, -, hfront⟩
  rw [Lru.peek, hentries, lookup_append_of_ne fun e he => (hfront e he).1, List.lookup_cons,
    beq_self_eq_true]

/-- An entry at the head of the list has nothing before it. -/
theorem behind_cons (key : Bytes) (value : α) (recent : Finset Bytes)
    (entries : List (Bytes × α)) : Behind key value recent ((key, value) :: entries) :=
  ⟨[], entries, rfl, List.nodup_nil, fun _ he => absurd he List.not_mem_nil⟩

/-- An entry that comes to the head pushes the others back by one, and leaves no other of its
own key. -/
theorem Behind.push (h : Behind key value recent s.entries) (hne : other ≠ key)
    (hmem : other ∈ recent) (v : α) : Behind key value recent ((other, v) :: s.others other) := by
  rcases h with ⟨front, back, hentries, hnodup, hfront⟩
  -- The new entry stands in front of those that stood there, without an older one of its key.
  refine ⟨(other, v) :: front.filter (·.1 != other), back.filter (·.1 != other), ?_, ?_, ?_⟩
  · rw [others, hentries, List.filter_append, List.filter_cons_of_pos (by simpa using Ne.symm hne),
      List.cons_append]
  · -- An older entry of the key that comes to the head is gone from the front.
    rw [List.map_cons, List.nodup_cons]
    refine ⟨fun hin => ?_, (List.filter_sublist.map _).nodup hnodup⟩
    rcases List.mem_map.1 hin with ⟨e, he, hkey⟩
    have hother := (List.mem_filter.1 he).2
    rw [hkey, bne_self_eq_false] at hother
    exact Bool.noConfusion hother
  · rw [List.forall_mem_cons]
    exact ⟨⟨hne, hmem⟩, fun e he => hfront e (List.mem_filter.1 he).1⟩

/-- Fewer keys than the store has room for do not push the entry over the end. -/
theorem Behind.take {entries : List (Bytes × α)} (h : Behind key value recent entries) {n : Nat}
    (hn : (recent.erase key).card < n) : Behind key value recent (entries.take n) := by
  rcases h with ⟨front, back, hentries, hnodup, hfront⟩
  -- The keys before the entry are different ones of the set, so there are fewer than `n`.
  have hlength : front.length < n := by
    have hsubset : (front.map (·.1)).toFinset ⊆ recent.erase key := by
      intro k hk
      rcases List.mem_map.1 (List.mem_toFinset.1 hk) with ⟨e, he, rfl⟩
      exact Finset.mem_erase.2 (hfront e he)
    have hcard := Finset.card_le_card hsubset
    rw [List.toFinset_card_of_nodup hnodup, List.length_map] at hcard
    omega
  refine ⟨front, back.take (n - front.length - 1), ?_, hnodup, hfront⟩
  rw [hentries, List.take_append, List.take_of_length_le (by omega)]
  cases hrest : n - front.length with
  | zero => omega
  | succ k =>
      rw [List.take_succ_cons, Nat.add_sub_cancel]

/-- An entry stays behind the same ones, or fewer, when others are left out. -/
theorem Behind.filter {entries : List (Bytes × α)} (h : Behind key value recent entries)
    {p : Bytes × α → Bool} (hp : p (key, value) = true) :
    Behind key value recent (entries.filter p) := by
  rcases h with ⟨front, back, rfl, hnodup, hfront⟩
  refine ⟨front.filter p, back.filter p, ?_, (List.filter_sublist.map _).nodup hnodup, ?_⟩
  · rw [List.filter_append, List.filter_cons_of_pos hp]
  · exact fun e he => hfront e (List.mem_filter.1 he).1

theorem Behind.erase (h : Behind key value recent s.entries) (hne : other ≠ key) :
    Behind key value recent (s.erase other).entries :=
  h.filter (bne_iff_ne.2 (Ne.symm hne))

/-- An entry that was just put has nothing before it. -/
theorem behind_put (key : Bytes) (value : α) (recent : Finset Bytes) (h : 0 < s.capacity) :
    Behind key value recent (s.put key value).entries := by
  rw [put, overfull]
  cases hcapacity : s.capacity with
  | zero => omega
  | succ n =>
      rw [List.take_succ_cons]
      exact behind_cons key value recent _

/-- Putting another entry does not drop it, if those that may come before it leave room. -/
theorem Behind.put (h : Behind key value recent s.entries) (hne : other ≠ key)
    (hmem : other ∈ recent) (hroom : (recent.erase key).card < s.capacity) (v : α) :
    Behind key value recent (s.put other v).entries :=
  (h.push hne hmem v).take hroom

theorem Behind.touch_self (h : Behind key value recent s.entries) :
    Behind key value recent (s.touch key).entries := by
  rw [Lru.touch, h.peek]
  exact behind_cons key value recent _

/-- Using an entry of the set puts at most that one before it. -/
theorem Behind.touch (h : Behind key value recent s.entries) (hmem : other ∈ recent) :
    Behind key value recent (s.touch other).entries := by
  by_cases hkey : other = key
  · rw [hkey]
    exact h.touch_self
  · rw [Lru.touch]
    split
    · next v _ => exact h.push hkey hmem v
    · exact h

theorem peek_touch_self (key : Bytes) (s : Lru α) : (s.touch key).peek key = s.peek key := by
  cases hpeek : s.peek key with
  | none => rw [touch, hpeek, hpeek]
  | some value => rw [touch, hpeek, Lru.peek, List.lookup_cons, beq_self_eq_true]

/-- What was put is there, unless there is no room at all. -/
theorem peek_put_self (key : Bytes) (value : α) (s : Lru α) :
    (s.put key value).peek key = if 0 < s.capacity then some value else none := by
  rw [put, overfull, Lru.peek]
  cases s.capacity with
  | zero => rfl
  | succ n => rw [List.take_succ_cons, List.lookup_cons, beq_self_eq_true, if_pos (Nat.succ_pos n)]

theorem peek_eq_none_iff : s.peek key = none ↔ ∀ e ∈ s.entries, key ≠ e.1 := by
  rw [Lru.peek, List.lookup_eq_none_iff]
  simp only [bne_iff_ne, Ne]

/-- An entry that is absent stays absent when another one comes to the front. -/
theorem peek_cons_none (h : s.peek key = none) (hne : other ≠ key) (v : α) :
    ∀ e ∈ (other, v) :: s.others other, key ≠ e.1 := by
  rw [List.forall_mem_cons]
  exact ⟨Ne.symm hne, fun e he => peek_eq_none_iff.1 h e (List.mem_filter.1 he).1⟩

theorem peek_put_none (h : s.peek key = none) (hne : other ≠ key) (v : α) :
    (s.put other v).peek key = none :=
  peek_eq_none_iff.2 fun e he => peek_cons_none h hne v e (List.mem_of_mem_take he)

theorem peek_touch_none (h : s.peek key = none) (hne : other ≠ key) :
    (s.touch other).peek key = none := by
  rw [touch]
  split
  · next v _ => exact peek_eq_none_iff.2 (peek_cons_none h hne v)
  · exact h

theorem mem_of_peek (h : s.peek key = some value) : (key, value) ∈ s.entries := by
  rcases List.lookup_eq_some_iff.1 h with ⟨front, back, hentries, -⟩
  rw [hentries]
  exact List.mem_append_right _ List.mem_cons_self

theorem erase_subset (key : Bytes) (s : Lru α) : (s.erase key).entries ⊆ s.entries :=
  fun _ he => (List.mem_filter.1 he).1

/-- A put adds the entry that is put, at most, and leaves no other under its key. -/
theorem mem_of_mem_put {e : Bytes × α} (h : e ∈ (s.put key value).entries) :
    e = (key, value) ∨ e.1 ≠ key ∧ e ∈ s.entries := by
  rcases List.mem_cons.1 (List.mem_of_mem_take h) with heq | hmem
  · exact Or.inl heq
  · have hother := List.mem_filter.1 hmem
    exact Or.inr ⟨bne_iff_ne.1 hother.2, hother.1⟩

/-- Using an entry adds none. -/
theorem touch_subset (key : Bytes) (s : Lru α) : (s.touch key).entries ⊆ s.entries := by
  intro e he
  rw [touch] at he
  split at he
  · next value hpeek =>
    rcases List.mem_cons.1 he with heq | hmem
    · exact heq ▸ mem_of_peek hpeek
    · exact erase_subset key s hmem
  · exact he

/-- Using an entry moves it, so the entries do not become more. -/
theorem size_touch_le (key : Bytes) (s : Lru α) : (s.touch key).size ≤ s.size := by
  rw [touch]
  split
  · next value hpeek =>
    -- The entry is not among the others, which are therefore fewer.
    have hfewer : (s.others key).length < s.entries.length :=
      List.length_filter_lt_length_iff_exists.2
        ⟨(key, value), mem_of_peek hpeek, by simp only [bne_self_eq_false, Bool.false_eq_true,
          not_false_eq_true]⟩
    simp only [size, List.length_cons]
    omega
  · exact Nat.le_refl _

@[simp]
theorem touch_capacity (key : Bytes) (s : Lru α) : (s.touch key).capacity = s.capacity := by
  rw [touch]
  split <;> rfl

@[simp]
theorem put_capacity (key : Bytes) (value : α) (s : Lru α) :
    (s.put key value).capacity = s.capacity := rfl

end Lru

end SignedHttp
