import Mathlib.Data.Finset.Card
import Mathlib.Data.List.TakeWhile
import SignedHttp.Proofs.Store.Linked

/-!
# What a Store Holds

Which keys a store holds is decided by its whole past, and the past matters only through the
order in which keys were last used. `byRecency` lists the keys of a history in that order. The
store holds a part of this list, in this order, and if nothing was ever removed then it is the
part that it has room for (`keys_sublist`, `keys_eq`).

How far behind a key stands in that list is how many different keys were used after it. So a key
is held if and only if it was put and fewer different ones were used since than the store has
room for.

A key that is put and one that is got and found are used in the same way: it comes to the front,
the other entries stay as they are, and those that stand too far back are dropped
(`Linked.call_cases`).

## Main definitions

* `LinkedLru.Call.used?`, `LinkedLru.uses`: The keys that calls use, the latest first.
* `LinkedLru.usedSince`: The keys that were used since a key was last used.
* `LinkedLru.lastPut`: The value that was last put under a key.
* `byRecency`: The keys of a history in the order of their last use.
* `LinkedLru.Holds`: What a store has in its list and its index after some calls.
* `LinkedLru.Drops`: What a call drops.

## Theorems

* `mem_take_byRecency_iff`: A place in the order of last use counts the keys used since.
* `Linked.call_cases`: What a call does to the entries.
* `keys_sublist`, `keys_eq`: The keys that are held, by the order of last use.
* `lastPut_of_mem`: The values that are held are those last put.
* `holds_and_drops`: What a store holds after any calls, and what a next one drops.
-/

namespace SignedHttp

namespace LinkedLru

/-! ### Histories of keys -/

/-- The keys of a history, the latest first, each at the place of its latest use. -/
def byRecency : List Bytes → List Bytes
  | [] => []
  | key :: earlier => key :: (byRecency earlier).filter (· != key)

/-- The part of a history that is later than the latest use of a key. -/
def since (key : Bytes) (history : List Bytes) : List Bytes := history.takeWhile (· != key)

variable {key first : Bytes} {earlier history : List Bytes}

@[simp]
theorem since_cons_self (key : Bytes) (earlier : List Bytes) : since key (key :: earlier) = [] :=
  List.takeWhile_cons_of_neg (by simp only [bne_self_eq_false, Bool.false_eq_true,
    not_false_eq_true])

theorem since_cons_of_ne (h : first ≠ key) (earlier : List Bytes) :
    since key (first :: earlier) = first :: since key earlier :=
  List.takeWhile_cons_of_pos (p := (· != key)) (bne_iff_ne.2 h)

theorem mem_byRecency : key ∈ byRecency history ↔ key ∈ history := by
  induction history with
  | nil => exact Iff.rfl
  | cons first earlier ih =>
      rw [byRecency, List.mem_cons, List.mem_cons, List.mem_filter, ih, bne_iff_ne]
      tauto

theorem nodup_byRecency (history : List Bytes) : (byRecency history).Nodup := by
  induction history with
  | nil => exact List.nodup_nil
  | cons first earlier ih =>
      refine List.nodup_cons.2 ⟨fun hmem => ?_, List.filter_sublist.nodup ih⟩
      exact bne_iff_ne.1 (List.mem_filter.1 hmem).2 rfl

/-- There are as many keys in the order of last use as there are different ones. -/
theorem length_byRecency (history : List Bytes) :
    (byRecency history).length = history.toFinset.card := by
  rw [← List.toFinset_card_of_nodup (nodup_byRecency history)]
  congr 1
  ext key
  rw [List.mem_toFinset, List.mem_toFinset, mem_byRecency]

/-- What stands before a key in the order of last use is what was used since. -/
theorem since_byRecency (key : Bytes) (history : List Bytes) :
    since key (byRecency history) = byRecency (since key history) := by
  induction history with
  | nil => rfl
  | cons first earlier ih =>
      rw [byRecency]
      by_cases hfirst : first = key
      · rw [hfirst, since_cons_self, since_cons_self, byRecency]
      · rw [since_cons_of_ne hfirst, since_cons_of_ne hfirst, byRecency, ← ih, since, since,
          List.takeWhile_filter]
        -- Leaving out the first key does not move the end of what is taken.
        have hend : ∀ k : Bytes, (!(k != first) || k != key) = (k != key) := by
          intro k
          by_cases hk : k = first
          · rw [hk, bne_self_eq_false, Bool.not_false, Bool.true_or, bne_iff_ne.2 hfirst]
          · rw [bne_iff_ne.2 hk, Bool.not_true, Bool.false_or]
        simp only [hend]

/-- Of two keys, the one that stands before the other was used since. -/
theorem pairwise_byRecency (history : List Bytes) :
    (byRecency history).Pairwise fun a b => a ∈ since b history := by
  induction history with
  | nil => exact List.Pairwise.nil
  | cons first earlier ih =>
      refine List.pairwise_cons.2 ⟨fun b hb => ?_, ?_⟩
      · have hne := bne_iff_ne.1 (List.mem_filter.1 hb).2
        rw [since_cons_of_ne hne.symm]
        exact List.mem_cons_self
      · -- What was used since a key is still so after one more use of another.
        refine (ih.filter _).imp_of_mem fun {a b} _ hb hsince => ?_
        have hne := bne_iff_ne.1 (List.mem_filter.1 hb).2
        rw [since_cons_of_ne hne.symm]
        exact List.mem_cons_of_mem _ hsince

/-- A key is among the first ones of a list if few enough stand before it. -/
theorem mem_take_iff_since {keys : List Bytes} {n : Nat} :
    key ∈ keys.take n ↔ key ∈ keys ∧ (since key keys).length < n := by
  induction keys generalizing n with
  | nil => simp only [List.take_nil, List.not_mem_nil, false_and]
  | cons first rest ih =>
      cases n with
      | zero => simp only [List.take_zero, List.not_mem_nil, Nat.not_lt_zero, and_false]
      | succ n =>
          rw [List.take_succ_cons, List.mem_cons, List.mem_cons, ih]
          by_cases hfirst : key = first
          · simp only [hfirst, since_cons_self, List.length_nil, true_or, Nat.succ_pos, and_true]
          · rw [since_cons_of_ne (Ne.symm hfirst), List.length_cons, Nat.succ_lt_succ_iff]
            simp only [hfirst, false_or]

/-- A place in the order of last use counts the keys that were used since. -/
theorem mem_take_byRecency_iff {n : Nat} :
    key ∈ (byRecency history).take n ↔ key ∈ history ∧ (since key history).toFinset.card < n := by
  rw [mem_take_iff_since, mem_byRecency, since_byRecency, length_byRecency]

/-- A key that comes to the front takes at most one place from those that are in reach. -/
theorem take_cons_filter {keys : List Bytes} (hnodup : keys.Nodup) (key : Bytes) (n : Nat) :
    (key :: (keys.take n).filter (· != key)).take n =
      (key :: keys.filter (· != key)).take n := by
  cases n with
  | zero => rfl
  | succ n =>
      rw [List.take_succ_cons, List.take_succ_cons]
      congr 1
      -- Only if something is out of reach there is something to show.
      by_cases hshort : keys.length ≤ n + 1
      · rw [List.take_of_length_le hshort]
      · have hfront : n ≤ ((keys.take (n + 1)).filter (· != key)).length := by
          rw [← (hnodup.sublist (List.take_sublist _ _)).erase_eq_filter, List.length_erase,
            List.length_take]
          split <;> omega
        conv_rhs => rw [← List.take_append_drop (n + 1) keys, List.filter_append,
          List.take_append_of_le_length hfront]

/-! ### Calls -/

variable {α : Type} {s : LinkedLru α} {value : α} {calls : List (Call α)} {c : Call α}

/-- The key that a call uses: one that is put, or one that is got and found. -/
def Call.used? (s : LinkedLru α) : Call α → Option Bytes
  | .put key _ => some key
  | .get key => if s.contains key then some key else none
  | _ => none

/-- The value that a call puts under a key. -/
def Call.putValue? (key : Bytes) : Call α → Option α
  | .put k value => if k = key then some value else none
  | _ => none

/-- Is the call one that removes entries by itself? -/
def Call.removes : Call α → Bool
  | .erase _ | .eraseAt _ | .clear => true
  | _ => false

/-- The keys that calls use, the latest first. -/
def uses (s : LinkedLru α) : List (Call α) → List Bytes
  | [] => []
  | c :: calls => uses (s.call c).1 calls ++ (c.used? s).toList

/-- The value that was last put under a key. -/
def lastPut (key : Bytes) (calls : List (Call α)) : Option α :=
  calls.reverse.findSome? (Call.putValue? key)

/-- The last call uses at most one key, and it comes first. -/
theorem uses_concat (s : LinkedLru α) (calls : List (Call α)) (c : Call α) :
    s.uses (calls ++ [c]) = (c.used? (s.run calls)).toList ++ s.uses calls := by
  -- The first call decides which store the others meet, so the induction is from the front.
  induction calls generalizing s with
  | nil =>
      rw [List.nil_append, uses, uses, uses, run, List.foldl_nil, List.nil_append,
        List.append_nil]
  | cons first calls ih =>
      rw [List.cons_append, uses, ih, uses, List.append_assoc]
      rfl

theorem lastPut_concat (key : Bytes) (calls : List (Call α)) (c : Call α) :
    lastPut key (calls ++ [c]) = (c.putValue? key).or (lastPut key calls) := by
  rw [lastPut, List.reverse_append, List.reverse_singleton, List.singleton_append,
    List.findSome?_cons, lastPut]
  cases c.putValue? key <;> rfl

/-- A call puts the entry of a key in front of the others, and what is then too many is dropped. -/
structure Call.Uses (c : Call α) (s : LinkedLru α) (key : Bytes) (value : α) : Prop where
  origin : c = .put key value ∨ c = .get key ∧ (key, value) ∈ s.entries
  used?_eq : c.used? s = some key
  entries : (s.call c).1.entries = (s.toLru.overfull key value).take s.capacity
  dropped_eq : (s.call c).2 = ((s.toLru.overfull key value).drop s.capacity).reverse

/-- A call uses no key, and nothing is dropped. The entries are the same, or some are removed. -/
structure Call.UsesNone (c : Call α) (s : LinkedLru α) : Prop where
  used?_eq : c.used? s = none
  putValue : ∀ key, c.putValue? key = none
  entries : (s.call c).1.entries.Sublist s.entries
  unchanged : c.removes = false → (s.call c).1.entries = s.entries
  dropped_eq : (s.call c).2 = []

theorem Call.UsesNone.ne_put (hc : c.UsesNone s) : ¬∃ value, c = .put key value := by
  rintro ⟨value, rfl⟩
  have hnone := hc.putValue key
  rw [Call.putValue?, if_pos rfl] at hnone
  exact nomatch hnone

/-- A put uses its key, with the value that it brings. -/
theorem Linked.uses_put (h : Linked s) (key : Bytes) (value : α) :
    (Call.put key value).Uses s key value := by
  rcases h.put key value with ⟨s', hput, -, hlru⟩
  refine ⟨Or.inl rfl, rfl, ?_, ?_⟩
  · rw [LinkedLru.call, hput]
    exact congrArg Lru.entries hlru
  · rw [LinkedLru.call, hput]
    rfl

/-- Getting an entry uses its key, with the value that it has. -/
theorem Linked.uses_get (h : Linked s) (hmem : (key, value) ∈ s.entries) :
    (Call.get key).Uses s key value := by
  rcases h.get key with ⟨s', hget, hlinked, hlru⟩
  rw [Lru.touch, h.toLru_peek_eq_some_iff.2 hmem] at hlru
  have hentries : s'.entries = s.toLru.overfull key value := congrArg Lru.entries hlru
  -- The store has no more entries than before, so there is room for all of them.
  have hroom : (s.toLru.overfull key value).length ≤ s.capacity := by
    have hlength := hlinked.length_le
    rw [← hentries, LinkedLru.entries, List.length_map]
    exact hlength.trans_eq (congrArg Lru.capacity hlru)
  refine ⟨Or.inr ⟨rfl, hmem⟩, ?_, ?_, ?_⟩
  · rw [Call.used?, if_pos (h.contains_iff.2 (List.mem_map_of_mem hmem))]
  · rw [LinkedLru.call, hget, List.take_of_length_le hroom]
    exact hentries
  · rw [LinkedLru.call, List.drop_of_length_le hroom]
    rfl

/-- Getting an absent key uses none. -/
theorem Linked.usesNone_get (h : Linked s) (hnot : s.contains key = false) :
    (Call.get key).UsesNone s := by
  have hpeek : s.toLru.peek key = none := by
    rwa [h.contains, Lru.contains, Option.isSome_eq_false_iff, Option.isNone_iff_eq_none] at hnot
  rcases h.get key with ⟨s', hget, -, hlru⟩
  rw [Lru.touch, hpeek] at hlru
  have hentries : (s.call (.get key)).1.entries = s.entries := by
    rw [LinkedLru.call, hget]
    exact congrArg Lru.entries hlru
  exact ⟨by rw [Call.used?, hnot]; rfl, fun _ => rfl, hentries ▸ List.Sublist.refl _,
    fun _ => hentries, rfl⟩

/-- A call either uses a key or uses none. -/
theorem Linked.call_cases (h : Linked s) (c : Call α) :
    (∃ key value, c.Uses s key value) ∨ c.UsesNone s := by
  cases c with
  | put key value => exact Or.inl ⟨key, value, h.uses_put key value⟩
  | get key =>
      cases hcontains : s.contains key with
      | false => exact Or.inr (h.usesNone_get hcontains)
      | true =>
          rcases List.mem_map.1 (h.contains_iff.1 hcontains) with ⟨⟨k, value⟩, hmem, rfl⟩
          exact Or.inl ⟨k, value, h.uses_get hmem⟩
  | erase key =>
      rcases h.erase key with ⟨s', herase, -, hlru⟩
      refine Or.inr ⟨rfl, fun _ => rfl, ?_, fun h => absurd h.symm Bool.false_ne_true, rfl⟩
      have hentries : (s.call (.erase key)).1.entries = s.toLru.others key := by
        rw [LinkedLru.call, herase]
        exact congrArg Lru.entries hlru
      rw [hentries]
      exact List.filter_sublist
  | eraseAt place =>
      refine Or.inr ⟨rfl, fun _ => rfl, ?_, fun h => absurd h.symm Bool.false_ne_true, rfl⟩
      have hentries : (s.call (.eraseAt place)).1.entries =
          ((s.entries[place]?).elim s.toLru fun e => s.toLru.erase e.1).entries :=
        congrArg Lru.entries (h.eraseAt place).2
      rw [hentries]
      cases s.entries[place]? with
      | none => exact List.Sublist.refl _
      | some e => exact List.filter_sublist
  | clear => exact Or.inr ⟨rfl, fun _ => rfl, List.nil_sublist _,
      fun h => absurd h.symm Bool.false_ne_true, rfl⟩
  | peek key => exact Or.inr ⟨rfl, fun _ => rfl, List.Sublist.refl _, fun _ => rfl, rfl⟩
  | contains key => exact Or.inr ⟨rfl, fun _ => rfl, List.Sublist.refl _, fun _ => rfl, rfl⟩

/-- A key that is used comes first, and the others keep their order. -/
theorem keys_overfull (s : LinkedLru α) (key : Bytes) (value : α) :
    (s.toLru.overfull key value).map (·.1) = key :: (s.entries.map (·.1)).filter (· != key) := by
  rw [List.filter_map]
  rfl

/-! ### Runs -/

/-- The store after calls on an empty one. -/
def after (capacity : Nat) (calls : List (Call α)) : LinkedLru α := (create capacity).run calls

/-- The keys that calls on an empty store use, the latest first. -/
def used (capacity : Nat) (calls : List (Call α)) : List Bytes := (create capacity).uses calls

variable {capacity : Nat}

theorem linked_after (capacity : Nat) (calls : List (Call α)) : Linked (after capacity calls) :=
  ((linked_create capacity).run calls).1

theorem capacity_after (capacity : Nat) (calls : List (Call α)) :
    (after capacity calls).capacity = capacity :=
  ((linked_create capacity).run calls).2

theorem after_concat (capacity : Nat) (calls : List (Call α)) (c : Call α) :
    after capacity (calls ++ [c]) = ((after capacity calls).call c).1 :=
  run_concat _ _ _

theorem used_concat (capacity : Nat) (calls : List (Call α)) (c : Call α) :
    used capacity (calls ++ [c]) = (c.used? (after capacity calls)).toList ++ used capacity calls :=
  uses_concat _ _ _

/-- The entries with the one that a call uses in front are in the order of last use. -/
theorem Call.Uses.overfull_sublist (hc : c.Uses (after capacity calls) key value)
    (ih : ((after capacity calls).entries.map (·.1)).Sublist (byRecency (used capacity calls))) :
    (((after capacity calls).toLru.overfull key value).map (·.1)).Sublist
      (byRecency (used capacity (calls ++ [c]))) := by
  rw [used_concat, hc.used?_eq, keys_overfull, Option.toList_some, List.singleton_append, byRecency]
  exact (ih.filter _).cons_cons key

/-- The keys that are held are in the order of their last use. -/
theorem keys_sublist (capacity : Nat) (calls : List (Call α)) :
    ((after capacity calls).entries.map (·.1)).Sublist (byRecency (used capacity calls)) := by
  induction calls using List.reverseRecOn with
  | nil => exact List.Sublist.refl _
  | append_singleton calls c ih =>
      rcases (linked_after capacity calls).call_cases c with ⟨key, value, hc⟩ | hc
      · rw [after_concat, hc.entries]
        exact ((List.take_sublist _ _).map _).trans (hc.overfull_sublist ih)
      · -- The order of last use is as before, and no key of it comes back.
        rw [after_concat, used_concat, hc.used?_eq]
        exact (hc.entries.map _).trans ih

/-- If nothing was removed, the keys that are held are those that were used last. -/
theorem keys_eq (capacity : Nat) (calls : List (Call α)) (hkeep : ∀ c ∈ calls, c.removes = false) :
    (after capacity calls).entries.map (·.1) = (byRecency (used capacity calls)).take capacity := by
  induction calls using List.reverseRecOn with
  | nil => exact List.take_nil.symm
  | append_singleton calls c ih =>
      have hkeys := ih fun d hd => hkeep d (List.mem_append_left _ hd)
      rcases (linked_after capacity calls).call_cases c with ⟨key, value, hc⟩ | hc
      · -- What was out of reach has to stay so: the store does not know it any more.
        rw [after_concat, hc.entries, used_concat, hc.used?_eq, List.map_take, keys_overfull, hkeys,
          capacity_after, take_cons_filter (nodup_byRecency _)]
        rfl
      · have hentries := hc.unchanged (hkeep c (List.mem_append_right _ List.mem_cons_self))
        rw [after_concat, hentries, used_concat, hc.used?_eq]
        exact hkeys

/-- The entries with the one that a call uses in front have the values that were last put. -/
theorem Call.Uses.overfull_values (hc : c.Uses (after capacity calls) key value)
    (ih : ∀ e ∈ (after capacity calls).entries, lastPut e.1 calls = some e.2) :
    ∀ e ∈ (after capacity calls).toLru.overfull key value,
      lastPut e.1 (calls ++ [c]) = some e.2 := by
  intro e he
  rw [lastPut_concat]
  rcases List.mem_cons.1 he with rfl | he
  · rcases hc.origin with rfl | ⟨rfl, hmem⟩
    · rw [Call.putValue?, if_pos rfl]
      rfl
    · exact ih _ hmem
  · rcases List.mem_filter.1 he with ⟨hmem, hne⟩
    rcases hc.origin with rfl | ⟨rfl, -⟩
    · rw [Call.putValue?, if_neg (bne_iff_ne.1 hne).symm]
      exact ih e hmem
    · exact ih e hmem

/-- The values that are held are those that were last put. -/
theorem lastPut_of_mem (capacity : Nat) (calls : List (Call α)) :
    ∀ e ∈ (after capacity calls).entries, lastPut e.1 calls = some e.2 := by
  induction calls using List.reverseRecOn with
  | nil => exact nofun
  | append_singleton calls c ih =>
      rw [after_concat]
      intro e he
      rcases (linked_after capacity calls).call_cases c with ⟨key, value, hc⟩ | hc
      · rw [hc.entries] at he
        exact hc.overfull_values ih e (List.mem_of_mem_take he)
      · -- A call that uses none puts nothing, so the last put is as before.
        rw [lastPut_concat, hc.putValue]
        exact ih e (hc.entries.subset he)

/-- A key that is held was used. -/
theorem mem_used_of_mem {e : Bytes × α} (he : e ∈ (after capacity calls).entries) :
    e.1 ∈ used capacity calls :=
  mem_byRecency.1 ((keys_sublist capacity calls).subset (List.mem_map_of_mem he))

/-- The keys that were used are those that were put: what is got and found has been put before. -/
theorem mem_used_iff (capacity : Nat) (calls : List (Call α)) :
    key ∈ used capacity calls ↔ ∃ value, .put key value ∈ calls := by
  induction calls using List.reverseRecOn with
  | nil => exact ⟨nofun, fun ⟨_, hmem⟩ => nomatch hmem⟩
  | append_singleton calls c ih =>
      simp only [used_concat, List.mem_append, Option.mem_toList, List.mem_singleton, exists_or,
        ← ih]
      -- A get that uses a key finds it, so that this key was used before.
      rcases (linked_after capacity calls).call_cases c with ⟨k, value, hc⟩ | hc
      · rw [hc.used?_eq, Option.some.injEq]
        rcases hc.origin with rfl | ⟨rfl, hmem⟩
        · simp only [Call.put.injEq, exists_and_left, exists_eq, and_true]
          tauto
        · have hused : k ∈ used capacity calls := mem_used_of_mem hmem
          simp only [reduceCtorEq, exists_false, or_false, or_iff_right_iff_imp]
          exact fun heq => heq ▸ hused
      · rw [hc.used?_eq]
        have hnot : ¬∃ value, Call.put key value = c :=
          fun ⟨value, heq⟩ => hc.ne_put ⟨value, heq.symm⟩
        simp only [reduceCtorEq, false_or, hnot, or_false]

/-- If nothing was removed, a key is held if it was put and few enough others were used since. -/
theorem contains_iff_recent (hkeep : ∀ c ∈ calls, c.removes = false) :
    (after capacity calls).contains key = true ↔
      (∃ value, .put key value ∈ calls) ∧
        (since key (used capacity calls)).toFinset.card < capacity := by
  rw [(linked_after capacity calls).contains_iff, keys_eq capacity calls hkeep,
    mem_take_byRecency_iff, mem_used_iff]

/-- The entries that a call drops after others, in the order of dropping. -/
def dropped (capacity : Nat) (calls : List (Call α)) (c : Call α) : List (Bytes × α) :=
  ((after capacity calls).call c).2

/-- What a store has in its list and in its index after calls on an empty one. -/
structure Holds (capacity : Nat) (calls : List (Call α)) : Prop where
  indexes : Indexes (after capacity calls).nodes (after capacity calls).index
  same_keys : (after capacity calls).index.keys.Perm ((after capacity calls).nodes.map Node.key)
  size_le : (after capacity calls).size ≤ capacity
  order : (after capacity calls).entries.Pairwise fun a b => a.1 ∈ since b.1 (used capacity calls)
  values : ∀ e ∈ (after capacity calls).entries, lastPut e.1 calls = some e.2
  /-- What is found through the index is what the list has. -/
  peek : ∀ key, (after capacity calls).peek key =
    if (after capacity calls).contains key then lastPut key calls else none

/-- Of what a store held or was given by a call, that is dropped which is not there afterwards:
each entry once, with its last value, and before those that were used later. -/
structure Drops (capacity : Nat) (calls : List (Call α)) (c : Call α) : Prop where
  nodup : ((dropped capacity calls c).map (·.1)).Nodup
  mem_iff : c.removes = false → ∀ key, key ∈ (dropped capacity calls c).map (·.1) ↔
    ((after capacity calls).contains key = true ∨ ∃ value, c = .put key value) ∧
      (after capacity (calls ++ [c])).contains key = false
  /-- What is removed by itself is not dropped. -/
  of_removes : c.removes = true → dropped capacity calls c = []
  values : ∀ e ∈ dropped capacity calls c, lastPut e.1 (calls ++ [c]) = some e.2
  order : (dropped capacity calls c ++ (after capacity (calls ++ [c])).entries.reverse).Pairwise
    fun a b => b.1 ∈ since a.1 (used capacity (calls ++ [c]))

/-- Whatever the calls, this is what a store has. -/
theorem holds (capacity : Nat) (calls : List (Call α)) : Holds capacity calls where
  indexes := (linked_after capacity calls).indexes
  same_keys := (linked_after capacity calls).indexes.keys_perm
  size_le := by
    have hlength := (linked_after capacity calls).length_le
    rwa [capacity_after, ← (linked_after capacity calls).indexes.size_eq] at hlength
  order := List.pairwise_map.1 ((pairwise_byRecency _).sublist (keys_sublist capacity calls))
  values := lastPut_of_mem capacity calls
  peek := by
    intro key
    have hlinked := linked_after capacity calls
    rw [hlinked.peek, hlinked.contains, Lru.contains]
    cases hpeek : (after capacity calls).toLru.peek key with
    | none => rfl
    | some value => exact (lastPut_of_mem capacity calls _ (Lru.mem_of_peek hpeek)).symm

/-- The keys in front of which a key is put are those that were held, and the key itself. -/
theorem Call.Uses.mem_overfull_iff (hc : c.Uses s key value) (h : Linked s) (other : Bytes) :
    other ∈ (s.toLru.overfull key value).map (·.1) ↔
      s.contains other = true ∨ ∃ v, c = .put other v := by
  rw [keys_overfull, List.mem_cons, List.mem_filter, bne_iff_ne, h.contains_iff]
  rcases hc.origin with rfl | ⟨rfl, hmem⟩
  · simp only [Call.put.injEq, exists_and_left, exists_eq', and_true]
    tauto
  · have hheld : key ∈ s.entries.map (·.1) := List.mem_map_of_mem hmem
    simp only [reduceCtorEq, exists_false, or_false]
    constructor
    · rintro (rfl | ⟨hother, -⟩)
      · exact hheld
      · exact hother
    · intro hother
      by_cases hkey : other = key
      · exact Or.inl hkey
      · exact Or.inr ⟨hother, hkey⟩

/-- In a list without repetitions the rest holds what the beginning does not. -/
theorem mem_drop_iff {keys : List Bytes} (hnodup : keys.Nodup) {n : Nat} :
    key ∈ keys.drop n ↔ key ∈ keys ∧ key ∉ keys.take n := by
  constructor
  · intro hmem
    refine ⟨List.mem_of_mem_drop hmem, fun htake => ?_⟩
    exact List.disjoint_take_drop hnodup (Nat.le_refl n) htake hmem
  · rintro ⟨hmem, hnot⟩
    rw [← List.take_append_drop n keys, List.mem_append] at hmem
    exact hmem.resolve_left hnot

/-- A call that uses a key drops what then stands too far back. -/
theorem Call.Uses.drops (hc : c.Uses (after capacity calls) key value) :
    Drops capacity calls c := by
  have hlinked := linked_after capacity calls
  have hsublist := hc.overfull_sublist (keys_sublist capacity calls)
  have hvalues := hc.overfull_values (lastPut_of_mem capacity calls)
  have hnodup := hsublist.nodup (nodup_byRecency _)
  have hmem := hc.mem_overfull_iff hlinked
  -- Both halves are parts of one list, in which no key occurs twice.
  have hentries := hc.entries
  have hdropped : dropped capacity calls c = _ := hc.dropped_eq
  rw [← after_concat, capacity_after] at hentries
  rw [capacity_after] at hdropped
  generalize (after capacity calls).toLru.overfull key value = front at *
  refine ⟨?_, fun _ other => ?_, fun hremoves => ?_, fun e he => ?_, ?_⟩
  · rw [hdropped, List.map_reverse, List.nodup_reverse, List.map_drop]
    exact hnodup.sublist (List.drop_sublist _ _)
  · rw [hdropped, List.map_reverse, List.mem_reverse, List.map_drop, mem_drop_iff hnodup, hmem,
      Bool.eq_false_iff, Ne, (linked_after capacity (calls ++ [c])).contains_iff, hentries,
      List.map_take]
  · rcases hc.origin with rfl | ⟨rfl, -⟩
    · exact Bool.noConfusion hremoves
    · exact Bool.noConfusion hremoves
  · rw [hdropped, List.mem_reverse] at he
    exact hvalues e (List.mem_of_mem_drop he)
  · -- What is dropped and what is left are together all entries, from the other end.
    rw [hdropped, hentries, ← List.reverse_append, List.take_append_drop, List.pairwise_reverse]
    exact List.pairwise_map.1 ((pairwise_byRecency _).sublist hsublist)

/-- A call that uses no key drops nothing. -/
theorem Call.UsesNone.drops (hc : c.UsesNone (after capacity calls)) : Drops capacity calls c := by
  have hdropped : dropped capacity calls c = [] := hc.dropped_eq
  refine ⟨?_, fun hkeep other => ?_, fun _ => hdropped, ?_, ?_⟩
  · rw [hdropped]
    exact List.nodup_nil
  · -- The store holds the same keys as before, and was given no other.
    have hput : ¬∃ value, c = .put other value := hc.ne_put
    have hsame : (after capacity (calls ++ [c])).contains other =
        (after capacity calls).contains other := by
      rw [Bool.eq_iff_iff, (linked_after _ _).contains_iff, (linked_after _ _).contains_iff,
        after_concat, hc.unchanged hkeep]
    rw [hdropped, hsame]
    simp only [List.map_nil, List.not_mem_nil, hput, or_false, false_iff, not_and,
      Bool.not_eq_false, imp_self]
  · rw [hdropped]
    exact nofun
  · rw [hdropped, List.nil_append, List.pairwise_reverse]
    exact (holds capacity (calls ++ [c])).order

/-- What a store holds after any calls, and what a next one drops. If no entries were removed,
those are held whose keys were put and have not been left behind by too many others. -/
theorem holds_and_drops (capacity : Nat) (calls : List (Call α)) :
    Holds capacity calls ∧
      ((∀ c ∈ calls, c.removes = false) → ∀ key, (after capacity calls).contains key = true ↔
        (∃ value, .put key value ∈ calls) ∧
          (since key (used capacity calls)).toFinset.card < capacity) ∧
      ∀ c, Drops capacity calls c := by
  refine ⟨holds capacity calls, fun hkeep key => contains_iff_recent hkeep, fun c => ?_⟩
  rcases (linked_after capacity calls).call_cases c with ⟨key, value, hc⟩ | hc
  · exact hc.drops
  · exact hc.drops

/-- Of two keys the first one is got again, so a third one leaves it and drops the second. -/
theorem holds_and_drops_third :
    let calls : List (Call Nat) := [.put [1] 10, .put [2] 20, .get [1]]
    let third : Call Nat := .put [3] 30
    ((∀ c ∈ calls, c.removes = false) ∧ (∃ value, .put [2] value ∈ calls) ∧
        (since [2] (used 2 calls)).toFinset.card < 2) ∧
      (after 2 calls).contains [2] = true ∧ Holds 2 calls ∧ Drops 2 calls third ∧
      dropped 2 calls third = [([2], 20)] ∧
      (after 2 (calls ++ [third])).entries = [([3], 30), ([1], 10)] := by
  intro calls third
  have hkeep : ∀ c ∈ calls, c.removes = false := by decide
  have hrecent : (∃ value, .put [2] value ∈ calls) ∧
      (since [2] (used 2 calls)).toFinset.card < 2 :=
    ⟨⟨20, by decide⟩, by decide⟩
  rcases holds_and_drops 2 calls with ⟨hholds, hpresent, hdrops⟩
  exact ⟨⟨hkeep, hrecent⟩, (hpresent hkeep [2]).2 hrecent, hholds, hdrops third, by decide,
    by decide⟩

end LinkedLru

end SignedHttp
