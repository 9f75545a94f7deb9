import Mathlib.Data.List.Induction
import Mathlib.Data.List.Nodup
import SignedHttp.Proofs.Store.Lru
import SignedHttp.Proofs.Text.Table
import SignedHttp.Store.Linked

/-!
# The Index of a Store

The nodes of a store and its index are two accounts of the same entries. They agree if the index
leads from the key of each node to the number of this node, and leads nowhere from other keys
(`Indexes`). A key then has one node, a number as well, and taking out a node by its number is
taking out the entry of its key.

As long as they agree, and no node has the number that is given next (`Linked`), the store does
what the plain one does: `toLru` forgets the numbers and the index, and each operation is the one
of `Lru` on what remains.

## Main definitions

* `LinkedLru.Indexes`: An index that leads to the nodes of a list.
* `LinkedLru.Linked`: A store whose list and index agree, and which has not too many entries.
* `LinkedLru.toLru`: The plain store with the same entries.

## Theorems

* `Indexes.erase`, `Indexes.push`: The agreement is kept by what is done to both accounts.
* `Indexes.keys_perm`: The keys of the index are those of the list.
* `Indexes.dropOldest`: What is dropped is what stands too far back.
* `Linked.peek`, `Linked.contains`, `Linked.size`: The index knows what the list has.
* `Linked.put`, `Linked.get`, `Linked.erase`, `Linked.eraseAt`: Each operation keeps the store
  linked and does what the plain one does.
* `Linked.call`, `Linked.run`: Calls keep it linked.
-/

namespace SignedHttp

namespace LinkedLru

variable {α : Type} {nodes : List (Node α)} {index : Table Nat} {s : LinkedLru α} {key : Bytes}

/-- The index leads from the key of each node to its number, and nowhere from other keys. -/
structure Indexes (nodes : List (Node α)) (index : Table Nat) : Prop where
  ordered : index.Ordered
  keys_nodup : (nodes.map Node.key).Nodup
  ids_nodup : (nodes.map Node.id).Nodup
  find?_eq_some_iff : ∀ {key id}, index.find? key = some id ↔ ∃ n ∈ nodes, n.key = key ∧ n.id = id

/-- A store whose list and index agree, with no more entries than there may be. -/
structure Linked (s : LinkedLru α) : Prop where
  indexes : Indexes s.nodes s.index
  /-- The number that is given next is a new one. -/
  fresh : ∀ n ∈ s.nodes, n.id < s.nextId
  length_le : s.nodes.length ≤ s.capacity

/-- The store as a plain list of entries. -/
def toLru (s : LinkedLru α) : Lru α := { capacity := s.capacity, entries := s.entries }

/-! ### The index -/

theorem indexes_nil : Indexes ([] : List (Node α)) {} where
  ordered := List.Pairwise.nil
  keys_nodup := List.nodup_nil
  ids_nodup := List.nodup_nil
  find?_eq_some_iff := ⟨nofun, fun ⟨_, hn, _⟩ => nomatch hn⟩

/-- The order of the nodes is no matter of the index. -/
theorem Indexes.perm {other : List (Node α)} (h : Indexes nodes index) (hperm : nodes.Perm other) :
    Indexes other index where
  ordered := h.ordered
  keys_nodup := (hperm.map Node.key).nodup_iff.1 h.keys_nodup
  ids_nodup := (hperm.map Node.id).nodup_iff.1 h.ids_nodup
  find?_eq_some_iff := by
    simp only [h.find?_eq_some_iff, hperm.mem_iff, implies_true]

theorem Indexes.eq_of_key (h : Indexes nodes index) {m n : Node α} (hm : m ∈ nodes) (hn : n ∈ nodes)
    (hkey : m.key = n.key) : m = n :=
  List.inj_on_of_nodup_map h.keys_nodup hm hn hkey

theorem Indexes.eq_of_id (h : Indexes nodes index) {m n : Node α} (hm : m ∈ nodes) (hn : n ∈ nodes)
    (hid : m.id = n.id) : m = n :=
  List.inj_on_of_nodup_map h.ids_nodup hm hn hid

/-- A node is found under its key. -/
theorem Indexes.find?_key (h : Indexes nodes index) {n : Node α} (hn : n ∈ nodes) :
    index.find? n.key = some n.id :=
  h.find?_eq_some_iff.2 ⟨n, hn, rfl, rfl⟩

/-- The index leads nowhere from a key without a node. -/
theorem Indexes.find?_eq_none_iff (h : Indexes nodes index) :
    index.find? key = none ↔ ∀ n ∈ nodes, n.key ≠ key := by
  constructor
  · intro hnone n hn hkey
    rw [← hkey, h.find?_key hn] at hnone
    exact nomatch hnone
  · intro hne
    refine Option.eq_none_iff_forall_ne_some.2 fun id hid => ?_
    rcases h.find?_eq_some_iff.1 hid with ⟨n, hn, hkey, -⟩
    exact hne n hn hkey

/-- Taking out a node by its number is taking it out by its key. -/
theorem Indexes.filter_id (h : Indexes nodes index) {n : Node α} (hn : n ∈ nodes) :
    nodes.filter (·.id != n.id) = nodes.filter (·.key != n.key) := by
  refine List.filter_congr fun m hm => ?_
  rw [Bool.eq_iff_iff, bne_iff_ne, bne_iff_ne]
  constructor
  · exact fun hid hkey => hid (congrArg Node.id (h.eq_of_key hm hn hkey))
  · exact fun hkey hid => hkey (congrArg Node.key (h.eq_of_id hm hn hid))

/-- A key that is taken out of both accounts leaves the agreement as it is. -/
theorem Indexes.erase (h : Indexes nodes index) (key : Bytes) :
    Indexes (nodes.filter (·.key != key)) (index.erase key) where
  ordered := h.ordered.erase key
  keys_nodup := (List.filter_sublist.map _).nodup h.keys_nodup
  ids_nodup := (List.filter_sublist.map _).nodup h.ids_nodup
  find?_eq_some_iff := by
    intro other id
    simp only [List.mem_filter, bne_iff_ne]
    -- Under the key itself there is nothing left, and under another what there was.
    by_cases hkey : other = key
    · rw [hkey, Table.find?_erase_self]
      exact ⟨nofun, fun ⟨n, ⟨_, hne⟩, heq, _⟩ => absurd heq hne⟩
    · rw [Table.find?_erase_of_ne hkey, h.find?_eq_some_iff]
      exact ⟨fun ⟨n, hn, heq, hid⟩ => ⟨n, ⟨hn, heq ▸ hkey⟩, heq, hid⟩,
        fun ⟨n, hn, heq, hid⟩ => ⟨n, hn.1, heq, hid⟩⟩

/-- A node with a new number takes the place of the one that its key had. -/
theorem Indexes.push (h : Indexes nodes index) {n : Node α} (hfresh : ∀ m ∈ nodes, m.id ≠ n.id) :
    Indexes (n :: nodes.filter (·.key != n.key)) (index.insert n.key n.id) where
  ordered := h.ordered.insert n.key n.id
  keys_nodup := by
    refine List.nodup_cons.2 ⟨fun hmem => ?_, (List.filter_sublist.map _).nodup h.keys_nodup⟩
    rcases List.mem_map.1 hmem with ⟨m, hm, hkey⟩
    exact bne_iff_ne.1 (List.mem_filter.1 hm).2 hkey
  ids_nodup := by
    refine List.nodup_cons.2 ⟨fun hmem => ?_, (List.filter_sublist.map _).nodup h.ids_nodup⟩
    rcases List.mem_map.1 hmem with ⟨m, hm, hid⟩
    exact hfresh m (List.mem_filter.1 hm).1 hid
  find?_eq_some_iff := by
    intro other id
    simp only [List.exists_mem_cons_iff, List.mem_filter, bne_iff_ne]
    -- Under the key of the new node there is its number, and under another what there was.
    by_cases hkey : other = n.key
    · subst hkey
      rw [Table.find?_insert_self]
      constructor
      · exact fun hid => Or.inl ⟨rfl, Option.some.inj hid⟩
      · rintro (⟨-, hid⟩ | ⟨m, ⟨-, hne⟩, heq, -⟩)
        · rw [hid]
        · exact absurd heq hne
    · rw [Table.find?_insert_of_ne hkey, h.find?_eq_some_iff]
      constructor
      · exact fun ⟨m, hm, heq, hid⟩ => Or.inr ⟨m, ⟨hm, heq ▸ hkey⟩, heq, hid⟩
      · rintro (⟨heq, -⟩ | ⟨m, hm, heq, hid⟩)
        · exact absurd heq.symm hkey
        · exact ⟨m, hm.1, heq, hid⟩

/-- The keys of the index are those of the list. -/
theorem Indexes.keys_perm (h : Indexes nodes index) : index.keys.Perm (nodes.map Node.key) := by
  have hnodup : index.keys.Nodup :=
    List.pairwise_map.2 (h.ordered.imp fun hlt => Std.ne_of_lt hlt)
  refine (List.perm_ext_iff_of_nodup hnodup h.keys_nodup).2 fun key => ?_
  simp only [Table.keys, List.mem_map, Prod.exists, exists_and_right, exists_eq_right,
    ← h.ordered.find?_eq_some_iff, h.find?_eq_some_iff]
  exact ⟨fun ⟨_, n, hn, hkey, _⟩ => ⟨n, hn, hkey⟩, fun ⟨n, hn, hkey⟩ => ⟨n.id, n, hn, hkey, rfl⟩⟩

theorem Indexes.size_eq (h : Indexes nodes index) : index.size = nodes.length := by
  have hlength := h.keys_perm.length_eq
  rwa [Table.keys, List.length_map, List.length_map] at hlength

/-- The first node of a list is the only one of its key. -/
theorem Indexes.filter_head {n : Node α} (h : Indexes (n :: nodes) index) :
    (n :: nodes).filter (·.key != n.key) = nodes := by
  have hnot := (List.nodup_cons.1 h.keys_nodup).1
  rw [List.filter_cons_of_neg (by simp only [bne_self_eq_false, Bool.false_eq_true,
    not_false_eq_true]), List.filter_eq_self]
  exact fun m hm => bne_iff_ne.2 fun hkey => hnot (hkey ▸ List.mem_map_of_mem hm)

/-- Of nodes from the least recently used on, those are dropped that are too many. -/
theorem Indexes.dropOldest (h : Indexes nodes index) (capacity : Nat) :
    ∃ index', dropOldest capacity nodes index =
        (nodes.drop (nodes.length - capacity), index',
          (nodes.take (nodes.length - capacity)).map Node.entry) ∧
      Indexes (nodes.drop (nodes.length - capacity)) index' := by
  -- By induction on the nodes, since each round drops the first one and looks again.
  induction nodes generalizing index with
  | nil => exact ⟨index, by rw [List.drop_nil, List.take_nil]; rfl, by rwa [List.drop_nil]⟩
  | cons n rest ih =>
      rw [LinkedLru.dropOldest, h.size_eq, List.length_cons]
      by_cases hover : capacity < rest.length + 1
      · have hrest : Indexes rest (index.erase n.key) := by
          have herase := h.erase n.key
          rwa [h.filter_head] at herase
        rcases ih hrest with ⟨index', hdrop, hindexes⟩
        refine ⟨index', ?_, ?_⟩
        · rw [if_pos hover, hdrop, Nat.succ_sub (Nat.lt_succ_iff.1 hover), List.drop_succ_cons,
            List.take_succ_cons, List.map_cons]
        · rwa [Nat.succ_sub (Nat.lt_succ_iff.1 hover)]
      · refine ⟨index, ?_, ?_⟩
        · rw [if_neg hover, Nat.sub_eq_zero_of_le (Nat.not_lt.1 hover)]
          rfl
        · rwa [Nat.sub_eq_zero_of_le (Nat.not_lt.1 hover)]

/-! ### Operations -/

theorem entries_filter (nodes : List (Node α)) (key : Bytes) :
    (nodes.filter (·.key != key)).map Node.entry =
      (nodes.map Node.entry).filter (·.1 != key) := by
  rw [List.filter_map]
  rfl

/-- Of too many nodes the last ones are dropped, and they are announced from the end. -/
theorem shrink_eq (h : Indexes s.nodes s.index) :
    ∃ index', s.shrink = ({ s with nodes := s.nodes.take s.capacity, index := index' },
        (s.entries.drop s.capacity).reverse) ∧
      Indexes (s.nodes.take s.capacity) index' := by
  rcases (h.perm (List.reverse_perm s.nodes).symm).dropOldest s.capacity
    with ⟨index', hdrop, hindexes⟩
  -- Seen from the front, what is too many stands at the end.
  have hdropped : (s.nodes.reverse.take (s.nodes.length - s.capacity)).map Node.entry =
      (s.entries.drop s.capacity).reverse := by
    rw [List.reverse_drop, entries, List.length_map, List.map_take, List.map_reverse]
  rw [List.length_reverse, hdropped, ← List.reverse_take] at hdrop
  rw [List.length_reverse, ← List.reverse_take] at hindexes
  refine ⟨index', ?_, hindexes.perm (List.reverse_perm _)⟩
  rw [shrink, hdrop]
  simp only [List.reverse_reverse]

theorem Indexes.find?_id (h : Indexes nodes index) {n : Node α} (hn : n ∈ nodes) :
    nodes.find? (·.id == n.id) = some n := by
  cases hfind : nodes.find? (·.id == n.id) with
  | none => exact absurd (beq_self_eq_true n.id) (List.find?_eq_none.1 hfind n hn)
  | some m =>
      have hid := List.find?_some hfind
      rw [h.eq_of_id (List.mem_of_find?_eq_some hfind) hn (beq_iff_eq.1 hid)]

/-- By way of the index the node of a key is found. -/
theorem Linked.node?_eq_some_iff (h : Linked s) {n : Node α} :
    s.node? key = some n ↔ n ∈ s.nodes ∧ n.key = key := by
  rw [node?, Option.bind_eq_some_iff]
  constructor
  · rintro ⟨id, hid, hfind⟩
    rcases h.indexes.find?_eq_some_iff.1 hid with ⟨m, hm, hkey, rfl⟩
    rw [h.indexes.find?_id hm] at hfind
    cases hfind
    exact ⟨hm, hkey⟩
  · rintro ⟨hn, rfl⟩
    exact ⟨n.id, h.indexes.find?_key hn, h.indexes.find?_id hn⟩

/-- A node comes before all others. -/
theorem Indexes.perm_front (h : Indexes nodes index) {n : Node α} (hn : n ∈ nodes) :
    (n :: nodes.filter (·.key != n.key)).Perm nodes := by
  have hnodup : (n :: nodes.filter (·.key != n.key)).Nodup :=
    List.nodup_cons.2 ⟨fun hmem => bne_iff_ne.1 (List.mem_filter.1 hmem).2 rfl,
      List.filter_sublist.nodup (h.keys_nodup.of_map _)⟩
  refine (List.perm_ext_iff_of_nodup hnodup (h.keys_nodup.of_map _)).2 fun m => ?_
  rw [List.mem_cons, List.mem_filter, bne_iff_ne]
  constructor
  · rintro (rfl | hm)
    · exact hn
    · exact hm.1
  · intro hm
    by_cases hkey : m.key = n.key
    · exact Or.inl (h.eq_of_key hm hn hkey)
    · exact Or.inr ⟨hm, hkey⟩

theorem keys_entries (s : LinkedLru α) : s.entries.map (·.1) = s.nodes.map Node.key := by
  rw [entries, List.map_map]
  rfl

theorem Linked.keys_nodup (h : Linked s) : (s.entries.map (·.1)).Nodup := by
  rw [keys_entries]
  exact h.indexes.keys_nodup

/-- An entry is what the plain store has under its key. -/
theorem Linked.toLru_peek_eq_some_iff (h : Linked s) {value : α} :
    s.toLru.peek key = some value ↔ (key, value) ∈ s.entries := by
  refine ⟨Lru.mem_of_peek, fun hmem => ?_⟩
  cases hpeek : s.toLru.peek key with
  | none => exact absurd rfl (Lru.peek_eq_none_iff.1 hpeek _ hmem)
  | some other =>
      -- There is one entry of the key, so there is one value.
      have heq := List.inj_on_of_nodup_map h.keys_nodup (Lru.mem_of_peek hpeek) hmem rfl
      exact congrArg (fun e => some e.2) heq

theorem Linked.node?_none (h : Linked s) (hnone : s.node? key = none) :
    s.toLru.peek key = none := by
  refine Lru.peek_eq_none_iff.2 fun e he hkey => ?_
  rcases List.mem_map.1 he with ⟨n, hn, rfl⟩
  have hsome := h.node?_eq_some_iff.2 ⟨hn, hkey.symm⟩
  rw [hnone] at hsome
  exact nomatch hsome

theorem Linked.node?_some (h : Linked s) {n : Node α} (hsome : s.node? key = some n) :
    s.toLru.peek key = some n.value := by
  rcases h.node?_eq_some_iff.1 hsome with ⟨hn, rfl⟩
  exact h.toLru_peek_eq_some_iff.2 (List.mem_map_of_mem hn)

/-- The index finds what a search of the list would find. -/
theorem Linked.peek (h : Linked s) (key : Bytes) : s.peek key = s.toLru.peek key := by
  rw [LinkedLru.peek]
  cases hnode : s.node? key with
  | none => exact (h.node?_none hnode).symm
  | some n => exact (h.node?_some hnode).symm

theorem Linked.contains_iff (h : Linked s) : s.contains key = true ↔ key ∈ s.entries.map (·.1) := by
  rw [LinkedLru.contains, Table.contains, ← Option.not_isNone, Bool.not_eq_true', keys_entries]
  rw [Bool.eq_false_iff, Ne, Option.isNone_iff_eq_none, h.indexes.find?_eq_none_iff]
  simp only [List.mem_map, not_forall, not_not, exists_prop]

/-- The index is asked, and knows what the list would answer. -/
theorem Linked.contains (h : Linked s) (key : Bytes) :
    s.contains key = s.toLru.contains key := by
  rw [Bool.eq_iff_iff, h.contains_iff, Lru.contains, Option.isSome_iff_exists]
  simp only [h.toLru_peek_eq_some_iff, List.mem_map, Prod.exists, exists_and_right,
    exists_eq_right]

/-- The size is that of the index, and counts the entries as well. -/
theorem Linked.size (h : Linked s) : s.size = s.toLru.size := by
  rw [LinkedLru.size, h.indexes.size_eq, Lru.size, toLru, entries, List.length_map]

theorem linked_create (capacity : Nat) : Linked (create capacity : LinkedLru α) where
  indexes := indexes_nil
  fresh := nofun
  length_le := Nat.zero_le _

/-- The new node stands first, and the one that its key had is gone. -/
theorem Linked.push_eq (h : Linked s) (key : Bytes) (value : α) :
    s.push key value =
      { s with
        nodes := ⟨s.nextId, key, value⟩ :: s.nodes.filter (·.key != key)
        index := s.index.insert key s.nextId
        nextId := s.nextId + 1 } := by
  rw [push]
  cases hfind : s.index.find? key with
  | none =>
      have hall : s.nodes.filter (·.key != key) = s.nodes :=
        List.filter_eq_self.2 fun n hn => bne_iff_ne.2 (h.indexes.find?_eq_none_iff.1 hfind n hn)
      rw [hall]
  | some old =>
      rcases h.indexes.find?_eq_some_iff.1 hfind with ⟨n, hn, rfl, rfl⟩
      -- The old node is looked for by its number, and the new one has another.
      have hnew : (s.nextId != n.id) = true := bne_iff_ne.2 (Nat.ne_of_gt (h.fresh n hn))
      simp only [unlink, List.filter_cons, hnew, if_true, h.indexes.filter_id hn]

/-- A push may leave one entry more than there is room for. -/
theorem Linked.push_entries (h : Linked s) (key : Bytes) (value : α) :
    (s.push key value).entries = s.toLru.overfull key value := by
  rw [h.push_eq, entries, List.map_cons, entries_filter]
  rfl

theorem Linked.push_indexes (h : Linked s) (key : Bytes) (value : α) :
    Indexes (s.push key value).nodes (s.push key value).index := by
  rw [h.push_eq]
  exact h.indexes.push (n := ⟨s.nextId, key, value⟩) fun m hm => Nat.ne_of_lt (h.fresh m hm)

/-- A put returns the value that it stored, if there was room, and what it dropped. -/
theorem Linked.put (h : Linked s) (key : Bytes) (value : α) :
    ∃ s', s.put key value = ((s.toLru.put key value).entries.head?.map (·.2), s',
        s.toLru.evictedBy key value) ∧
      Linked s' ∧ s'.toLru = s.toLru.put key value := by
  have hcapacity : (s.push key value).capacity = s.capacity := by rw [h.push_eq]
  rcases shrink_eq (h.push_indexes key value) with ⟨index', hshrink, hindexes⟩
  rw [h.push_entries, hcapacity] at hshrink
  rw [hcapacity] at hindexes
  have hentries : ((s.push key value).nodes.take s.capacity).map Node.entry =
      (s.toLru.put key value).entries := by
    rw [List.map_take, ← entries, h.push_entries]
    rfl
  refine ⟨⟨s.capacity, _, index', (s.push key value).nextId⟩, ?_, ⟨hindexes, ?_, ?_⟩, ?_⟩
  · rw [LinkedLru.put, hshrink, ← hentries, List.head?_map, Option.map_map]
    rfl
  · -- The new node has the number that was next, and the one after it is next now.
    rw [h.push_eq]
    intro n hn
    rcases List.mem_cons.1 (List.mem_of_mem_take hn) with rfl | hn
    · exact Nat.lt_succ_self _
    · exact Nat.lt_succ_of_lt (h.fresh n (List.mem_filter.1 hn).1)
  · exact List.length_take_le _ _
  · rw [toLru, entries, hentries]
    rfl

/-- A get returns what is there, and brings it to the front. -/
theorem Linked.get (h : Linked s) (key : Bytes) :
    ∃ s', s.get key = (s.toLru.peek key, s') ∧ Linked s' ∧ s'.toLru = s.toLru.touch key := by
  rw [LinkedLru.get, Lru.touch]
  cases hnode : s.node? key with
  | none =>
      rw [h.node?_none hnode]
      exact ⟨s, rfl, h, rfl⟩
  | some n =>
      -- The node moves to the front, so list and index are the same up to the order.
      rw [h.node?_some hnode]
      rcases h.node?_eq_some_iff.1 hnode with ⟨hn, rfl⟩
      have hperm := h.indexes.perm_front hn
      refine ⟨_, rfl, ⟨?_, ?_, ?_⟩, ?_⟩
      · simp only [unlink, h.indexes.filter_id hn]
        exact h.indexes.perm hperm.symm
      · simp only [unlink, h.indexes.filter_id hn]
        exact fun m hm => h.fresh m (hperm.mem_iff.1 hm)
      · simp only [unlink, h.indexes.filter_id hn]
        rw [hperm.length_eq]
        exact h.length_le
      · simp only [toLru, entries, unlink, h.indexes.filter_id hn, List.map_cons, entries_filter]
        rfl

/-- What remains when the node of a key is gone. -/
theorem Linked.without (h : Linked s) (key : Bytes) :
    Linked { s with nodes := s.nodes.filter (·.key != key), index := s.index.erase key } where
  indexes := h.indexes.erase key
  fresh := fun n hn => h.fresh n (List.mem_filter.1 hn).1
  length_le := (List.length_filter_le _ _).trans h.length_le

/-- Taking out a key tells whether it was there. -/
theorem Linked.erase (h : Linked s) (key : Bytes) :
    ∃ s', s.erase key = (s.toLru.contains key, s') ∧ Linked s' ∧
      s'.toLru = s.toLru.erase key := by
  rw [LinkedLru.erase]
  cases hfind : s.index.find? key with
  | none =>
      -- A key that is absent is taken out by doing nothing.
      have hne := h.indexes.find?_eq_none_iff.1 hfind
      have hall : s.entries.filter (·.1 != key) = s.entries := by
        rw [entries, ← entries_filter, List.filter_eq_self.2 fun n hn => bne_iff_ne.2 (hne n hn)]
      refine ⟨s, ?_, h, ?_⟩
      · rw [← h.contains, LinkedLru.contains, Table.contains, hfind]
        rfl
      · rw [Lru.erase, Lru.others, toLru, hall]
  | some id =>
      rcases h.indexes.find?_eq_some_iff.1 hfind with ⟨n, hn, rfl, rfl⟩
      refine ⟨_, ?_, h.without n.key, ?_⟩
      · rw [← h.contains, LinkedLru.contains, Table.contains, hfind]
        simp only [unlink, h.indexes.filter_id hn, Option.isSome_some]
      · simp only [toLru, entries, entries_filter]
        rfl

/-- Taking out what an iterator points at takes out the entry at its place. -/
theorem Linked.eraseAt (h : Linked s) (place : Nat) :
    Linked (s.eraseAt place) ∧
      (s.eraseAt place).toLru = (s.entries[place]?).elim s.toLru fun e => s.toLru.erase e.1 := by
  rw [LinkedLru.eraseAt, entries, List.getElem?_map]
  cases hplace : s.nodes[place]? with
  | none => exact ⟨h, rfl⟩
  | some n =>
      have hn := List.mem_of_getElem? hplace
      simp only [unlink, h.indexes.filter_id hn]
      refine ⟨h.without n.key, ?_⟩
      simp only [toLru, entries, entries_filter]
      rfl

theorem linked_clear (s : LinkedLru α) : Linked s.clear where
  indexes := indexes_nil
  fresh := nofun
  length_le := Nat.zero_le _

/-! ### Calls -/

/-- A call keeps the store linked, and what it has room for. -/
theorem Linked.call (h : Linked s) (c : Call α) :
    Linked (s.call c).1 ∧ (s.call c).1.capacity = s.capacity := by
  cases c with
  | put key value =>
      rcases h.put key value with ⟨s', hput, hlinked, hlru⟩
      rw [LinkedLru.call, hput]
      exact ⟨hlinked, congrArg Lru.capacity hlru⟩
  | get key =>
      rcases h.get key with ⟨s', hget, hlinked, hlru⟩
      rw [LinkedLru.call, hget]
      exact ⟨hlinked, (congrArg Lru.capacity hlru).trans (Lru.touch_capacity key _)⟩
  | erase key =>
      rcases h.erase key with ⟨s', herase, hlinked, hlru⟩
      rw [LinkedLru.call, herase]
      exact ⟨hlinked, congrArg Lru.capacity hlru⟩
  | eraseAt place =>
      refine ⟨(h.eraseAt place).1, ?_⟩
      rw [LinkedLru.call, LinkedLru.eraseAt]
      split <;> rfl
  | clear => exact ⟨linked_clear s, rfl⟩
  | peek key => exact ⟨h, rfl⟩
  | contains key => exact ⟨h, rfl⟩

theorem run_concat (s : LinkedLru α) (calls : List (Call α)) (c : Call α) :
    s.run (calls ++ [c]) = ((s.run calls).call c).1 := by
  rw [run, List.foldl_append]
  rfl

theorem Linked.run (h : Linked s) (calls : List (Call α)) :
    Linked (s.run calls) ∧ (s.run calls).capacity = s.capacity := by
  induction calls using List.reverseRecOn with
  | nil => exact ⟨h, rfl⟩
  | append_singleton calls c ih =>
      rw [run_concat]
      exact ⟨(ih.1.call c).1, (ih.1.call c).2.trans ih.2⟩

end LinkedLru

end SignedHttp
