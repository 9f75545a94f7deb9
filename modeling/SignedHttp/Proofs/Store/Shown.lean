import SignedHttp.Proofs.Store.Replay

/-!
# Which Guards Were Shown a Nonce

A nonce that no guard has seen is shown to some guards, all at the same moment. Then
those that were shown it have a record of that moment, and the others have none. That is
all one has to know of the guards to say what each will answer when it is shown the nonce
next: that it is new, unless the guard is one of those. There are two exceptions, guards
that keep nothing. One without capacity drops what it records, and to one whose retention
is negative even a record of the same moment is too old.

`Guards.ShownTo` is this knowledge, in relation to the guards as they were before. It
holds of guards that are empty, with nobody who was shown the nonce. Showing other nonces
does not change it, and showing this one adds a guard to the list.

## Main definitions

* `Guards.ShownTo`: Which guards were shown a nonce, at a moment.
* `ReplayGuard.Recognizes`: A guard recognizes a nonce that it was shown at the same moment.

## Theorems

* `shownTo_of_empty`: No guard that is empty was shown the nonce.
* `ShownTo.check_other`, `ShownTo.check`: What is known after a nonce was shown.
* `ShownTo.new_iff`: The nonce is new to a guard that was not shown it.
-/

namespace SignedHttp

namespace ReplayGuard

variable {g : ReplayGuard} {now : Nat} {nonce other : Bytes}

/-- The guard recognizes a nonce that it was shown at the same moment: it has room for it, and
its retention is not negative. -/
def Recognizes (g : ReplayGuard) : Prop := 0 < g.seen.capacity ∧ 0 ≤ g.retention

/-- A nonce that was shown is on record, since then or since before, if there is room for it. -/
theorem check_peek_self (now : Nat) (nonce : Bytes) (g : ReplayGuard) :
    (g.check now nonce).2.seen.peek nonce
      = if (g.check now nonce).1 then if 0 < g.seen.capacity then some now else none
        else g.seen.peek nonce := by
  by_cases h : (g.seen.peek nonce).any (g.isRecent now) = true
  · rw [check_replay h]
    exact Lru.peek_touch_self nonce g.seen
  · rw [check_new h, if_pos rfl, ← Lru.touch_capacity nonce g.seen]
    exact Lru.peek_put_self nonce now _

theorem check_peek_none (h : g.seen.peek nonce = none) (hne : other ≠ nonce) (now : Nat) :
    (g.check now other).2.seen.peek nonce = none := by
  by_cases hrecent : (g.seen.peek other).any (g.isRecent now) = true
  · rw [check_replay hrecent]
    exact Lru.peek_touch_none h hne
  · rw [check_new hrecent]
    exact Lru.peek_put_none (Lru.peek_touch_none h hne) hne now

end ReplayGuard

namespace Guards

variable {nonce other : Bytes} {now : Nat} {ids : List GuardId} {gs₀ gs : Guards}

/-- Of the guards those of a list were shown the nonce at a moment, and no other has a record of
it. Apart from their records they are as before. -/
structure ShownTo (nonce : Bytes) (now : Nat) (ids : List GuardId) (gs₀ gs : Guards) : Prop where
  retention : ∀ id, (gs id).retention = (gs₀ id).retention
  capacity : ∀ id, (gs id).seen.capacity = (gs₀ id).seen.capacity
  record : ∀ id, (gs id).seen.peek nonce
    = if id ∈ ids ∧ 0 < (gs₀ id).seen.capacity then some now else none

theorem check_self (guard : GuardId) (moment : Nat) (shown : Bytes) (gs : Guards) :
    (gs.check guard moment shown).2 guard = ((gs guard).check moment shown).2 :=
  set_same guard _ _

theorem check_of_ne {id guard : GuardId} (h : id ≠ guard) (moment : Nat) (shown : Bytes)
    (gs : Guards) : (gs.check guard moment shown).2 id = gs id :=
  set_other h _ _

/-- Nobody was shown the nonce if no guard has a record of it; the moment is any. -/
theorem shownTo_nil_iff :
    ShownTo nonce now [] gs₀ gs ↔
      (∀ id, (gs id).retention = (gs₀ id).retention) ∧
        (∀ id, (gs id).seen.capacity = (gs₀ id).seen.capacity) ∧
        ∀ id, (gs id).seen.peek nonce = none := by
  have hnobody : ∀ id, ¬ (id ∈ ([] : List GuardId) ∧ 0 < (gs₀ id).seen.capacity) :=
    fun id hid => List.not_mem_nil hid.1
  constructor
  · intro h
    exact ⟨h.retention, h.capacity, fun id => by rw [h.record id, if_neg (hnobody id)]⟩
  · intro h
    rcases h with ⟨hretention, hcapacity, hnone⟩
    exact ⟨hretention, hcapacity, fun id => by rw [hnone id, if_neg (hnobody id)]⟩

theorem shownTo_of_empty (h : ∀ id, (gs₀ id).seen.entries = []) (nonce : Bytes) (now : Nat) :
    ShownTo nonce now [] gs₀ gs₀ := by
  refine shownTo_nil_iff.2 ⟨fun _ => rfl, fun _ => rfl, fun id => ?_⟩
  rw [Lru.peek, h id]
  rfl

namespace ShownTo

/-- The settings of guards stay when a nonce is shown to one of them. -/
theorem check_settings (h : ShownTo nonce now ids gs₀ gs) (guard : GuardId) (shown : Bytes)
    (moment : Nat) (id : GuardId) :
    ((gs.check guard moment shown).2 id).retention = (gs₀ id).retention ∧
      ((gs.check guard moment shown).2 id).seen.capacity = (gs₀ id).seen.capacity := by
  rw [← h.retention, ← h.capacity]
  -- The guard that is asked keeps its settings, and the others are not touched.
  by_cases hid : id = guard
  · rw [hid, check_self]
    exact ReplayGuard.check_settings moment shown (gs guard)
  · rw [check_of_ne hid]
    exact ⟨rfl, rfl⟩

/-- Another nonce makes no record of this one. -/
theorem check_other (h : ShownTo nonce now [] gs₀ gs) (hne : other ≠ nonce) (guard : GuardId)
    (moment : Nat) : ShownTo nonce now [] gs₀ (gs.check guard moment other).2 := by
  have hnone := (shownTo_nil_iff.1 h).2.2
  refine shownTo_nil_iff.2 ⟨fun id => (h.check_settings guard other moment id).1,
    fun id => (h.check_settings guard other moment id).2, fun id => ?_⟩
  by_cases hid : id = guard
  · rw [hid, check_self]
    exact ReplayGuard.check_peek_none (hnone guard) hne moment
  · rw [check_of_ne hid]
    exact hnone id

/-- A guard calls the nonce new if it was not shown it, or keeps nothing. -/
theorem new_iff (h : ShownTo nonce now ids gs₀ gs) (guard : GuardId) :
    (gs.check guard now nonce).1 = true ↔ guard ∉ ids ∨ ¬ (gs₀ guard).Recognizes := by
  have hnew : (gs.check guard now nonce).1 = ((gs guard).check now nonce).1 := rfl
  rw [hnew, ReplayGuard.check_new_iff, h.record guard, h.retention guard, ReplayGuard.Recognizes]
  by_cases hid : guard ∈ ids ∧ 0 < (gs₀ guard).seen.capacity
  · -- The record is of this moment, so only a negative retention is over.
    rw [if_pos hid]
    simp only [Option.mem_some_iff, forall_eq', Int.sub_self]
    constructor
    · intro hover
      exact Or.inr fun hrecognizes => by omega
    · intro hnot
      rcases hnot with hnot | hnot
      · exact absurd hid.1 hnot
      · by_contra hover
        exact hnot ⟨hid.2, by omega⟩
  · -- Without a record the nonce is new, and then one of the two reasons holds.
    rw [if_neg hid]
    refine ⟨fun _ => ?_, fun _ seen hseen => absurd hseen (Option.not_mem_none seen)⟩
    by_contra hnot
    rw [not_or, not_not, not_not] at hnot
    exact hid ⟨hnot.1, hnot.2.1⟩

/-- The guard that is asked is one more that was shown the nonce, whatever it answered. -/
theorem check (h : ShownTo nonce now ids gs₀ gs) (guard : GuardId) :
    ShownTo nonce now (ids ++ [guard]) gs₀ (gs.check guard now nonce).2 where
  retention id := (h.check_settings guard nonce now id).1
  capacity id := (h.check_settings guard nonce now id).2
  record id := by
    by_cases hid : id = guard
    · rw [hid, check_self, ReplayGuard.check_peek_self, h.capacity, h.record]
      simp only [List.mem_append, List.mem_singleton, or_true, true_and]
      split
      · rfl
      · next hold =>
        -- A guard that does not call the nonce new was shown it before.
        have hshown : guard ∈ ids := by
          by_contra hnot
          exact hold ((h.new_iff guard).2 (Or.inl hnot))
        simp only [hshown, true_and]
    · rw [check_of_ne hid, h.record id]
      simp only [List.mem_append, List.mem_singleton, hid, or_false]

end ShownTo

end Guards

end SignedHttp
