import SignedHttp.Proofs.Store.Lru
import SignedHttp.Store.Replay

/-!
# How Long a Nonce Is Remembered

A guard that called a nonce new has recorded it, at the head of its list. From then on
two things could make it forget: that other nonces push the record over the end, and
that the retention runs out. `Remembers` is the invariant that neither has happened:
there is a record of the nonce, it is not older than a given moment, and the records
before it are those of nonces from a given set.

Showing a nonce keeps the invariant, also if it is the same one. A replay uses the
record and leaves its time; a nonce that is new again, because its retention is over,
gets a record that is even younger.

## Main definitions

* `ReplayGuard.Remembers`: There is a record of a nonce that is not older than a moment.

## Theorems

* `check_new_iff`: A nonce is new if there is no record of it that still counts.
* `remembers_of_new`: A nonce that was called new is remembered.
* `Remembers.check`: It stays so while few enough others are shown.
* `Remembers.not_new`: A nonce that is remembered within the retention is not new.
-/

namespace SignedHttp

namespace ReplayGuard

variable {g : ReplayGuard} {now since : Nat} {nonce other : Bytes} {shown : Finset Bytes}

/-- There is a record of the nonce, not older than `since`, and the records before it are those
of nonces in `shown`. -/
def Remembers (nonce : Bytes) (since : Nat) (shown : Finset Bytes) (g : ReplayGuard) : Prop :=
  ∃ seen, since ≤ seen ∧ Lru.Behind nonce seen shown g.seen.entries

theorem any_isRecent_eq_true_iff :
    (g.seen.peek nonce).any (g.isRecent now) = true ↔
      ∃ seen ∈ g.seen.peek nonce, (now : Int) - seen ≤ g.retention := by
  rw [Option.any_eq_true]
  simp only [isRecent, decide_eq_true_eq, Option.mem_def]

theorem check_replay (h : (g.seen.peek nonce).any (g.isRecent now) = true) :
    g.check now nonce = (false, { g with seen := g.seen.touch nonce }) := by
  simp only [check, Lru.get, h, if_true]

theorem check_new (h : ¬ (g.seen.peek nonce).any (g.isRecent now) = true) :
    g.check now nonce
      = (true, { g with seen := (g.seen.touch nonce).put nonce now }) := by
  rw [Bool.not_eq_true] at h
  simp only [check, Lru.get, h, Bool.false_eq_true, if_false]

/-- A nonce is new if there is no record of it that still counts. -/
theorem check_new_iff :
    (g.check now nonce).1 = true ↔
      ∀ seen ∈ g.seen.peek nonce, g.retention < (now : Int) - seen := by
  by_cases h : (g.seen.peek nonce).any (g.isRecent now) = true
  · rw [check_replay h]
    rcases any_isRecent_eq_true_iff.1 h with ⟨seen, hseen, hrecent⟩
    constructor
    · intro h
      cases h
    · intro hall
      have hlate := hall seen hseen
      omega
  · rw [check_new h]
    refine ⟨fun _ seen hseen => ?_, fun _ => rfl⟩
    by_contra hlate
    exact h (any_isRecent_eq_true_iff.2 ⟨seen, hseen, by omega⟩)

/-- No showing changes what a guard has room for, or how long a record counts. -/
theorem check_settings (now : Nat) (nonce : Bytes) (g : ReplayGuard) :
    (g.check now nonce).2.retention = g.retention ∧
      (g.check now nonce).2.seen.capacity = g.seen.capacity := by
  by_cases h : (g.seen.peek nonce).any (g.isRecent now) = true
  · rw [check_replay h]
    exact ⟨rfl, Lru.touch_capacity nonce g.seen⟩
  · rw [check_new h]
    exact ⟨rfl, (Lru.put_capacity nonce now _).trans (Lru.touch_capacity nonce g.seen)⟩

/-- A nonce that is new is on record afterwards, with nothing before it. -/
theorem remembers_of_new (h : (g.check now nonce).1 = true) (hcapacity : 0 < g.seen.capacity)
    (shown : Finset Bytes) : (g.check now nonce).2.Remembers nonce now shown := by
  by_cases hrecent : (g.seen.peek nonce).any (g.isRecent now) = true
  · rw [check_replay hrecent] at h
    exact Bool.noConfusion h
  · rw [check_new hrecent]
    refine ⟨now, Nat.le_refl now, Lru.behind_put nonce now shown ?_⟩
    rw [Lru.touch_capacity]
    exact hcapacity

/-- The nonce stays on record, if the one that is shown is among those expected. -/
theorem Remembers.check (h : g.Remembers nonce since shown) (htime : since ≤ now)
    (hmem : other ∈ shown) (hroom : (shown.erase nonce).card < g.seen.capacity) :
    (g.check now other).2.Remembers nonce since shown := by
  rcases h with ⟨seen, hseen, hbehind⟩
  -- A replay moves a record to the front, and a new nonce makes one.
  by_cases hrecent : (g.seen.peek other).any (g.isRecent now) = true
  · rw [check_replay hrecent]
    exact ⟨seen, hseen, hbehind.touch hmem⟩
  · rw [check_new hrecent]
    have hcapacity : (g.seen.touch other).capacity = g.seen.capacity := Lru.touch_capacity other _
    by_cases hsame : other = nonce
    · -- The record is made anew, and is no older than the moment of the showing.
      rw [hsame] at hcapacity ⊢
      exact ⟨now, htime, Lru.behind_put nonce now shown (by omega)⟩
    · exact ⟨seen, hseen, (hbehind.touch hmem).put hsame hmem (by omega) now⟩

/-- A nonce on record is not new before the retention is over. -/
theorem Remembers.not_new (h : g.Remembers nonce since shown)
    (htime : (now : Int) - since ≤ g.retention) : (g.check now nonce).1 = false := by
  rcases h with ⟨seen, hseen, hbehind⟩
  rw [check_replay]
  exact any_isRecent_eq_true_iff.2 ⟨seen, hbehind.peek, by omega⟩

end ReplayGuard

end SignedHttp
