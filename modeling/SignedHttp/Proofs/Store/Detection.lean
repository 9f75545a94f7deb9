import SignedHttp.Proofs.Store.Replay

/-!
# Which Replays a Guard Finds

A guard in use is shown nonces, and is cleared now and then. What it should find are the
replays: the nonces that it accepted as new a short time before. It finds nothing else,
and it misses one only if it had to make room for too many other nonces in between.

Both directions go back to the moment when a nonce was accepted (`Accepted`). That a
replay is real is an invariant of the records. Each of them says when its nonce was
accepted, since the last clearing, because a record is made only on that occasion and a
replay does not change its time. That a replay is found is the invariant `Remembers`,
which is set up by the acceptance and kept by each of the calls that follow, as long as
the nonces shown in them fit in beside the one at stake.

A nonce can be accepted several times, once in each retention. It is enough that one of
these moments is recent and not too much has happened since then.

## Main definitions

* `GuardCall`, `ReplayGuard.run`: A guard in use.
* `ReplayGuard.Accepted`: A nonce was new at a moment, and there was no clearing since.
* `GuardCall.othersShown`: The other nonces that were shown in some calls.

## Theorems

* `accepted_of_mem`: Each record tells when its nonce was accepted.
* `Remembers.run`: A nonce stays on record along a run.
* `size_run_le`: There are never more records than the capacity allows.
* `detects_replays`: What is reported as a replay, and what must be.
-/

namespace SignedHttp

/-- A use of a replay guard. -/
inductive GuardCall
  | check (nonce : Bytes)
  | clear
  deriving DecidableEq

namespace GuardCall

/-- The nonce that a call shows. -/
def nonce? : GuardCall → Option Bytes
  | check nonce => some nonce
  | clear => none

/-- The nonces that some calls show. -/
def allShown (calls : List (Nat × GuardCall)) : Finset Bytes :=
  (calls.filterMap (·.2.nonce?)).toFinset

/-- The nonces other than a given one that some calls show. -/
def othersShown (nonce : Bytes) (calls : List (Nat × GuardCall)) : Finset Bytes :=
  (allShown calls).erase nonce

theorem mem_allShown {calls : List (Nat × GuardCall)} {e : Nat × GuardCall} {nonce : Bytes}
    (he : e ∈ calls) (hnonce : e.2 = .check nonce) : nonce ∈ allShown calls :=
  List.mem_toFinset.2 (List.mem_filterMap.2 ⟨e, he, by rw [hnonce, nonce?]⟩)

end GuardCall

namespace ReplayGuard

/-- The guard after a call at some moment. -/
def call (g : ReplayGuard) : Nat × GuardCall → ReplayGuard
  | (now, .check nonce) => (g.check now nonce).2
  | (_, .clear) => g.clear

/-- The guard after some calls. -/
def run (g : ReplayGuard) (calls : List (Nat × GuardCall)) : ReplayGuard := calls.foldl call g

/-- One of the calls showed the nonce at the moment `t₀`, and it was new. The `later` ones
followed, and none of them cleared the guard. -/
def Accepted (g₀ : ReplayGuard) (calls : List (Nat × GuardCall)) (nonce : Bytes) (t₀ : Nat)
    (later : List (Nat × GuardCall)) : Prop :=
  ∃ earlier, calls = earlier ++ (t₀, .check nonce) :: later ∧
    ((g₀.run earlier).check t₀ nonce).1 = true ∧ ∀ e ∈ later, e.2 ≠ .clear

variable {g g₀ : ReplayGuard} {calls later : List (Nat × GuardCall)} {now t₀ since : Nat}
  {nonce : Bytes} {shown : Finset Bytes}

theorem run_append (g : ReplayGuard) (earlier later : List (Nat × GuardCall)) :
    g.run (earlier ++ later) = (g.run earlier).run later := List.foldl_append

theorem run_concat (g : ReplayGuard) (calls : List (Nat × GuardCall)) (e : Nat × GuardCall) :
    g.run (calls ++ [e]) = (g.run calls).call e := run_append g calls [e]

theorem call_settings (g : ReplayGuard) (e : Nat × GuardCall) :
    (g.call e).retention = g.retention ∧ (g.call e).seen.capacity = g.seen.capacity := by
  rcases e with ⟨now, nonce | _⟩
  · exact check_settings now nonce g
  · exact ⟨rfl, rfl⟩

theorem run_settings (g : ReplayGuard) (calls : List (Nat × GuardCall)) :
    (g.run calls).retention = g.retention ∧ (g.run calls).seen.capacity = g.seen.capacity := by
  induction calls generalizing g with
  | nil => exact ⟨rfl, rfl⟩
  | cons e calls ih =>
      rw [← (call_settings g e).1, ← (call_settings g e).2]
      exact ih (g.call e)

/-- There are never more records than the guard has room for. -/
theorem size_run_le (h : g.size ≤ g.seen.capacity) (calls : List (Nat × GuardCall)) :
    (g.run calls).size ≤ g.seen.capacity := by
  induction calls generalizing g with
  | nil => exact h
  | cons e calls ih =>
      -- A replay moves a record, a new nonce may drop one for its own, and a clearing drops all.
      have hstep : (g.call e).size ≤ g.seen.capacity := by
        rcases e with ⟨now, nonce | _⟩
        · by_cases hrecent : (g.seen.peek nonce).any (g.isRecent now) = true
          · rw [call, check_replay hrecent]
            exact (Lru.size_touch_le nonce g.seen).trans h
          · rw [call, check_new hrecent, ← Lru.touch_capacity nonce g.seen]
            exact Lru.length_put_le nonce now _
        · exact Nat.zero_le _
      rw [← (call_settings g e).2] at hstep ⊢
      exact ih hstep

/-- What was accepted stays so until the guard is cleared. -/
theorem Accepted.concat (h : g₀.Accepted calls nonce t₀ later) {e : Nat × GuardCall}
    (he : e.2 ≠ .clear) : g₀.Accepted (calls ++ [e]) nonce t₀ (later ++ [e]) := by
  rcases h with ⟨earlier, hcalls, hnew, hkept⟩
  refine ⟨earlier, by rw [hcalls, List.append_assoc, List.cons_append], hnew, ?_⟩
  rw [List.forall_mem_append, List.forall_mem_singleton]
  exact ⟨hkept, he⟩

/-- Each record of a guard that began empty is of a nonce that was accepted, at the moment that
the record says. -/
theorem accepted_of_mem (h₀ : g₀.seen.entries = [])
    (h : (nonce, t₀) ∈ (g₀.run calls).seen.entries) :
    ∃ later, g₀.Accepted calls nonce t₀ later := by
  -- A call adds a record only for a nonce that it accepts, and the others are older.
  induction calls using List.reverseRecOn with
  | nil =>
      rw [run, List.foldl_nil, h₀] at h
      exact absurd h List.not_mem_nil
  | append_singleton calls e ih =>
      rw [run_concat] at h
      rcases e with ⟨now, other | _⟩
      · have hold : (nonce, t₀) ∈ (g₀.run calls).seen.entries →
            ∃ later, g₀.Accepted (calls ++ [(now, .check other)]) nonce t₀ later := by
          intro hmem
          rcases ih hmem with ⟨later, haccepted⟩
          exact ⟨later ++ [(now, .check other)], haccepted.concat fun h => by cases h⟩
        by_cases hrecent :
            ((g₀.run calls).seen.peek other).any ((g₀.run calls).isRecent now) = true
        · rw [call, check_replay hrecent] at h
          exact hold (Lru.touch_subset other _ h)
        · rw [call, check_new hrecent] at h
          rcases Lru.mem_of_mem_put h with heq | ⟨-, hmem⟩
          · rcases heq with ⟨rfl, rfl⟩
            refine ⟨[], calls, rfl, ?_, fun e he => absurd he List.not_mem_nil⟩
            rw [check_new hrecent]
          · exact hold (Lru.touch_subset other _ hmem)
      · -- A guard that was just cleared has no records.
        exact absurd h List.not_mem_nil

/-- A nonce stays on record along a run, if the nonces that are shown fit in beside it. -/
theorem Remembers.run (h : g.Remembers nonce since shown) (hkept : ∀ e ∈ calls, e.2 ≠ .clear)
    (htime : ∀ e ∈ calls, since ≤ e.1)
    (hmem : ∀ e ∈ calls, ∀ other, e.2 = .check other → other ∈ shown)
    (hroom : (shown.erase nonce).card < g.seen.capacity) :
    (g.run calls).Remembers nonce since shown := by
  induction calls generalizing g with
  | nil => exact h
  | cons e calls ih =>
      rw [List.forall_mem_cons] at hkept htime hmem
      -- One step: the nonce that is shown is one of those that fit in.
      have hstep : (g.call e).Remembers nonce since shown := by
        rcases e with ⟨now, other | _⟩
        · exact h.check htime.1 (hmem.1 other rfl) hroom
        · exact absurd rfl hkept.1
      exact ih hstep hkept.2 htime.2 hmem.2 (by rw [(call_settings g e).2]; exact hroom)

/-- A nonce that was accepted a short time ago is not new, if not too many others were shown
since. -/
theorem Accepted.not_new (h : g₀.Accepted calls nonce t₀ later)
    (hsorted : (calls.map (·.1)).Pairwise (· ≤ ·)) (hrecent : (now : Int) - t₀ ≤ g₀.retention)
    (hroom : (GuardCall.othersShown nonce later).card < g₀.seen.capacity) :
    ((g₀.run calls).check now nonce).1 = false := by
  rcases h with ⟨earlier, rfl, hnew, hkept⟩
  have hsettings := run_settings g₀ (earlier ++ (t₀, .check nonce) :: later)
  have hbefore := run_settings g₀ earlier
  have hafter := check_settings t₀ nonce (g₀.run earlier)
  -- No time of a later call is before the acceptance.
  have htime : ∀ e ∈ later, t₀ ≤ e.1 := by
    rw [List.map_append, List.map_cons] at hsorted
    intro e he
    exact List.rel_of_pairwise_cons (List.pairwise_append.1 hsorted).2.1 (List.mem_map_of_mem he)
  have hremembers := remembers_of_new hnew (by omega) (GuardCall.allShown later)
  have hkeeps := hremembers.run hkept htime
    (fun e he other hother => GuardCall.mem_allShown he hother)
    (by rw [hafter.2, hbefore.2]; exact hroom)
  rw [run_append] at hsettings ⊢
  exact hkeeps.not_new (by rw [← hsettings.1] at hrecent; exact hrecent)

/-- A guard that is used at moments one after the other calls a nonce a replay only if it has
accepted it since it was last cleared, and not longer ago than the retention. It does so if in
addition fewer other nonces were shown to it since than it has room for. And it never holds
more nonces than that. -/
theorem detects_replays (capacity : Nat) (retention : Int) (calls : List (Nat × GuardCall))
    (now : Nat) (nonce : Bytes)
    (hsorted : (calls.map (·.1) ++ [now]).Pairwise (· ≤ ·)) :
    ((((create capacity retention).run calls).check now nonce).1 = false →
        ∃ t₀ later, (create capacity retention).Accepted calls nonce t₀ later ∧
          (now : Int) - t₀ ≤ retention) ∧
      (∀ t₀ later, (create capacity retention).Accepted calls nonce t₀ later →
        (now : Int) - t₀ ≤ retention → (GuardCall.othersShown nonce later).card < capacity →
        (((create capacity retention).run calls).check now nonce).1 = false) ∧
      ((create capacity retention).run calls).size ≤ capacity ∧
      (((create capacity retention).run calls).check now nonce).2.size ≤ capacity := by
  have hsize := size_run_le (g := create capacity retention) (Nat.zero_le capacity)
  refine ⟨fun hreplay => ?_, fun t₀ later haccepted hrecent hroom => ?_, hsize calls, ?_⟩
  · by_cases hrecent : (((create capacity retention).run calls).seen.peek nonce).any
        (((create capacity retention).run calls).isRecent now) = true
    · rcases any_isRecent_eq_true_iff.1 hrecent with ⟨t₀, hrecord, htime⟩
      rcases accepted_of_mem rfl (Lru.mem_of_peek hrecord) with ⟨later, haccepted⟩
      rw [(run_settings _ calls).1] at htime
      exact ⟨t₀, later, haccepted, htime⟩
    · rw [check_new hrecent] at hreplay
      cases hreplay
  · exact haccepted.not_new (List.pairwise_append.1 hsorted).1 hrecent hroom
  · have hnext := hsize (calls ++ [(now, .check nonce)])
    rw [run_concat] at hnext
    exact hnext

/-- A nonce that is shown again at the end of its retention, one other nonce after, to a guard
with room for two. -/
theorem detects_replays_beside_another :
    ([0, 4] ++ [10]).Pairwise (· ≤ ·) ∧
      (((create 2 10).run [(0, .check "n"), (4, .check "o")]).check 10 "n").1 = false :=
  ⟨by decide,
    (detects_replays 2 10 [(0, .check "n"), (4, .check "o")] 10 "n" (by decide)).2.1 0
      [(4, .check "o")] ⟨[], rfl, by decide, by decide⟩ (by decide) (by decide)⟩

/-- With room for one only, the other nonce takes the place of the first. -/
example : (((create 1 10).run [(0, .check "n"), (4, .check "o")]).check 10 "n").1 = true := by
  decide

end ReplayGuard

end SignedHttp
