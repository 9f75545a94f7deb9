import Mathlib.Algebra.Order.BigOperators.Group.Finset
import SignedHttp.Proofs.Timing.Signal

/-!
# How Far a Firing Goes

A connection that is used up is one call. So for each slot and each child by itself, how often it
was reached and how often it still waits add up to the same before and after a part of a firing
(`balance_follow`). A signal that was called has nothing waiting for it any more, and one that was
not called is as it was (`Settles`).

Of signals that were made by the operations, nothing waits at two places (`Made.pending_le_one`).
So what waits for a signal that is called is reached, once. Going down from the signal that is
fired, the firing gets to all signals that a way leads to, and calls each of them once
(`state_fire_of_leads`). Others it does not get to (`state_fire_of_not_leads`), and the slots that
it calls are those that wait on the way (`mem_fire_iff_exists`).

The depth is never what ends a firing: children come after their parents, so the number of signals
is enough for any way (`fire_eq_pass`).

## Main definitions

* `Signals.pending`: How often something waits.
* `Signals.pass`: A connection is followed as far as it leads.
* `Signals.reached`: How often something was reached.
* `Signals.Settles`: Signals that were called have nothing waiting, and the others are as before.

## Theorems

* `pending_eq_zero_iff`, `eq_of_mem_waiting`: Where something waits.
* `fire_eq_pass`: Firing as a recursion without a bound.
* `balance_follow`, `balance_fire`: What is reached had waited.
* `Made.pending_le_one`: Nothing waits at two places.
* `state_fire_of_leads`: A firing calls what it gets to once.
* `count_fire`, `mem_fire_iff_exists`: It calls the slots that wait there, each once.
* `callsOf_fire`: Calls of a slot are counted.
-/

namespace SignedHttp

namespace Signals

variable {w w' : Signals} {s t p : SignalId} {c : SlotId} {l k : Link} {depth : Nat}

/-! ### How often something waits -/

/-- How often something waits, for any of the signals. -/
def pending (l : Link) (w : Signals) : Nat :=
  ∑ s ∈ Finset.range w.states.length, (w.state s).waiting.count l

/-- Nothing waits for a signal that is not there. -/
theorem lt_of_mem_waiting (h : l ∈ (w.state s).waiting) : s < w.states.length := by
  by_contra hs
  rw [state_of_le (Nat.le_of_not_lt hs)] at h
  exact List.not_mem_nil h

theorem pending_eq_zero_iff : w.pending l = 0 ↔ ∀ s, l ∉ (w.state s).waiting := by
  rw [pending, Finset.sum_eq_zero_iff]
  constructor
  · intro h s hs
    have hzero := h s (Finset.mem_range.2 (lt_of_mem_waiting hs))
    exact List.count_eq_zero.1 hzero hs
  · exact fun h s _ => List.count_eq_zero.2 (h s)

theorem pending_pos (h : l ∈ (w.state s).waiting) : 0 < w.pending l :=
  Nat.pos_of_ne_zero fun hzero => pending_eq_zero_iff.1 hzero s h

/-- What waits no more than once waits at one place. -/
theorem eq_of_mem_waiting (h : w.pending l ≤ 1) (hs : l ∈ (w.state s).waiting)
    (ht : l ∈ (w.state t).waiting) : s = t := by
  by_contra hne
  have hmem : ∀ r, l ∈ (w.state r).waiting → r ∈ Finset.range w.states.length :=
    fun r hr => Finset.mem_range.2 (lt_of_mem_waiting hr)
  have htwo : (w.state s).waiting.count l + (w.state t).waiting.count l ≤ w.pending l :=
    Finset.add_le_sum (f := fun r => (w.state r).waiting.count l) (fun r _ => Nat.zero_le _)
      (hmem s hs) (hmem t ht) hne
  have hpos := List.count_pos_iff.2 hs
  have hpos' := List.count_pos_iff.2 ht
  omega

theorem pending_le (hlength : w'.states.length = w.states.length)
    (h : ∀ s, (w'.state s).waiting.count l ≤ (w.state s).waiting.count l) :
    w'.pending l ≤ w.pending l := by
  rw [pending, pending, hlength]
  exact Finset.sum_le_sum fun s _ => h s

/-- If the connections of one signal change, then that is the whole difference. -/
theorem pending_of_one (hs : s < w.states.length) (hlength : w'.states.length = w.states.length)
    (h : ∀ t, t ≠ s → (w'.state t).waiting = (w.state t).waiting) :
    w'.pending l + (w.state s).waiting.count l
      = w.pending l + (w'.state s).waiting.count l := by
  have hmem : s ∈ Finset.range w.states.length := Finset.mem_range.2 hs
  -- The other signals have the same part in both sums.
  have hrest : ∑ t ∈ (Finset.range w.states.length).erase s, (w'.state t).waiting.count l
      = ∑ t ∈ (Finset.range w.states.length).erase s, (w.state t).waiting.count l :=
    Finset.sum_congr rfl fun t ht => by rw [h t (Finset.ne_of_mem_erase ht)]
  have hbefore := Finset.sum_erase_add (Finset.range w.states.length)
    (fun t => (w.state t).waiting.count l) hmem
  have hafter := Finset.sum_erase_add (Finset.range w.states.length)
    (fun t => (w'.state t).waiting.count l) hmem
  rw [hrest] at hafter
  rw [pending, pending, hlength]
  omega

theorem pending_take (hs : s < w.states.length) :
    (w.take s).pending l + (w.state s).waiting.count l = w.pending l := by
  have hone : (w.take s).pending l + _ = _ + ((w.take s).state s).waiting.count l :=
    pending_of_one hs (List.length_modify ..) fun t ht => by rw [state_take_of_ne ht]
  rwa [state_take_self hs, List.count_nil, Nat.add_zero] at hone

/-- A connection waits once more after it was made. -/
theorem pending_await (hs : s < w.states.length) :
    (w.await s l).pending k = w.pending k + if l = k then 1 else 0 := by
  have hone : (w.await s l).pending k + _ = _ + ((w.await s l).state s).waiting.count k :=
    pending_of_one hs (List.length_modify ..) fun t ht => waiting_await_of_ne ht l w
  rw [waiting_await_self hs, List.count_append, List.count_singleton] at hone
  simp only [beq_iff_eq] at hone
  omega

theorem pending_create (l : Link) (w : Signals) : w.create.1.pending l = w.pending l := by
  rw [pending, length_create, Finset.sum_range_succ, state_create, state_of_le (Nat.le_refl _)]
  simp only [state_create, List.count_nil, Nat.add_zero, pending]

theorem pending_createChild {parent : SignalId} (h : parent < w.states.length) :
    (w.createChild parent).1.pending l
      = w.pending l + if .child w.states.length = l then 1 else 0 := by
  rw [createChild, pending_await (lt_length_create h), pending_create]
  rfl

theorem pending_connect (h : s < w.states.length) :
    (w.connect s).1.pending l = w.pending l + if .slot w.slotCalls.length = l then 1 else 0 :=
  pending_await (w := { w with slotCalls := w.slotCalls ++ [0] }) h

/-! ### The depth is enough -/

/-- A child is there, and there are not too many signals after it. -/
def Fits (depth count : Nat) : Link → Prop
  | .slot _ => True
  | .child s => s < count ∧ count ≤ s + depth

/-- Children come after their parent, so there is less after them. -/
theorem Sound.fits_of_mem (hw : w.Sound) (hdepth : w.states.length ≤ s + (depth + 1))
    (hk : k ∈ (w.state s).waiting) : Fits depth w.states.length k := by
  cases k with
  | slot c => trivial
  | child t =>
      rcases hw.child s t hk with ⟨hlt, ht⟩
      have hnext := Nat.add_le_add_right (Nat.succ_le_of_lt hlt) depth
      exact ⟨ht, by omega⟩

/-- Connections may be followed in another way that does the same for each of them. -/
theorem foldl_follow_congr {g : Signals × List SlotId → Link → Signals × List SlotId}
    {P : Nat → Link → Prop}
    (h : ∀ x k, x.1.Sound → P x.1.states.length k → follow depth x k = g x k)
    {links : List Link} {x : Signals × List SlotId} (hsound : x.1.Sound)
    (hP : ∀ k ∈ links, P x.1.states.length k) :
    links.foldl (follow depth) x = links.foldl g x := by
  induction links generalizing x with
  | nil => rfl
  | cons k links ih =>
      -- What was followed leaves the number of signals as it was, so the rest still fits.
      have hlater : Later x.1 (follow depth x k).1 := later_foldl [k] x
      rw [List.foldl_cons, List.foldl_cons, ← h x k hsound (hP k (List.mem_cons_self ..))]
      refine ih (hsound.of_later hlater) ?_
      rw [hlater.length]
      exact fun k' hk' => hP k' (List.mem_cons_of_mem _ hk')

/-- Of two depths that are enough it does not matter which is taken. -/
theorem follow_eq_follow {other : Nat} {x : Signals × List SlotId} (hsound : x.1.Sound)
    (hfits : Fits depth x.1.states.length k) (hother : Fits other x.1.states.length k) :
    follow depth x k = follow other x k := by
  -- By induction on one of the depths; the other one is enough as well, so it goes down too.
  induction depth generalizing other x k with
  | zero =>
      cases k with
      | slot c => rfl
      | child s => exact absurd hfits.2 (Nat.not_le_of_lt hfits.1)
  | succ depth ih =>
      cases k with
      | slot c => rfl
      | child s =>
          cases other with
          | zero => exact absurd hother.2 (Nat.not_le_of_lt hother.1)
          | succ other =>
              have hlater := later_take s x.1
              have hsame : x.1.fireTo (depth + 1) s = x.1.fireTo (other + 1) s := by
                rw [fireTo_succ, fireTo_succ]
                refine foldl_follow_congr (g := follow other)
                  (P := fun count k => Fits depth count k ∧ Fits other count k)
                  (fun x k hx hk => ih hx hk.1 hk.2) (hsound.of_later hlater) ?_
                rw [hlater.length]
                exact fun k hk => ⟨hsound.fits_of_mem hfits.2 hk, hsound.fits_of_mem hother.2 hk⟩
              simp only [follow, hsame]

/-- A connection is followed as far as it leads. -/
def pass (x : Signals × List SlotId) : Link → Signals × List SlotId
  | .slot c => (x.1.count c, x.2 ++ [c])
  | .child s => ((x.1.fire s).1, x.2 ++ (x.1.fire s).2)

/-- A depth that is enough does not end anything. -/
theorem follow_eq_pass {x : Signals × List SlotId} (hsound : x.1.Sound)
    (hfits : Fits depth x.1.states.length k) : follow depth x k = pass x k := by
  cases k with
  | slot c => rfl
  | child s => exact follow_eq_follow hsound hfits ⟨hfits.1, Nat.le_add_left ..⟩

/-- Firing a signal takes its connections and fires its children in turn, with no bound. -/
theorem fire_eq_pass (hw : w.Sound) (hs : s < w.states.length) :
    w.fire s = (w.state s).waiting.foldl pass (w.take s, []) := by
  have hlater := later_take s w
  rcases Nat.exists_eq_succ_of_ne_zero (Nat.ne_of_gt (Nat.zero_lt_of_lt hs)) with ⟨depth, hdepth⟩
  have henough : w.states.length ≤ s + (depth + 1) :=
    Nat.le_add_left_of_le (Nat.le_of_eq hdepth)
  rw [fire, hdepth, Nat.succ_eq_add_one, fireTo_succ]
  refine foldl_follow_congr (fun x k => follow_eq_pass) (hw.of_later hlater) ?_
  rw [hlater.length]
  exact fun k hk => hw.fits_of_mem henough hk

/-! ### What is reached had waited -/

/-- How often something was reached: a slot was called, or a child has counted its calls. -/
def reached (x : Signals × List SlotId) : Link → Nat
  | .slot c => x.2.count c
  | .child t => (x.1.state t).calls

theorem balance_count (x : Signals × List SlotId) (c : SlotId) :
    reached (x.1.count c, x.2 ++ [c]) l + (x.1.count c).pending l
      = reached x l + x.1.pending l + if .slot c = l then 1 else 0 := by
  have hpending : (x.1.count c).pending l = x.1.pending l := rfl
  rw [hpending]
  cases l with
  | slot b =>
      simp only [reached, List.count_append, List.count_singleton, beq_iff_eq, Link.slot.injEq]
      omega
  | child t => rfl

/-- The same of several connections, one after the other. -/
theorem balance_foldl
    (h : ∀ x k, x.1.Sound → Fits depth x.1.states.length k →
      reached (follow depth x k) l + (follow depth x k).1.pending l
        = reached x l + x.1.pending l + if k = l then 1 else 0)
    {links : List Link} {x : Signals × List SlotId} (hsound : x.1.Sound)
    (hfits : ∀ k ∈ links, Fits depth x.1.states.length k) :
    reached (links.foldl (follow depth) x) l + (links.foldl (follow depth) x).1.pending l
      = reached x l + x.1.pending l + links.count l := by
  -- By induction on the connections. Each adds itself to what is reached.
  induction links generalizing x with
  | nil => rfl
  | cons k links ih =>
      have hlater : Later x.1 (follow depth x k).1 := later_foldl [k] x
      have hrest : ∀ k' ∈ links, Fits depth (follow depth x k).1.states.length k' := by
        rw [hlater.length]
        exact fun k' hk' => hfits k' (List.mem_cons_of_mem _ hk')
      rw [List.foldl_cons, ih (hsound.of_later hlater) hrest,
        h x k hsound (hfits k (List.mem_cons_self ..)), List.count_cons]
      simp only [beq_iff_eq]
      omega

/-- Following a connection reaches what it goes to. All else that is reached had waited. -/
theorem balance_follow (depth : Nat) (x : Signals × List SlotId) (k : Link) (hsound : x.1.Sound)
    (hfits : Fits depth x.1.states.length k) :
    reached (follow depth x k) l + (follow depth x k).1.pending l
      = reached x l + x.1.pending l + if k = l then 1 else 0 := by
  induction depth generalizing x k with
  | zero =>
      cases k with
      | slot c => exact balance_count x c
      | child s => exact absurd hfits.2 (Nat.not_le_of_lt hfits.1)
  | succ depth ih =>
      cases k with
      | slot c => exact balance_count x c
      | child s =>
          rcases hfits with ⟨hs, hdepth⟩
          have hlater := later_take s x.1
          have hlinks : ∀ k ∈ (x.1.state s).waiting, Fits depth (x.1.take s).states.length k := by
            rw [hlater.length]
            exact fun k hk => hsound.fits_of_mem hdepth hk
          have hfold := balance_foldl (l := l) ih (x := (x.1.take s, []))
            (hsound.of_later hlater) hlinks
          -- The signal gives up its connections, and these are followed at once.
          have htake := pending_take (l := l) hs
          rw [← fireTo_succ] at hfold
          cases l with
          | slot c =>
              simp only [follow, reached, List.count_append, List.count_nil] at hfold ⊢
              simp only [reduceCtorEq, if_false]
              omega
          | child t =>
              simp only [follow, reached] at hfold ⊢
              -- The signal itself has one more call by being taken, and any other one is not
              -- touched.
              by_cases ht : s = t
              · subst ht
                rw [state_take_self hs] at hfold
                rw [if_pos rfl]
                dsimp only at hfold
                omega
              · rw [state_take_of_ne (Ne.symm ht)] at hfold
                rw [if_neg fun h => ht (Link.child.inj h)]
                omega

/-- What waits less after a firing was reached instead, and the signal that is fired once more. -/
theorem balance_fire (hw : w.Sound) (hs : s < w.states.length) (l : Link) :
    reached (w.fire s) l + (w.fire s).1.pending l
      = reached (w, []) l + w.pending l + if .child s = l then 1 else 0 :=
  balance_follow w.states.length (w, []) (.child s) hw ⟨hs, Nat.le_add_left ..⟩

/-! ### Signals that were called -/

/-- Every signal is as it was, or it was called and has nothing waiting for it any more. -/
def Settles (w w' : Signals) : Prop :=
  ∀ t, w'.state t = w.state t ∨
    (w.state t).calls < (w'.state t).calls ∧ (w'.state t).waiting = []

theorem Settles.trans {w'' : Signals} (h : Settles w w') (h' : Settles w' w'') :
    Settles w w'' := by
  intro t
  rcases h' t with hsame' | ⟨hcalls', hnone'⟩
  · rw [hsame']
    exact h t
  · refine Or.inr ⟨Nat.lt_of_le_of_lt ?_ hcalls', hnone'⟩
    rcases h t with hsame | ⟨hcalls, -⟩
    · rw [hsame]
    · exact Nat.le_of_lt hcalls

theorem settles_take (s : SignalId) (w : Signals) : Settles w (w.take s) := by
  intro t
  by_cases hs : s < w.states.length
  · by_cases ht : t = s
    · rw [ht, state_take_self hs]
      exact Or.inr ⟨Nat.lt_succ_self _, rfl⟩
    · exact Or.inl (state_take_of_ne ht w)
  · rw [take_of_le (Nat.le_of_not_lt hs)]
    exact Or.inl rfl

theorem settles_parts : HoldsOfParts Settles :=
  ⟨fun _ _ => Or.inl rfl, Settles.trans, settles_take, fun _ _ _ => Or.inl rfl⟩

/-- A signal that was called gave up what waited for it, and any other is as it was. -/
theorem settles_fire (s : SignalId) (w : Signals) : Settles w (w.fire s).1 :=
  settles_parts.fireTo w.states.length s w

theorem Settles.pending_le (h : Settles w w') (hlength : w'.states.length = w.states.length) :
    w'.pending l ≤ w.pending l := by
  refine Signals.pending_le hlength fun s => ?_
  rcases h s with hsame | ⟨-, hnone⟩
  · rw [hsame]
  · rw [hnone, List.count_nil]
    exact Nat.zero_le _

theorem length_fire (s : SignalId) (w : Signals) :
    (w.fire s).1.states.length = w.states.length :=
  (later_fireTo w.states.length s w).length

/-- What did not wait before waits once after it is connected. -/
theorem add_ite_le_one (hone : w.pending k ≤ 1) (hnew : w.pending l = 0) :
    w.pending k + (if l = k then 1 else 0) ≤ 1 := by
  by_cases hk : l = k
  · rw [← hk, hnew, if_pos rfl]
  · rwa [if_neg hk]

/-- Nothing waits at two places. -/
theorem Made.pending_le_one (h : w.Made) (l : Link) : w.pending l ≤ 1 := by
  -- A connection is made with a new child or a new slot, and all else only takes some away.
  induction h with
  | none => exact Nat.zero_le 1
  | create _ ih => rwa [pending_create]
  | @createChild w hw parent hparent ih =>
      rw [pending_createChild hparent]
      refine add_ite_le_one ih (pending_eq_zero_iff.2 fun s hs => ?_)
      exact Nat.lt_irrefl _ (hw.sound.child s _ hs).2
  | @connect w hw s hs ih =>
      rw [pending_connect hs]
      refine add_ite_le_one ih (pending_eq_zero_iff.2 fun t ht => ?_)
      exact Nat.lt_irrefl _ (hw.sound.slot t _ ht)
  | @disconnect w c _ ih =>
      refine (pending_le (List.length_map ..) fun s => ?_).trans ih
      exact (waiting_unlink_sublist _ w s).count_le l
  | @drop w _ s ih =>
      exact (pending_le (length_drop s w) fun t =>
        (waiting_drop_sublist s w t).count_le l).trans ih
  | @fire w _ s ih => exact ((settles_fire s w).pending_le (length_fire s w)).trans ih

/-! ### What a firing gets to -/

/-- What waited for a signal that is called waits nowhere afterwards. -/
theorem Made.pending_fire_eq_zero (hw : w.Made) (hmem : l ∈ (w.state p).waiting)
    (hcalled : (w.state p).calls < ((w.fire s).1.state p).calls) :
    (w.fire s).1.pending l = 0 := by
  refine pending_eq_zero_iff.2 fun q hq => ?_
  have hbefore := (later_fireTo w.states.length s w).waiting q hq
  rw [eq_of_mem_waiting (hw.pending_le_one l) hbefore hmem] at hq
  rcases settles_fire s w p with hsame | ⟨-, hnone⟩
  · rw [hsame] at hcalled
    exact Nat.lt_irrefl _ hcalled
  · rw [hnone] at hq
    exact List.not_mem_nil hq

/-- The signal that is fired is called. -/
theorem Made.calls_lt_fire_self (hw : w.Made) (hs : s < w.states.length) :
    (w.state s).calls < ((w.fire s).1.state s).calls := by
  have hbalance := balance_fire hw.sound hs (.child s)
  have hpending := (settles_fire s w).pending_le (l := .child s) (length_fire s w)
  rw [if_pos rfl] at hbalance
  simp only [reached] at hbalance
  omega

/-- Calls are passed on along all ways. -/
theorem Made.calls_lt_of_leads (hw : w.Made) (hs : s < w.states.length) (hleads : w.Leads p t)
    (hcalled : (w.state p).calls < ((w.fire s).1.state p).calls) :
    (w.state t).calls < ((w.fire s).1.state t).calls := by
  induction hleads with
  | refl p => exact hcalled
  | @child p u t hmem _ ih =>
      -- The child had waited for its parent and does not wait any more, so it was reached.
      refine ih ?_
      have hbalance := balance_fire hw.sound hs (.child u)
      have hbefore := pending_pos hmem
      have hafter := hw.pending_fire_eq_zero hmem hcalled
      simp only [reached] at hbalance
      omega

/-- Each signal that a way leads to is called once, and gives up what waits for it. -/
theorem Made.state_fire_of_leads (hw : w.Made) (hs : s < w.states.length)
    (hleads : w.Leads s t) : (w.fire s).1.state t = ⟨(w.state t).calls + 1, []⟩ := by
  -- The signal itself is called once, because no way leads back to it.
  by_cases ht : t = s
  · subst ht
    refine state_fire_self hs fun u hu hback => ?_
    exact Nat.not_le_of_lt (hw.sound.child t u hu).1 (hw.sound.le_of_leads hback)
  · have hcalled := hw.calls_lt_of_leads hs hleads (hw.calls_lt_fire_self hs)
    have hbalance := balance_fire hw.sound hs (.child t)
    have hone := hw.pending_le_one (.child t)
    have hother : Link.child s ≠ .child t := fun h => ht (Link.child.inj h).symm
    rw [if_neg hother] at hbalance
    simp only [reached] at hbalance
    have hcalls : ((w.fire s).1.state t).calls = (w.state t).calls + 1 := by omega
    rcases settles_fire s w t with hsame | ⟨-, hnone⟩
    · rw [hsame] at hcalled
      exact absurd hcalled (Nat.lt_irrefl _)
    · rw [← hcalls, ← hnone]

/-- A slot that is called had waited, and one that is not called still waits. -/
theorem Made.count_fire (hw : w.Made) (hs : s < w.states.length) (c : SlotId) :
    (w.fire s).2.count c + (w.fire s).1.pending (.slot c) = w.pending (.slot c) := by
  have hbalance := balance_fire hw.sound hs (.slot c)
  simpa only [reached, List.count_nil, reduceCtorEq, if_false, Nat.zero_add, Nat.add_zero]
    using hbalance

/-- The slots that are called are those that wait for the signals that a way leads to. -/
theorem Made.mem_fire_iff_exists (hw : w.Made) (hs : s < w.states.length) :
    c ∈ (w.fire s).2 ↔ ∃ t, w.Leads s t ∧ .slot c ∈ (w.state t).waiting := by
  have hcount := hw.count_fire hs c
  constructor
  · intro hc
    rcases waits_of_mem_fireTo hc with ⟨t, ht⟩
    refine ⟨t, ?_, ht⟩
    by_contra hnot
    have hstill : .slot c ∈ ((w.fire s).1.state t).waiting := by
      rwa [state_fire_of_not_leads hnot]
    -- It was called and still waits, so it had waited twice.
    have hpos := List.count_pos_iff.2 hc
    have hpending := pending_pos hstill
    have hone := hw.pending_le_one (.slot c)
    omega
  · rintro ⟨t, hleads, ht⟩
    have hcalled := hw.calls_lt_of_leads hs hleads (hw.calls_lt_fire_self hs)
    have hbefore := pending_pos ht
    have hafter := hw.pending_fire_eq_zero ht hcalled
    exact List.count_pos_iff.1 (by omega)


/-! ### Calls of slots are counted -/

theorem callsOf_of_le (h : w.slotCalls.length ≤ c) : w.callsOf c = 0 := by
  rw [callsOf, List.getD_eq_getElem?_getD, List.getElem?_eq_none h, Option.getD_none]

theorem callsOf_count (hc : c < w.slotCalls.length) (b : SlotId) :
    (w.count b).callsOf c = w.callsOf c + if b = c then 1 else 0 := by
  by_cases hb : b = c
  · simp [callsOf, count, List.getD_eq_getElem?_getD, hb, hc]
  · simp [callsOf, count, List.getD_eq_getElem?_getD, hb]

theorem callsOf_foldl
    (h : ∀ s (w : Signals), c < w.slotCalls.length →
      (w.fireTo depth s).1.callsOf c = w.callsOf c + (w.fireTo depth s).2.count c)
    (links : List Link) {x : Signals × List SlotId} (hc : c < x.1.slotCalls.length) :
    (links.foldl (follow depth) x).1.callsOf c + x.2.count c
      = x.1.callsOf c + (links.foldl (follow depth) x).2.count c := by
  induction links generalizing x with
  | nil => rfl
  | cons l links ih =>
      have hlater : Later x.1 (follow depth x l).1 := later_foldl [l] x
      have hrest := ih (x := follow depth x l) (hlater.slots.symm ▸ hc)
      rw [List.foldl_cons]
      -- A slot adds one call, and a child all that it passes on.
      cases l with
      | slot b =>
          have hcount := callsOf_count hc b
          simp only [follow, List.count_append, List.count_singleton, beq_iff_eq] at hrest ⊢
          omega
      | child s =>
          have hfire := h s x.1 hc
          simp only [follow, List.count_append] at hrest ⊢
          omega

/-- Every slot counts as often as it was called. -/
theorem callsOf_fireTo (depth : Nat) (s : SignalId) (hc : c < w.slotCalls.length) :
    (w.fireTo depth s).1.callsOf c = w.callsOf c + (w.fireTo depth s).2.count c := by
  induction depth generalizing s w with
  | zero => rfl
  | succ depth ih =>
      have hfold := callsOf_foldl (fun s _ => ih s) (w.state s).waiting
        (x := (w.take s, [])) hc
      rwa [← fireTo_succ, List.count_nil, Nat.add_zero] at hfold

/-- Slots that are not there are not called either. -/
theorem Made.callsOf_fire (hw : w.Made) (s : SignalId) (c : SlotId) :
    (w.fire s).1.callsOf c = w.callsOf c + (w.fire s).2.count c := by
  by_cases hc : c < w.slotCalls.length
  · exact callsOf_fireTo w.states.length s hc
  · have hle := Nat.le_of_not_lt hc
    have hslots := (later_fireTo w.states.length s w).slots
    -- A slot that is not there waits nowhere, so it is not called.
    have hnot : c ∉ (w.fire s).2 := by
      intro hmem
      rcases waits_of_mem_fireTo hmem with ⟨t, ht⟩
      exact hc (hw.sound.slot t c ht)
    rw [callsOf_of_le (hslots ▸ hle), callsOf_of_le hle, List.count_eq_zero.2 hnot]

end Signals

end SignedHttp
