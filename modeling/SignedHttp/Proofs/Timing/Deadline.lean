import SignedHttp.Proofs.Timing.Signal
import SignedHttp.Proofs.Timing.Timeout

/-!
# The Parts of a Timeout

What becomes of an operation under a timeout is said by `supervise`, up to the moment it returns.
Here is how it comes about. A call has a signal of its own, which is the one the operation gets.
A slot waits for the signal of the caller, and the timer has the same own signal and two flags.
Both can go off at any time, also after the call has returned: the timer may be on its way, and
the caller may abort whenever he likes. They must then leave the own signal alone. What happens
after the return is not seen by `supervise`, so the whole life of a call is gone through
(`TimedCall.life`).

One step is understood once for the time before the return (`Listens.happen`) and once for the
time after it (`Closed.happen`). Before, either the slot still waits or the own signal was fired,
so that the parts change as `Watch.step` says; what the caller is given is that of `supervise`
(`life_returned`). After, the slot is gone and the flag is set, and the own signal is not fired.

The signal of the caller may have other connections, and belong to others in turn. All that
matters is that nothing else leads to the own signal, as it was created by the call.

## Main definitions

* `Deadline`: What a call shares with its timer and with the slot.
* `Deadline.happen`: An event happens to it.
* `TimedCall`, `TimedCall.step`: A call, and what an event does to it.
* `TimedCall.life`: A call, from its beginning to the last event.
* `Ending.report`: The value and the error that the caller is given.

## Theorems

* `Wired.cancel_spec`, `Wired.abort_spec`, `Wired.expire_spec`: All that the parts do.
* `Listens.happen`, `Closed.happen`: An event before the return, and one after it.
* `foldl_of_returned`: After the return the own signal is not fired any more.
* `life_returned`: What the caller is given.
* `reports_first`: What comes first is reported, and the own signal is fired once for it.
-/

namespace SignedHttp

/-- What a call under a timeout shares with its timer, and with the slot that hears the caller. -/
structure Deadline where
  signals : Signals
  /-- The signal of the caller. -/
  outer : SignalId
  /-- The signal that the operation gets. -/
  own : SignalId
  /-- What waits for the signal of the caller. -/
  slot : SlotId
  finished : Bool := false
  expired : Bool := false

namespace Deadline

/-- How often the own signal was fired. -/
def fired (d : Deadline) : Nat := (d.signals.state d.own).calls

/-- Was the signal of the caller fired? -/
def aborted (d : Deadline) : Bool := decide (0 < (d.signals.state d.outer).calls)

/-- What has happened so far. -/
def watch (d : Deadline) : Watch := ⟨d.fired, d.expired, d.aborted⟩

/-- The same call, with the signals as they are now. -/
def withSignals (w : Signals) (d : Deadline) : Deadline := { d with signals := w }

/-- A call begins. -/
def start (outer : SignalId) (w : Signals) : Deadline :=
  let (w, own) := w.create
  let (signals, slot) := w.connect outer
  { signals, outer, own, slot }

/-- The own signal is fired, unless it was fired before. -/
def cancel (d : Deadline) : Deadline :=
  if d.fired = 0 then d.withSignals (d.signals.fire d.own).1 else d

/-- The signal of the caller is fired, and the slot passes it on if it is called. -/
def abort (d : Deadline) : Deadline :=
  let next := d.withSignals (d.signals.fire d.outer).1
  if d.slot ∈ (d.signals.fire d.outer).2 then next.cancel else next

/-- The timer goes off. -/
def expire (d : Deadline) : Deadline :=
  if d.finished then d
  else if d.fired = 0 then { d.cancel with expired := true }
  else d

/-- An event happens. The completion of the operation is noticed by the call, and not here. -/
def happen (e : Event) (d : Deadline) : Deadline :=
  match e with
  | .completion => d
  | .abort => d.abort
  | .expiry => d.expire

/-- The call is over: the timer is told so, and the slot goes away. -/
def finish (d : Deadline) : Deadline :=
  { d.withSignals (d.signals.disconnect d.slot) with finished := true }

end Deadline

/-- A call of an operation under a timeout. -/
structure TimedCall (α : Type) where
  deadline : Deadline
  /-- What the caller was given, and what had happened until then. -/
  returned : Option (Ending α) := none

namespace TimedCall

variable {α : Type}

/-- The operation is over, and the caller is given what came of it. -/
def giveBack (elapsed : Nat) (value : α) (c : TimedCall α) : TimedCall α :=
  { deadline := c.deadline.finish, returned := some ⟨elapsed, value, c.deadline.watch⟩ }

/-- Something happens, before the return or after it. -/
def step (op : Operation α) (c : TimedCall α) (x : Nat × Event) : TimedCall α :=
  let next := { c with deadline := c.deadline.happen x.2 }
  if c.returned.isSome then next
  else if x.2 = .completion then c.giveBack x.1 op.result
  else if op.stops ∧ 0 < next.deadline.fired then next.giveBack x.1 op.stopped
  else next

/-- A call after some events. -/
def after (op : Operation α) (outer : SignalId) (w : Signals) (events : List (Nat × Event)) :
    TimedCall α :=
  events.foldl (step op) { deadline := .start outer w }

/-- A call and all that happens while it runs and afterwards. -/
def life (timeout : Nat) (abort : Abort) (op : Operation α) (outer : SignalId) (w : Signals) :
    TimedCall α := after op outer w (agenda op.delay timeout abort)

end TimedCall

/-- What the caller is given by an operation that yields a value and perhaps an error: the cause
takes the place of the error. -/
def Ending.report {β ε : Type} (ofCause : SystemError → ε) (e : Ending (β × Option ε)) :
    β × Option ε :=
  (e.value.1, (e.cause?.map ofCause).or e.value.2)

namespace Deadline

variable {d : Deadline} {w : Signals} {e : Event}

/-- The parts are connected as the call connected them: nothing leads to the own signal, and the
slot waits for the signal of the caller and for no other one. -/
structure Wired (d : Deadline) : Prop where
  outer_lt : d.outer < d.own
  own_lt : d.own < d.signals.states.length
  child : ∀ s t, .child t ∈ (d.signals.state s).waiting → s < t ∧ t ≠ d.own
  slot : ∀ s, .slot d.slot ∈ (d.signals.state s).waiting → s = d.outer

/-- Before the return the slot waits, unless the operation was asked to stop anyway. -/
structure Listens (d : Deadline) : Prop where
  wired : d.Wired
  unfinished : d.finished = false
  heard : .slot d.slot ∈ (d.signals.state d.outer).waiting ∨ 0 < d.fired

/-- After the return the timer knows it, and the slot is gone. -/
structure Closed (d : Deadline) : Prop where
  wired : d.Wired
  finished : d.finished = true
  gone : .slot d.slot ∉ (d.signals.state d.outer).waiting

/-! ### The signals of a call -/

theorem Wired.of_later (h : d.Wired) (hlater : d.signals.Later w) :
    (d.withSignals w).Wired where
  outer_lt := h.outer_lt
  own_lt := hlater.length ▸ h.own_lt
  child s t ht := h.child s t (hlater.waiting s ht)
  slot s hs := h.slot s (hlater.waiting s hs)

/-- No way leads to the own signal but from itself. -/
theorem Wired.eq_own_of_leads (h : d.Wired) {s t : SignalId} (hleads : d.signals.Leads s t)
    (ht : t = d.own) : s = d.own := by
  induction hleads with
  | refl s => exact ht
  | child hmem _ ih => exact absurd (ih ht) (h.child _ _ hmem).2

theorem Wired.le_of_leads (h : d.Wired) {s t : SignalId} (hleads : d.signals.Leads s t) :
    s ≤ t :=
  hleads.le fun s t ht => (h.child s t ht).1

/-- Firing the signal of the caller does not get to the own one. -/
theorem Wired.state_own_fire_outer (h : d.Wired) :
    (d.signals.fire d.outer).1.state d.own = d.signals.state d.own := by
  refine Signals.state_fire_of_not_leads fun hleads => ?_
  exact Nat.ne_of_lt h.outer_lt (h.eq_own_of_leads hleads rfl)

/-- Firing the own signal does not get to that of the caller. -/
theorem Wired.state_outer_fire_own (h : d.Wired) :
    (d.signals.fire d.own).1.state d.outer = d.signals.state d.outer := by
  refine Signals.state_fire_of_not_leads fun hleads => ?_
  exact absurd (h.le_of_leads hleads) (Nat.not_le_of_lt h.outer_lt)

theorem Wired.calls_own_fire_own (h : d.Wired) :
    ((d.signals.fire d.own).1.state d.own).calls = d.fired + 1 := by
  have hnot : ∀ t, .child t ∈ (d.signals.state d.own).waiting → ¬d.signals.Leads t d.own :=
    fun t ht hleads => (h.child _ _ ht).2 (h.eq_own_of_leads hleads rfl)
  rw [Signals.state_fire_self h.own_lt hnot, fired]

/-- Asking the operation to stop fires its signal once, and nothing else changes. -/
theorem Wired.cancel_spec (h : d.Wired) : ∃ w, d.cancel = d.withSignals w ∧
    d.signals.Later w ∧ w.state d.outer = d.signals.state d.outer ∧
    (w.state d.own).calls = if d.fired = 0 then 1 else d.fired := by
  unfold cancel
  by_cases hzero : d.fired = 0
  · rw [if_pos hzero, if_pos hzero]
    refine ⟨_, rfl, Signals.later_fireTo _ _ _, h.state_outer_fire_own, ?_⟩
    rw [h.calls_own_fire_own, hzero]
  · rw [if_neg hzero, if_neg hzero]
    exact ⟨d.signals, rfl, Signals.Later.refl _, rfl, rfl⟩

/-- The slot is called if it waits. -/
theorem Wired.mem_called_iff (h : d.Wired) :
    d.slot ∈ (d.signals.fire d.outer).2 ↔ .slot d.slot ∈ (d.signals.state d.outer).waiting :=
  Signals.mem_fire_iff (Nat.lt_trans h.outer_lt h.own_lt) fun t hne hmem => hne (h.slot t hmem)

/-- All that an abort does: the slot is called if it waits, and asks the operation to stop unless
it was asked before. -/
theorem Wired.abort_spec (h : d.Wired) : ∃ w, d.abort = d.withSignals w ∧
    d.signals.Later w ∧ 0 < (w.state d.outer).calls ∧ (w.state d.outer).waiting = [] ∧
    (w.state d.own).calls
      = if .slot d.slot ∈ (d.signals.state d.outer).waiting ∧ d.fired = 0 then 1
        else d.fired := by
  have hlater : d.signals.Later (d.signals.fire d.outer).1 := Signals.later_fireTo _ _ _
  rcases Signals.fire_self (Nat.lt_trans h.outer_lt h.own_lt) with ⟨hwaiting, hcalls⟩
  unfold abort
  by_cases hslot : .slot d.slot ∈ (d.signals.state d.outer).waiting
  · -- The slot is called, and finds the own signal as it was.
    rcases (h.of_later hlater).cancel_spec with ⟨w, heq, hlater₁, houter, hown⟩
    have hfired : (d.withSignals (d.signals.fire d.outer).1).fired = d.fired :=
      congrArg SignalState.calls h.state_own_fire_outer
    change w.state d.outer = (d.signals.fire d.outer).1.state d.outer at houter
    rw [hfired] at hown
    rw [← houter] at hwaiting hcalls
    rw [if_pos (h.mem_called_iff.2 hslot), heq]
    refine ⟨w, rfl, hlater.trans hlater₁, hcalls, hwaiting, ?_⟩
    simp only [hslot, true_and]
    exact hown
  · rw [if_neg fun hcalled => hslot (h.mem_called_iff.1 hcalled)]
    refine ⟨_, rfl, hlater, hcalls, hwaiting, ?_⟩
    rw [h.state_own_fire_outer, if_neg fun hboth => hslot hboth.1]
    rfl

/-- All that the timer does: before the return it asks the operation to stop, unless this was asked
before. -/
theorem Wired.expire_spec (h : d.Wired) : ∃ w b,
    d.expire = { d.withSignals w with expired := b } ∧ d.signals.Later w ∧
    w.state d.outer = d.signals.state d.outer ∧
    (w.state d.own).calls = (if d.finished = false ∧ d.fired = 0 then 1 else d.fired) ∧
    b = if d.finished = false ∧ d.fired = 0 then true else d.expired := by
  by_cases hasks : d.finished = false ∧ d.fired = 0
  · have hcancels : d.expire = { d.cancel with expired := true } := by
      rw [expire, hasks.1, if_neg Bool.false_ne_true, if_pos hasks.2]
    rcases h.cancel_spec with ⟨w, heq, hlater, houter, hown⟩
    rw [if_pos hasks.2] at hown
    rw [hcancels, heq, if_pos hasks]
    exact ⟨w, true, rfl, hlater, houter, hown, (if_pos hasks).symm⟩
  · -- The timer is told that the call is over, or something else was faster.
    have hsame : d.expire = d := by
      unfold expire
      by_cases hfinished : d.finished = true
      · rw [if_pos hfinished]
      · have hasked : d.fired ≠ 0 :=
          fun hzero => hasks ⟨Bool.eq_false_iff.2 hfinished, hzero⟩
        rw [if_neg hfinished, if_neg hasked]
    rw [hsame, if_neg hasks]
    exact ⟨d.signals, d.expired, rfl, Signals.Later.refl _, rfl, rfl, (if_neg hasks).symm⟩

/-! ### One event -/

/-- Before the return the parts change as is said of the watch. -/
theorem Listens.happen (h : d.Listens) (e : Event) :
    (d.happen e).Listens ∧ (d.happen e).watch = d.watch.step e := by
  cases e with
  | completion => exact ⟨h, rfl⟩
  | abort =>
      rcases h.wired.abort_spec with ⟨w, heq, hlater, hcalls, -, hown⟩
      -- Either the slot asks the operation to stop, or it was asked before.
      have hfired : (w.state d.own).calls = if d.fired = 0 then 1 else d.fired := by
        rw [hown]
        rcases h.heard with hslot | hpos
        · simp only [hslot, true_and]
        · rw [if_neg fun hboth => Nat.ne_of_gt hpos hboth.2, if_neg (Nat.ne_of_gt hpos)]
      have hpos : 0 < (w.state d.own).calls := by
        rw [hfired]
        split <;> omega
      have hwatch : (d.withSignals w).watch
          = ⟨if d.fired = 0 then 1 else d.fired, d.expired, true⟩ := by
        rw [← hfired, ← decide_eq_true hcalls]
        rfl
      rw [Deadline.happen, heq, hwatch]
      exact ⟨⟨h.wired.of_later hlater, h.unfinished, Or.inr hpos⟩, rfl⟩
  | expiry =>
      rcases h.wired.expire_spec with ⟨w, b, heq, hlater, houter, hown, hb⟩
      simp only [h.unfinished, true_and] at hown hb
      have hwired := h.wired.of_later hlater
      have hpos : 0 < (w.state d.own).calls := by
        rw [hown]
        split <;> omega
      have hwatch : ({ d.withSignals w with expired := b } : Deadline).watch
          = ⟨if d.fired = 0 then 1 else d.fired, if d.fired = 0 then true else d.expired,
            d.aborted⟩ := by
        rw [← hown, ← hb, aborted, ← houter]
        rfl
      have hstep : d.watch.step .expiry
          = ⟨if d.fired = 0 then 1 else d.fired, if d.fired = 0 then true else d.expired,
            d.aborted⟩ := by
        unfold watch Watch.step
        by_cases hzero : d.fired = 0
        · simp only [hzero, if_true]
        · simp only [hzero, if_false]
      rw [Deadline.happen, heq, hwatch, hstep]
      exact ⟨⟨⟨hwired.1, hwired.2, hwired.3, hwired.4⟩, h.unfinished, Or.inr hpos⟩, rfl⟩

/-- After the return nothing fires the own signal. -/
theorem Closed.happen (h : d.Closed) (e : Event) :
    (d.happen e).Closed ∧ (d.happen e).fired = d.fired := by
  cases e with
  | completion => exact ⟨h, rfl⟩
  | abort =>
      -- The signal of the caller is fired, but the slot is not there to hear it.
      rcases h.wired.abort_spec with ⟨w, heq, hlater, -, hwaiting, hown⟩
      rw [if_neg fun hboth => h.gone hboth.1] at hown
      rw [Deadline.happen, heq]
      refine ⟨⟨h.wired.of_later hlater, h.finished, ?_⟩, hown⟩
      change _ ∉ (w.state d.outer).waiting
      rw [hwaiting]
      exact List.not_mem_nil
  | expiry =>
      have hsame : d.expire = d := by rw [expire, if_pos h.finished]
      rw [Deadline.happen, hsame]
      exact ⟨h, rfl⟩

/-- With the return the slot goes away, and the own signal stays as it is. -/
theorem Listens.finish (h : d.Listens) : d.finish.Closed ∧ d.finish.fired = d.fired := by
  have hlater : d.signals.Later (d.signals.disconnect d.slot) := Signals.later_unlink _ _
  have hwired := h.wired.of_later hlater
  -- The slot is destroyed, and the own signal is not among what changes.
  refine ⟨⟨⟨hwired.1, hwired.2, hwired.3, hwired.4⟩, rfl, fun hmem => ?_⟩, ?_⟩
  · change _ ∈ ((d.signals.disconnect d.slot).state d.outer).waiting at hmem
    rw [Signals.disconnect, Signals.state_unlink, List.mem_filter] at hmem
    exact of_decide_eq_true hmem.2 rfl
  · change ((d.signals.disconnect d.slot).state d.own).calls = d.fired
    rw [Signals.disconnect, Signals.state_unlink, fired]

/-- A call begins by listening: its signal is a new one, and so is its slot. -/
theorem listens_start {outer : SignalId} (hw : w.Made) (houter : outer < w.states.length) :
    (start outer w).Listens ∧ (start outer w).watch
      = { aborted := decide (0 < (w.state outer).calls) } := by
  have hlength : w.create.1.states.length = w.states.length + 1 := List.length_append
  have hcalls : ∀ s, ((start outer w).signals.state s).calls = (w.state s).calls := by
    intro s
    rw [← Signals.state_create w s]
    exact Signals.calls_await ..
  have hwaiting : ∀ s l, l ∈ ((start outer w).signals.state s).waiting
      ↔ l ∈ (w.state s).waiting ∨ s = outer ∧ l = .slot w.slotCalls.length := by
    intro s l
    rw [← Signals.state_create w s]
    refine Signals.mem_waiting_await ?_
    change outer < w.create.1.states.length
    rw [hlength]
    exact Nat.lt_succ_of_lt houter
  -- What is new is connected with nothing else yet.
  have hwired : (start outer w).Wired := by
    refine ⟨houter, ?_, fun s t ht => ?_, fun s hs => ?_⟩
    · refine Nat.lt_of_lt_of_eq (Nat.lt_succ_self w.states.length) ?_
      exact hlength.symm.trans (List.length_modify ..).symm
    · rcases (hwaiting s _).1 ht with ht | ⟨-, hl⟩
      · rcases hw.sound.child s t ht with ⟨hlt, hbound⟩
        exact ⟨hlt, Nat.ne_of_lt hbound⟩
      · cases hl
    · rcases (hwaiting s _).1 hs with hs | ⟨heq, -⟩
      · exact absurd (hw.sound.slot s _ hs) (Nat.lt_irrefl _)
      · exact heq
  have hfired : (start outer w).fired = 0 := by
    refine (hcalls w.states.length).trans ?_
    rw [Signals.state_of_le (Nat.le_refl _)]
  refine ⟨⟨hwired, rfl, Or.inl ((hwaiting outer _).2 (Or.inr ⟨rfl, rfl⟩))⟩, ?_⟩
  rw [watch, hfired, aborted]
  change Watch.mk 0 false (decide (0 < ((start outer w).signals.state outer).calls)) = _
  rw [hcalls]

end Deadline

namespace TimedCall

variable {α : Type} {op : Operation α} {c : TimedCall α} {r : Ending α}

/-! ### The life of a call -/

/-- What holds all through the life of a call: it listens until it returns, and is closed then. -/
def Steady (c : TimedCall α) : Prop :=
  (c.returned = none ∧ c.deadline.Listens) ∨ ∃ r, c.returned = some r ∧ c.deadline.Closed

theorem step_of_returned (hr : c.returned = some r) (x : Nat × Event) :
    step op c x = { c with deadline := c.deadline.happen x.2 } := by
  rw [step, hr]
  exact if_pos rfl

/-- After the return the caller keeps what he was given, and the own signal is not fired any
more. -/
theorem foldl_of_returned (op : Operation α) (hr : c.returned = some r)
    (hclosed : c.deadline.Closed) (events : List (Nat × Event)) :
    (events.foldl (step op) c).returned = some r ∧
      (events.foldl (step op) c).deadline.fired = c.deadline.fired := by
  -- By induction on the events after the return.
  induction events generalizing c with
  | nil => exact ⟨hr, rfl⟩
  | cons x events ih =>
      rcases hclosed.happen x.2 with ⟨hnext, hfired⟩
      rw [List.foldl_cons, step_of_returned hr, ← hfired]
      exact ih hr hnext

theorem step_of_running (hc : c.returned = none) (x : Nat × Event) :
    step op c x
      = if x.2 = .completion then c.giveBack x.1 op.result
        else if op.stops ∧ 0 < (c.deadline.happen x.2).watch.cancels then
          giveBack x.1 op.stopped { c with deadline := c.deadline.happen x.2 }
        else { c with deadline := c.deadline.happen x.2 } := by
  rw [step, hc]
  rfl

/-- With the return everything is settled, whatever may happen afterwards. -/
theorem foldl_giveBack (h : c.deadline.Listens) (elapsed : Nat) (value : α)
    (events : List (Nat × Event)) :
    (events.foldl (step op) (c.giveBack elapsed value)).returned
        = some ⟨elapsed, value, c.deadline.watch⟩ ∧
      (events.foldl (step op) (c.giveBack elapsed value)).deadline.fired
        = c.deadline.watch.cancels := by
  rcases h.finish with ⟨hclosed, hfired⟩
  have hafter := foldl_of_returned op (c := c.giveBack elapsed value) rfl hclosed events
  exact ⟨hafter.1, hafter.2.trans hfired⟩

/-- Before the return a call goes on, or returns. -/
theorem step_of_listens (hc : c.returned = none) (h : c.deadline.Listens) (x : Nat × Event) :
    (step op c x).Steady := by
  rcases h.happen x.2 with ⟨hnext, -⟩
  rw [step_of_running hc]
  split
  · exact Or.inr ⟨_, rfl, h.finish.1⟩
  · split
    · exact Or.inr ⟨_, rfl, hnext.finish.1⟩
    · exact Or.inl ⟨hc, hnext⟩

theorem Steady.step (h : c.Steady) (x : Nat × Event) : (step op c x).Steady := by
  rcases h with ⟨hc, hlistens⟩ | ⟨r, hr, hclosed⟩
  · exact step_of_listens hc hlistens x
  · rw [step_of_returned hr]
    exact Or.inr ⟨r, hr, (hclosed.happen x.2).1⟩

theorem Steady.foldl (h : c.Steady) (events : List (Nat × Event)) :
    (events.foldl (TimedCall.step op) c).Steady := by
  induction events generalizing c with
  | nil => exact h
  | cons x events ih => exact ih (h.step x)

/-- A call that listens goes through its events as `run` does, and returns what `run` says. -/
theorem foldl_eq_run (hc : c.returned = none) (h : c.deadline.Listens)
    {events : List (Nat × Event)} (hmem : ∃ t, (t, .completion) ∈ events) :
    (events.foldl (step op) c).returned = some (run op events c.deadline.watch) ∧
      (events.foldl (step op) c).deadline.fired
        = (run op events c.deadline.watch).watch.cancels := by
  induction events generalizing c with
  | nil =>
      rcases hmem with ⟨t, hmem⟩
      exact absurd hmem List.not_mem_nil
  | cons x events ih =>
      rcases x with ⟨t, e⟩
      rcases h.happen e with ⟨hnext, hwatch⟩
      -- Both look at the same event now, the call at its signals and the run at its watch.
      rw [List.foldl_cons, step_of_running hc, run]
      by_cases hcompletion : e = .completion
      · -- The events behind the return are not part of the run, and change nothing in the call.
        rw [if_pos hcompletion, if_pos hcompletion]
        exact foldl_giveBack h t op.result events
      · rw [if_neg hcompletion, if_neg hcompletion, ← hwatch]
        dsimp only
        by_cases hstops : op.stops ∧ 0 < (c.deadline.happen e).watch.cancels
        · rw [if_pos hstops, if_pos hstops]
          exact foldl_giveBack (c := { c with deadline := c.deadline.happen e }) hnext t op.stopped
            events
        · -- The completion is still to come.
          rw [if_neg hstops, if_neg hstops]
          refine ih (c := { c with deadline := c.deadline.happen e }) hc hnext ?_
          rcases hmem with ⟨u, hmem⟩
          rcases List.mem_cons.1 hmem with heq | hmem
          · exact absurd (congrArg Prod.snd heq).symm hcompletion
          · exact ⟨u, hmem⟩

/-- The caller is given what `supervise` says, and after all events the own signal was fired as
often as until the return. -/
theorem life_returned (timeout : Nat) {abort : Abort} (op : Operation α) {outer : SignalId}
    {w : Signals} (hw : w.Made) (houter : outer < w.states.length)
    (habort : abort = .fired ↔ 0 < (w.state outer).calls) :
    (life timeout abort op outer w).returned = some (supervise timeout abort op) ∧
      (life timeout abort op outer w).deadline.fired
        = (supervise timeout abort op).watch.cancels := by
  rcases Deadline.listens_start hw houter with ⟨hlistens, hwatch⟩
  -- What the call knows at the beginning is what the run begins with.
  have hsame : (Deadline.start outer w).watch = { aborted := abort == .fired } := by
    rw [hwatch, ← decide_eq_decide.2 habort]
    rfl
  have hcompletion : (op.delay, .completion) ∈ agenda op.delay timeout abort :=
    mem_agenda_iff.2 (Or.inl rfl)
  rw [life, after, supervise, ← hsame]
  exact foldl_eq_run (c := { deadline := .start outer w }) rfl hlistens ⟨op.delay, hcompletion⟩

/-- After any events in which the call has returned, the own signal is not fired by any more. -/
theorem fired_after_return (op : Operation α) {outer : SignalId} {w : Signals} (hw : w.Made)
    (houter : outer < w.states.length) (events more : List (Nat × Event))
    (hreturned : (after op outer w events).returned ≠ none) :
    (after op outer w (events ++ more)).deadline.fired
      = (after op outer w events).deadline.fired := by
  have hbegins : (⟨.start outer w, none⟩ : TimedCall α).Steady :=
    Or.inl ⟨rfl, (Deadline.listens_start hw houter).1⟩
  -- After the return the call is closed, so no event gets to the own signal.
  have hsteady : (after op outer w events).Steady := hbegins.foldl events
  rcases hsteady with ⟨hnone, -⟩ | ⟨r, hr, hclosed⟩
  · exact absurd hnone hreturned
  · rw [after, List.foldl_append]
    exact (foldl_of_returned op hr hclosed more).2

/-- A call that begins before the caller aborts. Of the completion, the timer and the abort, which
are at different moments, the first one decides what is reported: the timer that the time is up,
the abort that the operation was aborted, and the completion what came of the operation. In the
first two cases the operation's own signal is fired once and in the third one never, and it is not
fired after the return, whatever may happen then. -/
theorem reports_first {β ε : Type} (ofCause : SystemError → ε) {w : Signals} (hw : w.Made)
    {outer : SignalId} (houter : outer < w.states.length) (hquiet : (w.state outer).calls = 0)
    {timeout : Nat} {abort : Abort} {op : Operation (β × Option ε)} (hfired : abort ≠ .fired)
    (hdelay : timeout ≠ op.delay)
    (habort : ∀ d, abort = .after d → d ≠ op.delay ∧ d ≠ timeout) :
    (∃ r, (life timeout abort op outer w).returned = some r ∧ r = supervise timeout abort op ∧
      (r.cause? = some .timedOut ↔ ExpiresFirst timeout abort op) ∧
      (r.cause? = some .canceled ↔ AbortsFirst timeout abort op) ∧
      (∀ cause, r.cause? = some cause → (r.report ofCause).2 = some (ofCause cause)) ∧
      (¬ExpiresFirst timeout abort op → ¬AbortsFirst timeout abort op →
        r.report ofCause = op.result)) ∧
    (ExpiresFirst timeout abort op ∨ AbortsFirst timeout abort op →
      (life timeout abort op outer w).deadline.fired = 1) ∧
    (¬ExpiresFirst timeout abort op → ¬AbortsFirst timeout abort op →
      (life timeout abort op outer w).deadline.fired = 0) ∧
    ∀ events more, (after op outer w events).returned ≠ none →
      (after op outer w (events ++ more)).deadline.fired
        = (after op outer w events).deadline.fired := by
  have hheard : abort = .fired ↔ 0 < (w.state outer).calls :=
    iff_of_false hfired (Nat.not_lt.2 (Nat.le_of_eq hquiet))
  rcases life_returned timeout op hw houter hheard with ⟨hreturned, hcancels⟩
  rcases cause?_supervise_iff hfired hdelay habort with ⟨hexpires, haborts⟩
  have hcause : ∀ cause, (supervise timeout abort op).cause? = some cause →
      ((supervise timeout abort op).report ofCause).2 = some (ofCause cause) := by
    intro cause h
    rw [Ending.report, h]
    rfl
  have hnothing : ¬ExpiresFirst timeout abort op → ¬AbortsFirst timeout abort op →
      supervise timeout abort op = ⟨op.delay, op.result, {}⟩ := by
    intro hnotExpires hnotAborts
    rcases completion_of_not_first hdelay habort hnotExpires hnotAborts with ⟨htimeout, hlate⟩
    exact supervise_of_completion hfired htimeout hlate
  rw [hcancels]
  refine ⟨⟨_, hreturned, rfl, hexpires, haborts, hcause, fun hnotExpires hnotAborts => ?_⟩,
    ?_, fun hnotExpires hnotAborts => ?_, fired_after_return op hw houter⟩
  · rw [hnothing hnotExpires hnotAborts]
    rfl
  · rintro (hfirst | hfirst)
    · exact (supervise_of_expiresFirst hfirst hfired).1
    · exact (supervise_of_abortsFirst hfirst).1
  · rw [hnothing hnotExpires hnotAborts]

/-- An operation that does not react and ends with an error of its own, after the time is up and
the caller has aborted. The time was up first. An abort after the return is not heard any more. The
signal of the caller is the child of another one. -/
theorem reports_first_timer :
    let w := (Signals.createChild 0 (Signals.create {}).1).1
    let op : Operation (Nat × Option SystemError) :=
      { delay := 10, stops := false, result := (7, some .connectionRefused), stopped := (0, none) }
    (∃ r, (life 5 (.after 7) op 1 w).returned = some r ∧ r.elapsed = 10 ∧
      r.report id = (7, some .timedOut)) ∧
      (life 5 (.after 7) op 1 w).deadline.fired = 1 ∧
      (after op 1 w [(5, .expiry), (10, .completion), (12, .abort)]).deadline.fired = 1 := by
  intro w op
  have hw : w.Made := .createChild (.create .none) (by decide)
  have hdistinct : ∀ d, Abort.after 7 = .after d → d ≠ op.delay ∧ d ≠ 5 := by
    intro d hd
    cases hd
    decide
  have hexpires : ExpiresFirst 5 (.after 7) op := by
    refine ⟨by decide, fun d hd => ?_⟩
    cases hd
    decide
  rcases reports_first id hw (show 1 < w.states.length by decide) rfl (by decide)
    (show 5 ≠ op.delay by decide) hdistinct with
    ⟨⟨r, hr, hrun, -, -, -, -⟩, hfirst, -, hlater⟩
  have hlate := hlater [(5, .expiry), (10, .completion)] [(12, .abort)] (by decide)
  refine ⟨⟨r, hr, ?_, ?_⟩, hfirst (Or.inl hexpires), hlate.trans rfl⟩
  · rw [hrun]
    rfl
  · rw [hrun]
    rfl

end TimedCall

end SignedHttp
