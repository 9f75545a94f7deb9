import SignedHttp.Timing.Timeout

/-!
# An Operation under a Timeout

How an operation ends that nobody but the timer asks to stop. One that takes less than the
timeout ends as if there were none. One that takes longer is asked once, when the time is up:
it ends there if it reacts, and else at its own time, with its own result; that the time was up
is reported in both cases.

An abort is never lost. The agenda is in the order of time, so an operation that ends after the
moment of the abort has gone through it, whether it was stopped by it, by the timer before it,
or not at all; and what was aborted stays so.

The cause is whatever comes first. The agenda begins with it, and once the operation was asked to
stop the timer has no say any more, so what comes later does not take the place of the first cause
(`kept_run`).

## Main definitions

* `ExpiresFirst`, `AbortsFirst`: What comes before all else.

## Theorems

* `supervise_of_lt`: An operation that ends in time.
* `supervise_of_gt`: An operation that takes too long.
* `sorted_agenda`: The agenda is in the order of time.
* `aborted_supervise_of_lt`: An abort before the end is taken note of.
* `supervise_of_expiresFirst`, `supervise_of_abortsFirst`, `supervise_of_completion`: What becomes
  of an operation by what comes first.
* `cause?_supervise_iff`: The cause tells which event came first.
-/

namespace SignedHttp

variable {α : Type} {timeout : Nat} {op : Operation α}

/-- Nothing happens to an operation that ends in time. -/
theorem supervise_of_lt (h : op.delay < timeout) :
    supervise timeout .never op = ⟨op.delay, op.result, {}⟩ := by
  have hagenda : agenda op.delay timeout .never =
      [(op.delay, .completion), (timeout, .expiry)] := by
    simp only [agenda, schedule, if_neg (Nat.not_lt.2 (Nat.le_of_lt h))]
  rw [supervise, hagenda]
  rfl

/-- An operation that takes too long is asked to stop, which it does or does not. -/
theorem supervise_of_gt (h : timeout < op.delay) :
    supervise timeout .never op =
      { elapsed := if op.stops then timeout else op.delay
        value := if op.stops then op.stopped else op.result
        watch := { cancels := 1, expired := true } } := by
  have hagenda : agenda op.delay timeout .never =
      [(timeout, .expiry), (op.delay, .completion)] := by
    simp only [agenda, schedule, if_pos h]
  rw [supervise, hagenda]
  -- It ends with the timer if it reacts, and goes on to its own end if not.
  cases hstops : op.stops with
  | true => simp [run, Watch.step, hstops]
  | false => simp [run, Watch.step, hstops]

/-- Putting an event in its place adds the event and nothing else. -/
theorem mem_schedule_iff {t : Nat} {e : Event} {list : List (Nat × Event)} {x : Nat × Event} :
    x ∈ schedule t e list ↔ x = (t, e) ∨ x ∈ list := by
  induction list with
  | nil => simp only [schedule, List.mem_singleton, List.not_mem_nil, or_false]
  | cons f rest ih =>
      rw [schedule]
      split
      · rw [List.mem_cons]
      · rw [List.mem_cons, ih, List.mem_cons]
        exact or_left_comm

/-- Putting an event in its place keeps the order of time. -/
theorem sorted_schedule {list : List (Nat × Event)} (h : list.Pairwise fun a b => a.1 ≤ b.1)
    (t : Nat) (e : Event) : (schedule t e list).Pairwise fun a b => a.1 ≤ b.1 := by
  induction list with
  | nil => exact List.pairwise_singleton _ _
  | cons f rest ih =>
      rcases List.pairwise_cons.1 h with ⟨hfirst, hrest⟩
      rw [schedule]
      -- The event stands before the first one that is later, and behind those that are not.
      split
      · next hlt =>
        refine List.pairwise_cons.2 ⟨fun x hx => ?_, h⟩
        rcases List.mem_cons.1 hx with rfl | hx
        · exact Nat.le_of_lt hlt
        · exact Nat.le_trans (Nat.le_of_lt hlt) (hfirst x hx)
      · next hle =>
        refine List.pairwise_cons.2 ⟨fun x hx => ?_, ih hrest⟩
        rcases mem_schedule_iff.1 hx with rfl | hx
        · exact Nat.le_of_not_lt hle
        · exact hfirst x hx

theorem sorted_agenda (delay timeout : Nat) (abort : Abort) :
    (agenda delay timeout abort).Pairwise fun a b => a.1 ≤ b.1 := by
  have hevents := sorted_schedule (List.pairwise_singleton _ (delay, .completion)) timeout .expiry
  unfold agenda
  split
  · exact sorted_schedule hevents _ .abort
  · exact hevents

/-- What was aborted stays so. -/
theorem aborted_step {w : Watch} (h : w.aborted = true) (e : Event) :
    (w.step e).aborted = true := by
  cases e with
  | completion => exact h
  | abort => rfl
  | expiry =>
      rw [Watch.step]
      split <;> exact h

/-- From then on this is known to the end. -/
theorem aborted_run {w : Watch} (h : w.aborted = true) (events : List (Nat × Event)) :
    (run op events w).watch.aborted = true := by
  induction events generalizing w with
  | nil => exact h
  | cons x rest ih =>
      rw [run]
      split
      · exact h
      · dsimp only
        split
        · exact aborted_step h _
        · exact ih (aborted_step h _)

/-- An abort that comes before the operation has ended is taken note of. -/
theorem aborted_run_of_mem {events : List (Nat × Event)} {d : Nat} {w : Watch}
    (hsorted : events.Pairwise fun a b => a.1 ≤ b.1) (hmem : (d, .abort) ∈ events)
    (hlt : d < (run op events w).elapsed) : (run op events w).watch.aborted = true := by
  induction events generalizing w with
  | nil => exact absurd hmem List.not_mem_nil
  | cons x rest ih =>
      rcases x with ⟨t, e⟩
      rcases List.pairwise_cons.1 hsorted with ⟨hfirst, hrest⟩
      rcases List.mem_cons.1 hmem with heq | hmem
      · -- The abort is the next event, and from then on it is known.
        cases heq
        rw [run, if_neg (by decide)]
        dsimp only
        split
        · rfl
        · exact aborted_run rfl rest
      · -- The operation does not end with an event that comes before the abort.
        have hle : t ≤ d := hfirst _ hmem
        rw [run] at hlt ⊢
        split at hlt
        · exact absurd hlt (Nat.not_lt.2 hle)
        · next he =>
          rw [if_neg he]
          dsimp only at hlt ⊢
          split at hlt
          · exact absurd hlt (Nat.not_lt.2 hle)
          · next hgo =>
            rw [if_neg hgo]
            exact ih hrest hmem hlt

theorem aborted_supervise_of_lt {d : Nat} (h : d < (supervise timeout (.after d) op).elapsed) :
    (supervise timeout (.after d) op).watch.aborted = true :=
  aborted_run_of_mem (sorted_agenda op.delay timeout (.after d))
    (mem_schedule_iff.2 (Or.inl rfl)) h

/-! ### What comes first -/

/-- The time is up before the operation ends, and before an abort. -/
def ExpiresFirst (timeout : Nat) (abort : Abort) (op : Operation α) : Prop :=
  timeout < op.delay ∧ ∀ d, abort = .after d → timeout < d

/-- There is an abort before the operation ends, and before the time is up. -/
def AbortsFirst (timeout : Nat) (abort : Abort) (op : Operation α) : Prop :=
  ∃ d, abort = .after d ∧ d < op.delay ∧ d < timeout

theorem mem_agenda_iff {delay : Nat} {abort : Abort} {x : Nat × Event} :
    x ∈ agenda delay timeout abort ↔ x = (delay, .completion) ∨ x = (timeout, .expiry)
      ∨ ∃ d, abort = .after d ∧ x = (d, .abort) := by
  have hevents : x ∈ schedule timeout .expiry [(delay, .completion)]
      ↔ x = (delay, .completion) ∨ x = (timeout, .expiry) := by
    rw [mem_schedule_iff, List.mem_singleton, or_comm]
  unfold agenda
  cases abort with
  | never => simp only [hevents, reduceCtorEq, false_and, exists_const, or_false]
  | fired => simp only [hevents, reduceCtorEq, false_and, exists_const, or_false]
  | after d =>
      simp only [Abort.after.injEq, exists_eq_left']
      rw [mem_schedule_iff, hevents, or_comm, or_assoc]

/-- The agenda begins with the event that comes before all others. -/
theorem exists_agenda_eq_cons {delay : Nat} {abort : Abort} {x : Nat × Event}
    (hmem : x ∈ agenda delay timeout abort)
    (hfirst : ∀ y ∈ agenda delay timeout abort, y = x ∨ x.1 < y.1) :
    ∃ rest, agenda delay timeout abort = x :: rest := by
  have hsorted := sorted_agenda delay timeout abort
  cases hagenda : agenda delay timeout abort with
  | nil =>
      rw [hagenda] at hmem
      exact absurd hmem List.not_mem_nil
  | cons y rest =>
      rw [hagenda] at hmem hfirst hsorted
      rcases hfirst y (List.mem_cons_self ..) with rfl | hlt
      · exact ⟨rest, rfl⟩
      · -- Another event at the head would come later than the first one.
        rcases List.mem_cons.1 hmem with rfl | hrest
        · exact absurd hlt (Nat.lt_irrefl _)
        · have hle := (List.pairwise_cons.1 hsorted).1 x hrest
          omega

/-- Then the agenda begins with the timer. -/
theorem agenda_of_expiresFirst {abort : Abort} (h : ExpiresFirst timeout abort op) :
    ∃ rest, agenda op.delay timeout abort = (timeout, .expiry) :: rest := by
  refine exists_agenda_eq_cons (mem_agenda_iff.2 (Or.inr (Or.inl rfl))) fun y hy => ?_
  rcases mem_agenda_iff.1 hy with rfl | rfl | ⟨d, habort, rfl⟩
  · exact Or.inr h.1
  · exact Or.inl rfl
  · exact Or.inr (h.2 d habort)

theorem agenda_of_abort {d : Nat} (hdelay : d < op.delay) (htimeout : d < timeout) :
    ∃ rest, agenda op.delay timeout (.after d) = (d, .abort) :: rest := by
  refine exists_agenda_eq_cons (mem_agenda_iff.2 (Or.inr (Or.inr ⟨d, rfl, rfl⟩))) fun y hy => ?_
  rcases mem_agenda_iff.1 hy with rfl | rfl | ⟨d', habort, rfl⟩
  · exact Or.inr hdelay
  · exact Or.inr htimeout
  · cases habort
    exact Or.inl rfl

theorem agenda_of_completion {abort : Abort} (hdelay : op.delay < timeout)
    (habort : ∀ d, abort = .after d → op.delay < d) :
    ∃ rest, agenda op.delay timeout abort = (op.delay, .completion) :: rest := by
  refine exists_agenda_eq_cons (mem_agenda_iff.2 (Or.inl rfl)) fun y hy => ?_
  rcases mem_agenda_iff.1 hy with rfl | rfl | ⟨d, hd, rfl⟩
  · exact Or.inl rfl
  · exact Or.inr hdelay
  · exact Or.inr (habort d hd)

/-- Once the operation was asked to stop, nothing asks it again, and the timer has no say any
more. -/
theorem kept_step {w : Watch} (h : 0 < w.cancels) (e : Event) :
    (w.step e).cancels = w.cancels ∧ (w.step e).expired = w.expired := by
  have hne : w.cancels ≠ 0 := Nat.ne_of_gt h
  cases e with
  | completion => exact ⟨rfl, rfl⟩
  | abort => exact ⟨if_neg hne, rfl⟩
  | expiry =>
      rw [Watch.step, if_neg hne]
      exact ⟨rfl, rfl⟩

/-- What is known of the timer does not change after the operation was asked to stop. -/
theorem kept_run {w : Watch} (h : 0 < w.cancels) (op : Operation α)
    (events : List (Nat × Event)) :
    (run op events w).watch.cancels = w.cancels ∧
      (run op events w).watch.expired = w.expired := by
  -- By induction on the events that are left, none of which asks again.
  induction events generalizing w with
  | nil => exact ⟨rfl, rfl⟩
  | cons x rest ih =>
      rcases kept_step h x.2 with ⟨hcancels, hexpired⟩
      rw [run]
      split
      · exact ⟨rfl, rfl⟩
      · dsimp only
        split
        · exact ⟨hcancels, hexpired⟩
        · rw [← hcancels] at h
          rw [(ih h).1, (ih h).2]
          exact ⟨hcancels, hexpired⟩

/-- If the timer comes first, it asks the operation to stop, and is the cause. -/
theorem supervise_of_expiresFirst {abort : Abort} (h : ExpiresFirst timeout abort op)
    (hfired : abort ≠ .fired) : (supervise timeout abort op).watch.cancels = 1 ∧
      (supervise timeout abort op).cause? = some .timedOut := by
  rcases agenda_of_expiresFirst h with ⟨rest, hagenda⟩
  have hwatch : Watch.step .expiry { aborted := abort == .fired }
      = { cancels := 1, expired := true } := by
    cases abort with
    | fired => exact absurd rfl hfired
    | never => rfl
    | after d => rfl
  have hkept : (supervise timeout abort op).watch.cancels = 1 ∧
      (supervise timeout abort op).watch.expired = true := by
    rw [supervise, hagenda, run, if_neg (by decide), hwatch]
    dsimp only
    split
    · exact ⟨rfl, rfl⟩
    · exact kept_run (by decide) op rest
  rw [Ending.cause?, if_pos hkept.2]
  exact ⟨hkept.1, rfl⟩

/-- If an abort comes first, it asks the operation to stop, and is the cause. -/
theorem supervise_of_abortsFirst {abort : Abort} (h : AbortsFirst timeout abort op) :
    (supervise timeout abort op).watch.cancels = 1 ∧
      (supervise timeout abort op).cause? = some .canceled := by
  rcases h with ⟨d, rfl, hdelay, htimeout⟩
  rcases agenda_of_abort hdelay htimeout with ⟨rest, hagenda⟩
  have hwatch : Watch.step .abort { aborted := Abort.after d == .fired }
      = { cancels := 1, aborted := true } := rfl
  -- After the first event all is decided, whether the operation reacts or not.
  have hkept : (supervise timeout (.after d) op).watch.cancels = 1 ∧
      (supervise timeout (.after d) op).watch.expired = false ∧
      (supervise timeout (.after d) op).watch.aborted = true := by
    rw [supervise, hagenda, run, if_neg (by decide), hwatch]
    dsimp only
    split
    · exact ⟨rfl, rfl, rfl⟩
    · rcases kept_run (w := ⟨1, false, true⟩) (by decide) op rest with ⟨hcancels, hexpired⟩
      exact ⟨hcancels, hexpired, aborted_run rfl rest⟩
  rcases hkept with ⟨hcancels, hexpired, haborted⟩
  rw [Ending.cause?, hexpired, haborted]
  exact ⟨hcancels, rfl⟩

/-- Nothing happens to an operation that comes to its end before all else. -/
theorem supervise_of_completion {abort : Abort} (hfired : abort ≠ .fired)
    (hdelay : op.delay < timeout) (habort : ∀ d, abort = .after d → op.delay < d) :
    supervise timeout abort op = ⟨op.delay, op.result, {}⟩ := by
  rcases agenda_of_completion hdelay habort with ⟨rest, hagenda⟩
  have hwatch : ({ aborted := abort == .fired } : Watch) = {} := by
    cases abort with
    | fired => exact absurd rfl hfired
    | never => rfl
    | after d => rfl
  rw [supervise, hagenda, run, if_pos rfl, hwatch]

/-- If neither the timer nor an abort comes before the other two events, the completion does. -/
theorem completion_of_not_first {abort : Abort} (hdelay : timeout ≠ op.delay)
    (habort : ∀ d, abort = .after d → d ≠ op.delay ∧ d ≠ timeout)
    (hexpires : ¬ExpiresFirst timeout abort op) (haborts : ¬AbortsFirst timeout abort op) :
    op.delay < timeout ∧ ∀ d, abort = .after d → op.delay < d := by
  have hnever : (∀ d, abort ≠ .after d) →
      op.delay < timeout ∧ ∀ d, abort = .after d → op.delay < d := by
    intro hnone
    have hlt : ¬timeout < op.delay :=
      fun hlt => hexpires ⟨hlt, fun d hd => absurd hd (hnone d)⟩
    exact ⟨by omega, fun d hd => absurd hd (hnone d)⟩
  cases abort with
  | never => exact hnever fun d hd => nomatch hd
  | fired => exact hnever fun d hd => nomatch hd
  | after d =>
      have hne := habort d rfl
      have htimer : ¬(timeout < op.delay ∧ timeout < d) := by
        rintro ⟨hlt, hltd⟩
        refine hexpires ⟨hlt, fun d' hd' => ?_⟩
        cases hd'
        exact hltd
      have habort : ¬(d < op.delay ∧ d < timeout) := fun h => haborts ⟨d, rfl, h⟩
      -- Of three different moments neither of these two is the first.
      have hfirst : op.delay < timeout ∧ op.delay < d := by omega
      refine ⟨hfirst.1, fun d' hd' => ?_⟩
      cases hd'
      exact hfirst.2

/-- If no two moments are the same, the cause tells which event came first. -/
theorem cause?_supervise_iff {abort : Abort} (hfired : abort ≠ .fired)
    (hdelay : timeout ≠ op.delay)
    (habort : ∀ d, abort = .after d → d ≠ op.delay ∧ d ≠ timeout) :
    ((supervise timeout abort op).cause? = some .timedOut ↔ ExpiresFirst timeout abort op) ∧
      ((supervise timeout abort op).cause? = some .canceled ↔ AbortsFirst timeout abort op) := by
  have hnot : ExpiresFirst timeout abort op → ¬AbortsFirst timeout abort op := by
    rintro ⟨-, hexpires⟩ ⟨d, hd, -, htimeout⟩
    exact Nat.lt_asymm htimeout (hexpires d hd)
  by_cases hexpires : ExpiresFirst timeout abort op
  · rw [(supervise_of_expiresFirst hexpires hfired).2]
    exact ⟨iff_of_true rfl hexpires, iff_of_false (by decide) (hnot hexpires)⟩
  · by_cases haborts : AbortsFirst timeout abort op
    · rw [(supervise_of_abortsFirst haborts).2]
      exact ⟨iff_of_false (by decide) hexpires, iff_of_true rfl haborts⟩
    · -- If neither came first, the operation ended by itself, and there is no cause.
      rcases completion_of_not_first hdelay habort hexpires haborts with ⟨htimeout, hlate⟩
      have hcause : (supervise timeout abort op).cause? = none := by
        rw [supervise_of_completion hfired htimeout hlate]
        rfl
      rw [hcause]
      exact ⟨iff_of_false (by decide) hexpires, iff_of_false (by decide) haborts⟩

theorem Abort.since_eq_fired_iff {abort : Abort} (h : abort ≠ .fired) (e : Ending α) :
    abort.since e = .fired ↔ e.watch.aborted = true := by
  cases abort with
  | never => simp [Abort.since]
  | fired => exact absurd rfl h
  | after d => simp [Abort.since]

end SignedHttp
