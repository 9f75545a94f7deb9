import SignedHttp.Proofs.Verify.Rules

/-!
# What Happens at a Guard

Verifications that share a replay guard need not follow one another. While one waits for
a key others are made, and a rule may take its time after the checks. What counts for
the guard is the order in which the checks are made, and at what moments. So a run is
not a list of verifications but of what happens at one guard: the checks of a call, a
nonce that is shown by something else, for instance by a rule, and the replacement of
the guard. In between time passes, and the rest of the world may change as it likes.

A call is a verification from the moment on at which its gathering has ended. It makes
its checks in whatever world there is by then, and its rules may say what they want,
whenever they say it. A verification that nothing comes between is the special case
(`status_verify`, `run_verify`), where the rules are run as soon as the nonce was shown.

## Main definitions

* `World.Waits`: Time passes, and the guard stays as it is.
* `Call`: A verification at the moment of its checks.
* `GuardEvent`, `Run`: What happens at a guard.
* `Rule.OnlyShows`: A rule does nothing to the guard but show nonces to it.

## Theorems

* `Call.after_eq`: The checks of a call show one nonce or none.
* `Run.of_append`, `Run.append`: A run comes apart, and is put together, at any event.
* `Rule.onlyShows_ofLibrary`: The rules of the library only show nonces.
* `status_verify`: The status of a verification is that of its call.
* `run_verify`: A verification is a run: its checks, then what its rules show.
-/

namespace SignedHttp

namespace World

variable {id : GuardId}

theorem checkNonce_new (id : GuardId) (nonce : Bytes) (created : Int) (w : World) :
    (w.checkNonce id nonce created).1 = ((w.guards id).check w.clock.elapsed nonce).1 := rfl

theorem checkNonce_guard (id : GuardId) (nonce : Bytes) (created : Int) (w : World) :
    (w.checkNonce id nonce created).2.1.guards id
      = ((w.guards id).check w.clock.elapsed nonce).2 :=
  Guards.set_same id _ _

/-- A world after another one, in which the guard is as it was and both clocks went on alike. -/
structure Waits (id : GuardId) (w w' : World) : Prop where
  epoch : w'.clock.epoch = w.clock.epoch
  elapsed : w.clock.elapsed ≤ w'.clock.elapsed
  guard : w'.guards id = w.guards id

theorem Waits.refl (w : World) : Waits id w w := ⟨rfl, Nat.le_refl _, rfl⟩

theorem Waits.trans {u v w : World} (huv : u.Waits id v) (hvw : v.Waits id w) : u.Waits id w :=
  ⟨hvw.epoch.trans huv.epoch, Nat.le_trans huv.elapsed hvw.elapsed, hvw.guard.trans huv.guard⟩

theorem waits_advance (id : GuardId) (ms : Nat) (w : World) : w.Waits id (w.advance ms) :=
  ⟨rfl, Nat.le_add_right _ _, rfl⟩

end World

/-- A verification at the moment of its checks. -/
structure Call where
  verifier : Verifier
  message : Message
  headers : Fields
  options : VerifyOptions := {}
  abort : Abort := .never
  /-- The world in which the checks are made. -/
  world : World
  /-- Will the rules be passed? -/
  rules : Bool

namespace Call

/-- What there is to check, or why nothing can be checked. -/
def evidence (c : Call) : Except VerificationError Evidence :=
  (c.verifier.gather c.headers c.options c.abort).result

/-- The status that the call ends with. -/
def status (suite : Suite) (c : Call) : Status :=
  match c.evidence with
  | .error _ => .error
  | .ok e =>
    if (c.verifier.checksAt suite c.message e c.world c.rules).all then .valid else .invalid

/-- The world in which the rules are run. -/
def after (suite : Suite) (c : Call) : World :=
  match c.evidence with
  | .error _ => c.world
  | .ok e => c.verifier.shownWorld suite c.message e c.world

/-- The nonces that the checks of the call show to the guard: its own, or none. -/
def shown (suite : Suite) (c : Call) : List Bytes :=
  match c.evidence with
  | .error _ => []
  | .ok e =>
    let nonce := e.received.params.nonce
    if e.policy.verifyNonce && isValidNonce nonce
        && (Verifier.checkCryptographic suite c.message e).1 then [nonce] else []

end Call

/-- What happens at a guard. -/
inductive GuardEvent
  /-- The checks of a call are made. -/
  | checked (c : Call)
  /-- A nonce is shown by something else. -/
  | shown (nonce : Bytes)
  /-- Another guard takes the place, for instance a cleared one. -/
  | replaced

/-- The nonces that are shown to the guard in an event. -/
def GuardEvent.nonces (suite : Suite) : GuardEvent → List Bytes
  | checked c => c.shown suite
  | shown nonce => [nonce]
  | replaced => []

/-- What happens at the guard `id`, from one world to another. -/
inductive Run (suite : Suite) (id : GuardId) : World → List GuardEvent → World → Prop
  | done (w : World) : Run suite id w [] w
  | wait {w w' w'' : World} {es : List GuardEvent} : w.Waits id w' → Run suite id w' es w'' →
      Run suite id w es w''
  | checked {c : Call} {w : World} {es : List GuardEvent} :
      c.verifier.config.replayGuard = some id → Run suite id (c.after suite) es w →
      Run suite id c.world (.checked c :: es) w
  | shown {w w' : World} {nonce : Bytes} {created : Int} {es : List GuardEvent} :
      Run suite id (w.checkNonce id nonce created).2.1 es w' →
      Run suite id w (.shown nonce :: es) w'
  | replaced {w w' : World} {g : ReplayGuard} {es : List GuardEvent} :
      Run suite id { w with guards := w.guards.set id g } es w' →
      Run suite id w (.replaced :: es) w'

namespace Call

variable {suite : Suite} {id : GuardId} {c : Call}

theorem status_eq_valid_iff :
    c.status suite = .valid ↔ ∃ e, c.evidence = .ok e ∧
      (c.verifier.checksAt suite c.message e c.world c.rules).all = true := by
  rw [status]
  cases c.evidence with
  | error _ =>
      constructor
      · intro h
        cases h
      · rintro ⟨_, ⟨⟩, _⟩
  | ok e =>
      simp only [Except.ok.injEq, exists_eq_left']
      split
      · next hall => exact ⟨fun _ => hall, fun _ => rfl⟩
      · next hall =>
        constructor
        · intro h
          cases h
        · exact fun h => absurd h hall

/-- The checks of a call leave the world as it is, or show the one nonce. -/
theorem after_eq (suite : Suite) (hid : c.verifier.config.replayGuard = some id) :
    (c.shown suite = [] ∧ c.after suite = c.world) ∨
      ∃ nonce created, c.shown suite = [nonce] ∧
        c.after suite = (c.world.checkNonce id nonce created).2.1 := by
  unfold shown after
  cases c.evidence with
  | error _ => exact Or.inl ⟨rfl, rfl⟩
  | ok e =>
      simp only
      split
      · next h =>
        -- The nonce is looked at, well-formed and of a genuine signature: it is shown.
        rw [Bool.and_eq_true, Bool.and_eq_true] at h
        right
        refine ⟨_, e.received.params.created, rfl, ?_⟩
        rw [Verifier.shownWorld, Verifier.guardFor, if_pos h.2, hid,
          Verifier.checkNonce_shown h.1.1 h.1.2]
      · next h =>
        -- Of a signature that is not genuine there is no guard to show the nonce to.
        rw [Bool.not_eq_true, Bool.and_eq_false_iff] at h
        refine Or.inl ⟨rfl, Verifier.checkNonce_world (h.imp_right fun hforged => ?_)⟩
        rw [Verifier.guardFor, if_neg (by rw [hforged]; exact Bool.false_ne_true)]

end Call

namespace Run

variable {suite : Suite} {id : GuardId} {w w' : World} {es fs : List GuardEvent}

/-- A run comes apart at any event. -/
theorem of_append (h : Run suite id w (es ++ fs) w') :
    ∃ u, Run suite id w es u ∧ Run suite id u fs w' := by
  -- By induction on the run: as long as there is a first event in `es`, it is the run's.
  generalize hl : es ++ fs = l at h
  induction h generalizing es with
  | done w =>
      rcases List.append_eq_nil_iff.1 hl with ⟨rfl, rfl⟩
      exact ⟨w, .done w, .done w⟩
  | wait hw _ ih =>
      rcases ih hl with ⟨u, hes, hfs⟩
      exact ⟨u, .wait hw hes, hfs⟩
  | @checked c w l hid hrest ih =>
      rcases List.append_eq_cons_iff.1 hl with ⟨rfl, rfl⟩ | ⟨es', rfl, rfl⟩
      · exact ⟨c.world, .done _, .checked hid hrest⟩
      · rcases ih rfl with ⟨u, hes, hfs⟩
        exact ⟨u, .checked hid hes, hfs⟩
  | @shown w w' n created l hrest ih =>
      rcases List.append_eq_cons_iff.1 hl with ⟨rfl, rfl⟩ | ⟨es', rfl, rfl⟩
      · exact ⟨w, .done _, .shown hrest⟩
      · rcases ih rfl with ⟨u, hes, hfs⟩
        exact ⟨u, .shown hes, hfs⟩
  | @replaced w w' g l hrest ih =>
      rcases List.append_eq_cons_iff.1 hl with ⟨rfl, rfl⟩ | ⟨es', rfl, rfl⟩
      · exact ⟨w, .done _, .replaced hrest⟩
      · rcases ih rfl with ⟨u, hes, hfs⟩
        exact ⟨u, .replaced hes, hfs⟩

/-- A run whose first event is a call waits until its checks and goes on after them. -/
theorem of_checked {c : Call} (h : Run suite id w (.checked c :: es) w') :
    w.Waits id c.world ∧ c.verifier.config.replayGuard = some id ∧
      Run suite id (c.after suite) es w' := by
  -- Nothing but waiting comes before the first event, and waits add up.
  generalize hl : GuardEvent.checked c :: es = l at h
  induction h with
  | done _ => cases hl
  | wait hw _ ih =>
      rcases ih hl with ⟨hworld, hid, hrest⟩
      exact ⟨hw.trans hworld, hid, hrest⟩
  | checked hid hrest _ =>
      cases hl
      exact ⟨World.Waits.refl _, hid, hrest⟩
  | shown _ _ => cases hl
  | replaced _ _ => cases hl

theorem append {u : World} (h : Run suite id w es u) (hrest : Run suite id u fs w') :
    Run suite id w (es ++ fs) w' := by
  -- By induction on the first run, at whose end the second one begins.
  induction h with
  | done _ => exact hrest
  | wait hw _ ih => exact .wait hw (ih hrest)
  | checked hid _ ih => exact .checked hid (ih hrest)
  | shown _ ih => exact .shown (ih hrest)
  | replaced _ ih => exact .replaced (ih hrest)

end Run

/-- A rule does nothing to the guard but show nonces to it. -/
def Rule.OnlyShows (suite : Suite) (id : GuardId) (rule : Rule) : Prop :=
  ∀ c w, ∃ es, .replaced ∉ es ∧ Run suite id w es (rule.run c w).2.1

/-- To show a nonce to any guard is a run of this one. -/
theorem World.run_checkNonce (suite : Suite) (id guard : GuardId) (nonce : Bytes) (created : Int)
    (w : World) :
    ∃ es, .replaced ∉ es ∧ Run suite id w es (w.checkNonce guard nonce created).2.1 := by
  by_cases hguard : id = guard
  · rw [← hguard]
    exact ⟨[.shown nonce], by simp, .shown (.done _)⟩
  · -- Another guard is none of this one's business.
    have hwaits : w.Waits id (w.checkNonce guard nonce created).2.1 :=
      ⟨rfl, Nat.le_refl _, Guards.set_other hguard _ _⟩
    exact ⟨[], List.not_mem_nil, .wait hwaits (.done _)⟩

/-- The rules of the library do nothing else to a guard. -/
theorem Rule.onlyShows_ofLibrary (suite : Suite) (id : GuardId) (rule : LibraryRule) :
    (Rule.ofLibrary rule).OnlyShows suite id := by
  intro c w
  have hworld : ((Rule.ofLibrary rule).run c w).2.1
      = w.showTo c.received.params (rule.shownTo c).toList := rule.judge_world c w
  rw [hworld]
  cases rule.shownTo c with
  | none => exact ⟨[], List.not_mem_nil, .done w⟩
  | some guard => exact World.run_checkNonce suite id guard _ _ w

namespace Verifier

variable {suite : Suite} {id : GuardId} {v : Verifier}

/-- Neither do several of them. -/
theorem run_runRules {rules : List Rule} (h : ∀ rule ∈ rules, rule.OnlyShows suite id)
    (c : RuleContext) (w : World) :
    ∃ es, .replaced ∉ es ∧ Run suite id w es (runRules c rules w).2.1 := by
  induction rules generalizing w with
  | nil => exact ⟨[], List.not_mem_nil, .done w⟩
  | cons rule rules ih =>
      rw [List.forall_mem_cons] at h
      -- Each rule is a run of its own, from the world that the one before it left.
      rcases h.1 c w with ⟨es, hes, hrule⟩
      rcases ih h.2 (rule.run c w).2.1 with ⟨fs, hfs, hrest⟩
      refine ⟨es ++ fs, ?_, hrule.append hrest⟩
      rw [List.mem_append, not_or]
      exact ⟨hes, hfs⟩

/-- A verification that starts in a world, as a call: when the key is found, the checks are made,
and the rules are run at once. -/
def call (suite : Suite) (v : Verifier) (m : Message) (headers : Fields) (o : VerifyOptions)
    (abort : Abort) (w : World) : Call :=
  { verifier := v, message := m, headers, options := o, abort
    world := w.advance (v.gather headers o abort).elapsed
    rules :=
      match (v.gather headers o abort).result with
      | .error _ => false
      | .ok e => v.rulesAt suite m e (w.advance (v.gather headers o abort).elapsed) }

theorem status_verify (suite : Suite) (v : Verifier) (m : Message) (headers : Fields)
    (o : VerifyOptions) (abort : Abort) (w : World) :
    (v.verify suite m headers o abort w).1.status
      = (v.call suite m headers o abort w).status suite := by
  cases h : (v.gather headers o abort).result with
  | error e =>
      simp only [verify, h, Call.status, Call.evidence, call]
      rfl
  | ok e =>
      rw [(verify_eq_ok h suite m w).2]
      simp only [Call.status, Call.evidence, call, h]
      rfl

/-- A verification is a run, if its rules only show nonces: its checks, and what the rules
show. -/
theorem run_verify (hid : v.config.replayGuard = some id) {m : Message} {headers : Fields}
    {o : VerifyOptions} {abort : Abort} (w : World)
    (hrules : ∀ e, (v.gather headers o abort).result = .ok e →
      ∀ rule ∈ e.policy.customRules, rule.OnlyShows suite id) :
    ∃ es, .replaced ∉ es ∧
      Run suite id (w.advance (v.gather headers o abort).elapsed)
        (.checked (v.call suite m headers o abort w) :: es)
        (v.verify suite m headers o abort w).2.1 := by
  -- After the checks come the rules, which begin in the world that the checks left.
  have hrest : ∃ es, .replaced ∉ es ∧ Run suite id ((v.call suite m headers o abort w).after suite)
      es (v.verify suite m headers o abort w).2.1 := by
    cases h : (v.gather headers o abort).result with
    | error e =>
        simp only [Call.after, Call.evidence, call, verify, h]
        exact ⟨[], List.not_mem_nil, .done _⟩
    | ok e =>
        simp only [Call.after, Call.evidence, call, verify, h]
        exact run_runRules (hrules e h) (ruleContext suite m e) _
  rcases hrest with ⟨es, hes, hrun⟩
  exact ⟨es, hes, Run.checked (c := v.call suite m headers o abort w) hid hrun⟩

end Verifier

end SignedHttp
