import SignedHttp.Proofs.Crypto.Suite
import SignedHttp.Proofs.Except
import SignedHttp.Proofs.Store.Shown
import SignedHttp.Proofs.Verify.Rules

/-!
# The First Use of a Nonce

Verifications follow one another, made by one verifier or by several, and share their
guards as they like. As long as no request carries a certain nonce no guard has a record
of it, whatever else happens (`afterTurns_shownTo`). So the nonce check of the first
request that carries it is passed.

The rules of the same request come after the nonce check, and show the nonce to guards
of their own. These are asked one after the other, and a guard cannot tell that it is
asked about the same request again. A rule is thus passed exactly if its guard was not
asked before, in this verification, by the nonce check or by a rule (`first_use`).

## Main definitions

* `Turn`: A verification in a sequence of them.
* `World.afterTurns`: The world after a sequence.
* `Turn.Carries`: The nonce of a request.
* `Turn.shownBefore`: The guards that are shown the nonce before a rule is run.

## Theorems

* `showTo_other`, `showTo_self`: Which guards were shown a nonce.
* `afterTurns_shownTo`: A nonce that nobody carries is shown to nobody.
* `first_use`: What nonce check and rules say to a nonce that is used for the first time.
-/

namespace SignedHttp

open Guards (ShownTo)

/-- A verification in a sequence: of a request, by a verifier, some time after the one before. -/
structure Turn extends Verifier.Request where
  verifier : Verifier
  abort : Abort := .never
  /-- The milliseconds since the verification before ended. -/
  pause : Nat := 0

namespace Turn

/-- The verdict, the world afterwards, and what is logged. -/
def verify (suite : Suite) (t : Turn) (w : World) : Verdict × World × Log :=
  t.verifier.verify suite t.message t.headers t.options t.abort (w.advance t.pause)

/-- The nonce is that of the signature, as far as one can be read. -/
def Carries (nonce : Bytes) (t : Turn) : Prop :=
  ∃ r, Received.ofHeaders t.headers = .ok r ∧ r.params.nonce = nonce

/-- The policy that the request has to meet. -/
def policy? (t : Turn) : Option Policy :=
  t.verifier.config.policies.find? (t.options.policy.getD t.verifier.config.defaultPolicy)

/-- The guards that are shown the nonce before a rule is run: that of the verifier, if the policy
looks at the nonce, and those of the rules before. -/
def shownBefore (policy : Policy) (before : List Rule) (t : Turn) : List GuardId :=
  (if policy.verifyNonce then t.verifier.config.replayGuard.toList else [])
    ++ before.filterMap Rule.guard?

end Turn

namespace World

/-- The world after some verifications. -/
def afterTurns (suite : Suite) : List Turn → World → World
  | [], w => w
  | t :: ts, w => afterTurns suite ts (t.verify suite w).2.1

variable {p : Params} {nonce : Bytes} {now : Nat} {ids : List GuardId} {gs₀ : Guards} {w : World}

/-- A nonce that is shown to some guards leaves what is known of another one. -/
theorem showTo_other (h : ShownTo nonce now [] gs₀ w.guards) (hne : p.nonce ≠ nonce)
    (jds : List GuardId) : ShownTo nonce now [] gs₀ (w.showTo p jds).guards := by
  induction jds generalizing w with
  | nil => exact h
  | cons id jds ih => exact ih (h.check_other hne id w.clock.elapsed)

/-- The guards that a nonce is shown to are those that were shown it, one after the other. -/
theorem showTo_self (h : ShownTo p.nonce w.clock.elapsed ids gs₀ w.guards) (jds : List GuardId) :
    ShownTo p.nonce w.clock.elapsed (ids ++ jds) gs₀ (w.showTo p jds).guards := by
  induction jds generalizing w ids with
  | nil =>
      rw [List.append_nil]
      exact h
  | cons id jds ih =>
      rw [List.append_cons]
      exact ih (w := (w.checkNonce id p.nonce p.created).2.1) (h.check id)

theorem showTo_clock (p : Params) (jds : List GuardId) (w : World) :
    (w.showTo p jds).clock = w.clock := by
  induction jds generalizing w with
  | nil => rfl
  | cons id jds ih => exact ih _

end World

section Sequence

variable {suite : Suite} {nonce : Bytes} {now : Nat} {gs₀ : Guards} {t : Turn} {w : World}

/-- A verification of a request that does not carry the nonce shows it to nobody. -/
theorem Turn.verify_shownTo (hlib : t.verifier.UsesLibrary) (hunused : ¬ t.Carries nonce)
    (h : ShownTo nonce now [] gs₀ w.guards) :
    ShownTo nonce now [] gs₀ (t.verify suite w).2.1.guards := by
  cases hresult : (t.verifier.gather t.headers t.options t.abort).result with
  | error _ =>
      simp only [verify, Verifier.verify, hresult]
      exact h
  | ok e =>
      rcases Verifier.gather_eq_ok_iff.1 hresult with ⟨hreceived, hpolicy, -⟩
      simp only [verify, Verifier.verify, hresult]
      rw [Verifier.examine_world (hlib _ _ hpolicy)]
      -- What the rules show is the nonce of this request, and that is another one.
      have hne : e.received.params.nonce ≠ nonce :=
        fun hnonce => hunused ⟨e.received, hreceived, hnonce⟩
      exact World.showTo_other (w := (w.advance t.pause).advance _) h hne _

/-- A nonce that no request of a sequence carries is shown to nobody. -/
theorem afterTurns_shownTo {ts : List Turn} (hlib : ∀ t ∈ ts, t.verifier.UsesLibrary)
    (hunused : ∀ t ∈ ts, ¬ t.Carries nonce) (h : ShownTo nonce now [] gs₀ w.guards) :
    ShownTo nonce now [] gs₀ (w.afterTurns suite ts).guards := by
  induction ts generalizing w with
  | nil => exact h
  | cons t ts ih =>
      rw [List.forall_mem_cons] at hlib hunused
      exact ih hlib.2 hunused.2 (Turn.verify_shownTo hlib.1 hunused.1 h)

end Sequence

namespace Verifier

variable {suite : Suite} {v : Verifier} {m : Message} {e : Evidence} {gs₀ : Guards} {w : World}

/-- A nonce that was shown to nobody passes the nonce check, if it is well-formed. -/
theorem checkNonce_first (hform : isValidNonce e.received.params.nonce = true)
    (h : ShownTo e.received.params.nonce w.clock.elapsed [] gs₀ w.guards)
    (guard : Option GuardId) : (checkNonce guard e w).1 = true := by
  -- A nonce that is not looked at passes anyway.
  by_cases hverify : e.policy.verifyNonce = true
  · cases guard with
    | none => simp only [checkNonce, hverify, hform, Bool.not_true, Bool.false_eq_true, if_false]
    | some id =>
        rw [checkNonce_shown hverify hform]
        exact (h.new_iff id).2 (Or.inl List.not_mem_nil)
  · simp only [checkNonce, hverify, Bool.not_false, if_true]

/-- What a rule says that tracks nonces: it is passed if its guard was not asked before. -/
theorem runRules_first {before after : List Rule} {rule : Rule} {guard : GuardId}
    {c : RuleContext} {ids : List GuardId} (hlib : ∀ rule ∈ before, rule.IsLibrary)
    (h : ShownTo c.received.params.nonce w.clock.elapsed ids gs₀ w.guards)
    (hguard : rule.shownTo c = some guard) :
    ∃ outcome, (runRules c (before ++ rule :: after) w).1[before.length]? = some outcome ∧
      outcome.rule = rule.name ∧
      (outcome.passed = true ↔
        guard ∉ ids ++ before.filterMap (fun rule => rule.shownTo c) ∨
          ¬ (gs₀ guard).Recognizes) := by
  rw [(runRules_append before _ w).1, List.getElem?_append_right (length_runRules before w).le,
    length_runRules, Nat.sub_self]
  refine ⟨_, rfl, rfl, ?_⟩
  have hshown := World.showTo_self h (before.filterMap fun rule => rule.shownTo c)
  have hclock := World.showTo_clock c.received.params (before.filterMap (Rule.shownTo · c)) w
  -- No time passed since the rules before, so the guard is asked at the same moment.
  rw [← hclock, ← runRules_world hlib w] at hshown
  exact (Bool.eq_iff_iff.1 (Rule.run_passed hguard _)).trans (hshown.new_iff guard)

/-- What an examination says to a nonce that was shown to nobody. -/
theorem examine_first (hgenuine : (checkCryptographic suite m e).1 = true)
    (hform : isValidNonce e.received.params.nonce = true)
    (hlib : ∀ rule ∈ e.policy.customRules, rule.IsLibrary)
    (h : ShownTo e.received.params.nonce w.clock.elapsed [] gs₀ w.guards) :
    (v.examine suite m e w).1.checks.nonce = true ∧
      ∀ before rule after guard, e.policy.customRules = before ++ rule :: after →
        rule.guard? = some guard →
        ∃ outcome, (v.examine suite m e w).1.compliance.rules[before.length]? = some outcome ∧
          outcome.rule = rule.name ∧
          (outcome.passed = true ↔
            guard ∉ v.checkShows suite m e ++ before.filterMap Rule.guard? ∨
              ¬ (gs₀ guard).Recognizes) := by
  refine ⟨checkNonce_first hform h _, fun before rule after guard hrules hguard => ?_⟩
  have houtcomes : (v.examine suite m e w).1.compliance.rules
      = (runRules (ruleContext suite m e) e.policy.customRules (v.shownWorld suite m e w)).1 := rfl
  -- The rules are run in the world that the nonce check left, at the same moment.
  have hshown : ShownTo (ruleContext suite m e).received.params.nonce
      (v.shownWorld suite m e w).clock.elapsed (v.checkShows suite m e) gs₀
      (v.shownWorld suite m e w).guards := by
    rw [shownWorld_eq, World.showTo_clock]
    exact World.showTo_self h (v.checkShows suite m e)
  have hverified := Rule.shownTo_verified (c := ruleContext suite m e) hgenuine hform
  have hall : (fun rule : Rule => rule.shownTo (ruleContext suite m e)) = Rule.guard? :=
    funext hverified
  rw [houtcomes, hrules, ← hall]
  rw [hrules] at hlib
  refine runRules_first (fun rule hmem => hlib rule (List.mem_append_left _ hmem)) hshown ?_
  rw [hverified, hguard]

end Verifier

namespace Turn

variable {suite : Suite} {t : Turn} {w : World}

/-- A genuine signature whose nonce no request carried before passes the nonce check, and each
rule that tracks nonces, unless the guard of the rule was shown the nonce before in the same
verification, and recognizes it. -/
theorem first_use {earlier : List Turn} {r : Received}
    (hempty : ∀ id, (w.guards id).seen.entries = [])
    (hlib : ∀ u ∈ t :: earlier, u.verifier.UsesLibrary)
    (hr : Received.ofHeaders t.headers = .ok r) (hform : isValidNonce r.params.nonce = true)
    (hunused : ∀ u ∈ earlier, ¬ u.Carries r.params.nonce)
    (hgenuine : (t.verify suite (w.afterTurns suite earlier)).1.checks.cryptographic = true) :
    (t.verify suite (w.afterTurns suite earlier)).1.checks.nonce = true ∧
      ∃ policy, t.policy? = some policy ∧
        ∀ before rule after guard, policy.customRules = before ++ rule :: after →
          rule.guard? = some guard →
          ∃ outcome, (t.verify suite (w.afterTurns suite earlier)).1.compliance.rules[
              before.length]? = some outcome ∧
            outcome.rule = rule.name ∧
            (outcome.passed = true ↔
              guard ∉ t.shownBefore policy before ∨ ¬ (w.guards guard).Recognizes) := by
  rw [List.forall_mem_cons] at hlib
  rcases Verifier.verify_cryptographic_iff.1 hgenuine with ⟨e, hresult, hcrypto⟩
  rcases Verifier.gather_eq_ok_iff.1 hresult with ⟨hreceived, hpolicy, -⟩
  rw [hr] at hreceived
  have hreceived := Except.ok.inj hreceived
  rw [hreceived] at hform hunused
  -- When the checks are made the nonce was shown to nobody.
  have hbefore : ∀ moment, ShownTo e.received.params.nonce moment [] w.guards
      (w.afterTurns suite earlier).guards :=
    fun moment => afterTurns_shownTo hlib.2 hunused (Guards.shownTo_of_empty hempty _ moment)
  have hexamined := Verifier.examine_first (v := t.verifier)
    (w := ((w.afterTurns suite earlier).advance t.pause).advance
      (t.verifier.gather t.headers t.options t.abort).elapsed)
    hcrypto hform (hlib.1 _ _ hpolicy) (hbefore _)
  have hshows : t.verifier.checkShows suite t.message e
      = if e.policy.verifyNonce then t.verifier.config.replayGuard.toList else [] := by
    rw [Verifier.checkShows, hcrypto, hform, Bool.true_and, Bool.and_true]
  rw [hshows] at hexamined
  simp only [verify, Verifier.verify, hresult]
  exact ⟨hexamined.1, e.policy, hpolicy, hexamined.2⟩

/-- Two rules of a policy share a guard, and a request without a signature came before. The first
rule is passed, and the second one is not: its guard was asked by the first. -/
theorem first_use_two_rules :
    let policy : Policy :=
      { name := "standard"
        customRules := [.ofLibrary (.nonceUniqueness 1), .ofLibrary (.replayProtection 1)] }
    let v : Verifier := ⟨{ policies := ⟨.ofList [("standard", policy)]⟩, replayGuard := some 0 }⟩
    let turn (m : Message) : Turn :=
      { message := m, headers := m.headers, options := { publicKey := some Sample.publicKey },
        verifier := v, pause := 1000 }
    let w : World := { clock := ⟨1700000060, 0⟩, random := fun _ => .zero 16 }
    let verdict := ((turn Sample.signed).verify Sample.suite
      (w.afterTurns Sample.suite [turn Sample.request])).1
    verdict.checks.nonce = true ∧
      (∃ outcome, verdict.compliance.rules[0]? = some outcome ∧ outcome.passed = true) ∧
      ∃ outcome, verdict.compliance.rules[1]? = some outcome ∧ outcome.passed = false := by
  intro policy v turn w verdict
  have hlib : ∀ u ∈ [turn Sample.signed, turn Sample.request], u.verifier.UsesLibrary := by
    have hv : v.UsesLibrary :=
      Verifier.usesLibrary_of_one [.nonceUniqueness 1, .replayProtection 1] rfl rfl
    simp only [List.forall_mem_cons, List.not_mem_nil, false_imp_iff, implies_true, and_true]
    exact ⟨hv, hv⟩
  rcases map_eq_ok.1 (show (Received.ofHeaders Sample.signed.headers).map (·.params.nonce)
    = .ok Sample.nonce by decide +kernel) with ⟨r, hr, hnonce⟩
  have hform : isValidNonce r.params.nonce = true := by
    rw [hnonce]
    decide +kernel
  have hunused : ∀ u ∈ [turn Sample.request], ¬ u.Carries r.params.nonce := by
    intro u hu hcarries
    rw [List.mem_singleton.1 hu] at hcarries
    rcases hcarries with ⟨r', hr', -⟩
    have hfails : (Received.ofHeaders Sample.request.headers).isOk = false := by decide +kernel
    rw [show Received.ofHeaders Sample.request.headers = .ok r' from hr'] at hfails
    exact Bool.noConfusion hfails
  have hgenuine : ((turn Sample.signed).verify Sample.suite
      (w.afterTurns Sample.suite [turn Sample.request])).1.checks.cryptographic = true := by
    decide +kernel
  rcases @first_use Sample.suite (turn Sample.signed) w [turn Sample.request] r (fun _ => rfl) hlib
    hr hform hunused hgenuine with ⟨hvalid, policy', hpolicy, hrules⟩
  rw [← Option.some.inj (show some policy = some policy' from hpolicy)] at hrules
  have hunique := hrules [] (.ofLibrary (.nonceUniqueness 1)) [.ofLibrary (.replayProtection 1)] 1
    rfl rfl
  have hreplay := hrules [.ofLibrary (.nonceUniqueness 1)] (.ofLibrary (.replayProtection 1)) [] 1
    rfl rfl
  rcases hunique with ⟨first, hfirst, -, hpassed⟩
  rcases hreplay with ⟨second, hsecond, -, hfailed⟩
  unfold verdict
  refine ⟨hvalid, ⟨first, hfirst, hpassed.2 (Or.inl ?_)⟩, second, hsecond, ?_⟩
  · decide
  · -- The guard has room, and a retention of an hour.
    rw [Bool.eq_false_iff, Ne, hfailed, not_or, not_not, not_not]
    exact ⟨by decide, by decide, by decide⟩

/-- A verifier and a rule of its policy share a guard that is empty. The one genuine request of a
well-formed nonce passes the nonce check, and the rule calls it a replay. -/
theorem first_use_shared_guard :
    let policy : Policy :=
      { name := "standard", customRules := [.ofLibrary (.replayProtection 0)] }
    let v : Verifier := ⟨{ policies := ⟨.ofList [("standard", policy)]⟩, replayGuard := some 0 }⟩
    let w : World := { clock := ⟨1700000060, 0⟩, random := fun _ => .zero 16 }
    let verdict := (v.verify Sample.suite Sample.signed Sample.signed.headers
      { publicKey := some Sample.publicKey } .never w).1
    v.UsesLibrary ∧ (∀ id, (w.guards id).seen.entries = []) ∧
      isValidNonce Sample.nonce = true ∧ verdict.signature.nonce = Sample.nonce ∧
      verdict.checks.cryptographic = true ∧ verdict.checks.nonce = true ∧
      verdict.compliance.rules.map (·.passed) = [false] := by
  intro policy v w verdict
  exact ⟨Verifier.usesLibrary_of_one [.replayProtection 0] rfl rfl, fun _ => rfl,
    by decide +kernel⟩

end Turn

end SignedHttp
