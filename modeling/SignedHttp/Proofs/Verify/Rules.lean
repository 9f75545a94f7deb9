import SignedHttp.Proofs.Verify.Checks

/-!
# What the Library's Rules Do

A rule of the library looks at the signature and answers. It leaves the world alone,
with one exception: two of the rules show the nonce to a guard, and they do so if the
signature verified. Which guard that is, if any, can be said before the rule is run
(`LibraryRule.shownTo`), and is all that there is to know about what the rule does
(`judge_world`). Such a rule is passed if the guard calls the nonce new, and that is
all that there is to know about its answer (`judge_passed`).

The nonce check of the verifier is of the same kind. So what an examination under rules
of the library does to the world is to show one nonce to a list of guards, one after the
other, that can be written down beforehand (`examine_world`). The list is empty if the
signature is not genuine.

## Main definitions

* `LibraryRule.guard?`, `Rule.guard?`: The guard that a rule tracks nonces with.
* `LibraryRule.shownTo`, `Rule.shownTo`: The guard that it shows a nonce to.
* `Rule.IsLibrary`, `Verifier.UsesLibrary`: The rules are those of the library.
* `World.showTo`: The world in which a nonce was shown to some guards.
* `Verifier.shows`: The guards that an examination shows the nonce to.

## Theorems

* `judge_world`, `judge_passed`: What a rule does and says.
* `runRules_append`: The rules of a list are run after those before it.
* `runRules_world`: The rules show the nonce to their guards, in order.
* `examine_world`: An examination shows the nonce to its guards.
* `shows_of_unverified`: There are none if the signature is not genuine.
-/

namespace SignedHttp

namespace LibraryRule

/-- The guard that the rule tracks nonces with. -/
def guard? : LibraryRule → Option GuardId
  | nonceUniqueness guard => some guard
  | replayProtection guard => some guard
  | _ => none

/-- Does the rule look at the form of the nonce before it shows it to a guard? -/
def asksForm : LibraryRule → Bool
  | replayProtection _ => true
  | _ => false

/-- The guard that the rule shows the nonce of a signature to. -/
def shownTo (rule : LibraryRule) (c : RuleContext) : Option GuardId :=
  if c.verified && (!rule.asksForm || isValidNonce c.received.params.nonce) then rule.guard?
  else none

end LibraryRule

/-- The world in which the nonce of a signature was shown to some guards, one after the other. -/
def World.showTo (p : Params) : List GuardId → World → World
  | [], w => w
  | id :: ids, w => showTo p ids (w.checkNonce id p.nonce p.created).2.1

theorem World.showTo_append (p : Params) (ids jds : List GuardId) (w : World) :
    w.showTo p (ids ++ jds) = (w.showTo p ids).showTo p jds := by
  induction ids generalizing w with
  | nil => rfl
  | cons id ids ih => exact ih _

namespace LibraryRule

variable {c : RuleContext}

theorem judgeNonce_world (guard : GuardId) (accepted : Bytes) (h : c.verified = true)
    (w : World) :
    (judgeNonce guard accepted c w).2.1
      = (w.checkNonce guard c.received.params.nonce c.received.params.created).2.1 := by
  simp only [judgeNonce, h, if_true]
  split <;> rfl

theorem judgeNonce_passed (guard : GuardId) (accepted : Bytes) (h : c.verified = true)
    (w : World) :
    (judgeNonce guard accepted c w).1.passed
      = (w.checkNonce guard c.received.params.nonce c.received.params.created).1 := by
  simp only [judgeNonce, h, if_true]
  split
  · next hnew => exact hnew.symm
  · next hnew => exact (Bool.eq_false_iff.2 hnew).symm

theorem judgeNonce_unverified (guard : GuardId) (accepted : Bytes) (h : c.verified = false)
    (w : World) : (judgeNonce guard accepted c w).2.1 = w := by
  simp only [judgeNonce, h, Bool.false_eq_true, if_false]

/-- The nonce of an unverified signature is shown to nobody. -/
theorem shownTo_unverified (h : c.verified = false) (rule : LibraryRule) :
    rule.shownTo c = none := by
  simp only [shownTo, h, Bool.false_and, Bool.false_eq_true, if_false]

/-- A rule shows the nonce to the one guard, or does nothing. -/
theorem judge_world (rule : LibraryRule) (c : RuleContext) (w : World) :
    (rule.judge c w).2.1 = w.showTo c.received.params (rule.shownTo c).toList := by
  -- A signature that did not verify is judged without the guard, by whatever rule.
  cases hverified : c.verified with
  | false =>
      rw [shownTo_unverified hverified]
      cases rule with
      | nonceUniqueness guard => exact judgeNonce_unverified guard _ hverified w
      | replayProtection guard =>
          simp only [judge]
          split
          · exact judgeNonce_unverified guard _ hverified w
          · rfl
      | _ => rfl
  | true =>
      cases rule with
      | nonceUniqueness guard =>
          simp only [shownTo, hverified, asksForm, guard?, Bool.not_false, Bool.true_or,
            Bool.and_self, if_true]
          exact judgeNonce_world guard _ hverified w
      | replayProtection guard =>
          simp only [judge, shownTo, hverified, asksForm, guard?, Bool.not_true, Bool.false_or,
            Bool.true_and]
          split
          · exact judgeNonce_world guard _ hverified w
          · rfl
      | _ =>
          simp only [shownTo, guard?, ite_self]
          rfl

/-- A rule that shows the nonce to a guard is passed if it is new to the guard. -/
theorem judge_passed {rule : LibraryRule} {guard : GuardId} (h : rule.shownTo c = some guard)
    (w : World) :
    (rule.judge c w).1.passed
      = (w.checkNonce guard c.received.params.nonce c.received.params.created).1 := by
  rw [shownTo, Option.ite_none_right_eq_some, Bool.and_eq_true] at h
  rcases h with ⟨⟨hverified, hform⟩, hguard⟩
  -- Two kinds of rules have a guard, and the second one asks for the form before.
  cases rule with
  | nonceUniqueness g =>
      rw [← Option.some.inj hguard]
      exact judgeNonce_passed g _ hverified w
  | replayProtection g =>
      rw [← Option.some.inj hguard]
      simp only [asksForm, Bool.not_true, Bool.false_or] at hform
      simp only [judge, hform, if_true]
      exact judgeNonce_passed g _ hverified w
  | _ => cases hguard

end LibraryRule

namespace Rule

/-- The rule does what one of the library's does, under whatever name. -/
def IsLibrary (rule : Rule) : Prop := ∃ r, rule.predicate = some (.library r)

/-- The guard that the rule tracks nonces with. -/
def guard? (rule : Rule) : Option GuardId :=
  match rule.predicate with
  | some (.library r) => r.guard?
  | _ => none

/-- The guard that the rule shows the nonce of a signature to. -/
def shownTo (rule : Rule) (c : RuleContext) : Option GuardId :=
  match rule.predicate with
  | some (.library r) => r.shownTo c
  | _ => none

variable {rule : Rule} {c : RuleContext}

theorem shownTo_unverified (h : c.verified = false) (rule : Rule) : rule.shownTo c = none := by
  rw [shownTo]
  split
  · exact LibraryRule.shownTo_unverified h _
  · rfl

/-- A well-formed nonce of a signature that verified is shown to the guard of the rule. -/
theorem shownTo_verified (h : c.verified = true)
    (hform : isValidNonce c.received.params.nonce = true) (rule : Rule) :
    rule.shownTo c = rule.guard? := by
  simp only [shownTo, guard?, LibraryRule.shownTo, h, hform, Bool.or_true, Bool.and_self, if_true]

/-- A rule of the library does no more to the world than show the nonce. -/
theorem run_world (h : rule.IsLibrary) (w : World) :
    (rule.run c w).2.1 = w.showTo c.received.params (rule.shownTo c).toList := by
  rcases h with ⟨r, hr⟩
  simp only [run, shownTo, hr]
  exact r.judge_world c w

theorem run_passed {guard : GuardId} (h : rule.shownTo c = some guard) (w : World) :
    (rule.run c w).1.passed
      = (w.checkNonce guard c.received.params.nonce c.received.params.created).1 := by
  rw [shownTo] at h
  split at h
  · next r hr =>
    simp only [run, hr]
    exact LibraryRule.judge_passed h w
  · cases h

end Rule

namespace Verifier

/-- All rules of the policies are those of the library. -/
def UsesLibrary (v : Verifier) : Prop :=
  ∀ name policy, v.config.policies.find? name = some policy →
    ∀ rule ∈ policy.customRules, rule.IsLibrary

/-- A verifier with one policy, whose rules are some of the library's. -/
theorem usesLibrary_of_one {v : Verifier} {name : Bytes} {policy : Policy}
    (rules : List LibraryRule) (hrules : policy.customRules = rules.map Rule.ofLibrary)
    (hpolicies : v.config.policies = ⟨.ofList [(name, policy)]⟩) : v.UsesLibrary := by
  intro found policy' hpolicy rule hrule
  rw [hpolicies] at hpolicy
  rcases List.lookup_eq_some_iff.1 hpolicy with ⟨front, back, hentries, -⟩
  have hmem : (found, policy') ∈ [(name, policy)] := by
    rw [show [(name, policy)] = front ++ (found, policy') :: back from hentries]
    exact List.mem_append_right front (List.mem_cons_self ..)
  rw [(Prod.mk.inj (List.mem_singleton.1 hmem)).2, hrules] at hrule
  rcases List.mem_map.1 hrule with ⟨r, -, rfl⟩
  exact ⟨r, rfl⟩

variable {c : RuleContext}

/-- The later rules meet the world that the earlier ones left. -/
theorem runRules_append (rules more : List Rule) (w : World) :
    (runRules c (rules ++ more) w).1
        = (runRules c rules w).1 ++ (runRules c more (runRules c rules w).2.1).1 ∧
      (runRules c (rules ++ more) w).2.1 = (runRules c more (runRules c rules w).2.1).2.1 := by
  induction rules generalizing w with
  | nil => exact ⟨rfl, rfl⟩
  | cons rule rules ih =>
      have hrest := ih (rule.run c w).2.1
      simp only [List.cons_append, runRules]
      exact ⟨congrArg _ hrest.1, hrest.2⟩

theorem length_runRules (rules : List Rule) (w : World) :
    (runRules c rules w).1.length = rules.length := by
  induction rules generalizing w with
  | nil => rfl
  | cons rule rules ih =>
      simp only [runRules, List.length_cons]
      rw [ih]

/-- Rules of the library show the nonce to their guards, one after the other. -/
theorem runRules_world {rules : List Rule} (h : ∀ rule ∈ rules, rule.IsLibrary) (w : World) :
    (runRules c rules w).2.1
      = w.showTo c.received.params (rules.filterMap fun rule => rule.shownTo c) := by
  induction rules generalizing w with
  | nil => rfl
  | cons rule rules ih =>
      rw [List.forall_mem_cons] at h
      simp only [runRules]
      rw [ih h.2, Rule.run_world h.1, ← World.showTo_append]
      -- A rule without a guard to show the nonce to leaves the world as it is.
      cases hguard : rule.shownTo c with
      | none => rw [List.filterMap_cons_none (f := (Rule.shownTo · c)) hguard]; rfl
      | some guard => rw [List.filterMap_cons_some (f := (Rule.shownTo · c)) hguard]; rfl

section Examination

variable {suite : Suite} {v : Verifier} {m : Message} {e : Evidence} {w : World}

/-- The guards that the nonce check shows the nonce to: that of the verifier, or none. -/
def checkShows (suite : Suite) (v : Verifier) (m : Message) (e : Evidence) : List GuardId :=
  if (checkCryptographic suite m e).1 && (e.policy.verifyNonce
      && isValidNonce e.received.params.nonce) then v.config.replayGuard.toList
  else []

/-- The guards that an examination shows the nonce to, in order. -/
def shows (suite : Suite) (v : Verifier) (m : Message) (e : Evidence) : List GuardId :=
  v.checkShows suite m e
    ++ e.policy.customRules.filterMap fun rule => rule.shownTo (ruleContext suite m e)

theorem shownWorld_eq (w : World) :
    v.shownWorld suite m e w = w.showTo e.received.params (v.checkShows suite m e) := by
  rw [shownWorld, checkShows]
  cases hgenuine : (checkCryptographic suite m e).1 with
  | false =>
      -- The nonce of a forged signature is looked at, and kept from the guard.
      refine checkNonce_world (Or.inr ?_)
      rw [guardFor, if_neg (by rw [hgenuine]; exact Bool.false_ne_true)]
  | true =>
      rw [guardFor_of_genuine hgenuine, Bool.true_and]
      split
      · next h =>
        rw [Bool.and_eq_true] at h
        cases hguard : v.config.replayGuard with
        | none => exact checkNonce_world (Or.inr rfl)
        | some id => rw [checkNonce_shown h.1 h.2]; rfl
      · next h => exact checkNonce_world (Or.inl (Bool.not_eq_true _ ▸ h))

/-- An examination shows the nonce to some guards, and does nothing else. -/
theorem examine_world (hrules : ∀ rule ∈ e.policy.customRules, rule.IsLibrary) (w : World) :
    (v.examine suite m e w).2.1 = w.showTo e.received.params (v.shows suite m e) := by
  have hlast : (v.examine suite m e w).2.1
      = (runRules (ruleContext suite m e) e.policy.customRules (v.shownWorld suite m e w)).2.1 :=
    rfl
  rw [hlast, runRules_world hrules, shownWorld_eq, shows, World.showTo_append]
  rfl

theorem shows_of_unverified (h : (checkCryptographic suite m e).1 = false) :
    v.shows suite m e = [] := by
  rw [shows, checkShows, h, Bool.false_and, if_neg Bool.false_ne_true, List.nil_append]
  exact List.filterMap_eq_nil_iff.2 fun rule _ => Rule.shownTo_unverified h rule

end Examination

end Verifier

end SignedHttp
