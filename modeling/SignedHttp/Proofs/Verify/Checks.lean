import SignedHttp.Proofs.Store.Replay
import SignedHttp.Verify.Verifier

/-!
# What the Checks Ask

A verdict is made in two parts, gathering and examining, and each check of an
examination looks at one thing. Here it is said for each of them what it asks, in
terms of times, records and lists, so that nobody who reasons about a verdict has to
look into the verifier again.

The checks are made at one moment, that of the end of the gathering: no time passes
between them. The nonce is shown to the guard of the verifier only if the signature is
genuine.

## Main definitions

* `Policy.InWindow`: A time stamp is neither too old nor from the future.
* `Policy.Covers`: Covered components are enough, and not too many.
* `Verifier.IsNewNonce`: The guard of the verifier has no recent record of a nonce.
* `Verifier.checksAt`: The checks that are made in a world.

## Theorems

* `gather_eq_ok_iff`: What there is to check, if nothing is missing.
* `verify_eq_ok`: The verdict of a gathering that missed nothing.
* `checkCryptographic_iff`, `verify_cryptographic_iff`: When a signature is genuine.
* `checkTimestamp_iff`, `checkNonce_iff`, `checkCoverage_iff`: What the checks ask.
* `status_eq_valid_iff`: A signature is valid exactly if all checks are passed.
* `examine_status_eq`: It is valid or invalid, once it is examined.
-/

namespace SignedHttp

theorem Checks.all_iff {c : Checks} :
    c.all = true ↔ c.format = true ∧ c.cryptographic = true ∧ c.timestamp = true ∧
      c.nonce = true ∧ c.contentDigest = true ∧ c.componentCoverage = true ∧
      c.customRules = true := by
  rcases c with ⟨a, b, c, d, e, f, g⟩
  revert a b c d e f g
  decide

namespace Policy

/-- A time stamp that the policy accepts at a moment: neither too old nor from the future. -/
def InWindow (p : Policy) (now created : Int) : Prop :=
  p.verifyTimestamp = true →
    -clockSkew ≤ now - created ∧ ∀ limit ∈ p.maxTimestampAge, now - created ≤ limit

/-- Covered components that the policy accepts: all that are required, and no others if it
says so. -/
def Covers (p : Policy) (covered : List Bytes) : Prop :=
  (∀ name ∈ p.requiredComponents, name ∈ covered) ∧
    (p.rejectExtraComponents = true → ∀ name ∈ covered, name ∈ p.requiredComponents)

end Policy

namespace Verifier

/-- The guard of the verifier, if there is one, has no record of the nonce that still counts. -/
def IsNewNonce (v : Verifier) (w : World) (nonce : Bytes) : Prop :=
  ∀ id ∈ v.config.replayGuard, ∀ seen ∈ (w.guards id).seen.peek nonce,
    (w.guards id).retention < (w.clock.elapsed : Int) - seen

/-- The guard that the nonce of a signature is shown to: none, if it is not genuine. -/
def guardFor (v : Verifier) (suite : Suite) (m : Message) (e : Evidence) : Option GuardId :=
  if (checkCryptographic suite m e).1 then v.config.replayGuard else none

/-- The checks that are made in a world, where it is known whether the rules are passed. -/
def checksAt (v : Verifier) (suite : Suite) (m : Message) (e : Evidence) (w : World)
    (rules : Bool) : Checks :=
  { format := checkFormat e
    cryptographic := (checkCryptographic suite m e).1
    timestamp := checkTimestamp w.clock.unixTime e
    nonce := (checkNonce (v.guardFor suite m e) e w).1
    contentDigest := checkContentDigest m e
    componentCoverage := checkCoverage e
    customRules := rules }

/-- What the rules get to look at. -/
def ruleContext (suite : Suite) (m : Message) (e : Evidence) : RuleContext :=
  ⟨m, e.received, e.policy.name, e.key, (checkCryptographic suite m e).1⟩

/-- The world in which the rules are run: the nonce was shown. -/
def shownWorld (v : Verifier) (suite : Suite) (m : Message) (e : Evidence) (w : World) : World :=
  (checkNonce (v.guardFor suite m e) e w).2.1

/-- Are all rules passed, if they are run as soon as the nonce was shown? -/
def rulesAt (v : Verifier) (suite : Suite) (m : Message) (e : Evidence) (w : World) : Bool :=
  (runRules (ruleContext suite m e) e.policy.customRules (v.shownWorld suite m e w)).1.all
    (·.passed)

variable {v : Verifier} {e : Evidence} {m : Message} {w : World}

theorem guardFor_of_genuine {suite : Suite} (h : (checkCryptographic suite m e).1 = true) :
    v.guardFor suite m e = v.config.replayGuard := by
  rw [guardFor, if_pos h]

section Gathering

variable {headers : Fields} {o : VerifyOptions} {abort : Abort}

/-- What is gathered is what was received, the policy and the key, all three there. -/
theorem gather_eq_ok_iff :
    (v.gather headers o abort).result = .ok e ↔
      Received.ofHeaders headers = .ok e.received ∧
        v.config.policies.find? (o.policy.getD v.config.defaultPolicy) = some e.policy ∧
        (v.findKey o (o.keyId.getD e.received.params.keyId) abort).1 = .ok e.key := by
  constructor
  · intro h
    -- The three steps are made in this order, and one that fails ends the gathering.
    rw [gather] at h
    split at h
    · cases h
    · next received hreceived =>
      simp only [PolicyRegistry.get] at h
      cases hpolicy : v.config.policies.find? (o.policy.getD v.config.defaultPolicy) with
      | none =>
          rw [hpolicy] at h
          cases h
      | some policy =>
          rw [hpolicy] at h
          cases hkey : (v.findKey o (o.keyId.getD received.params.keyId) abort).1 with
          | error _ =>
              simp only [hkey] at h
              cases h
          | ok key =>
              simp only [hkey] at h
              rw [← Except.ok.inj h]
              exact ⟨hreceived, rfl, hkey⟩
  · intro h
    rcases h with ⟨hreceived, hpolicy, hkey⟩
    simp only [gather, hreceived, PolicyRegistry.get, hpolicy, hkey]

/-- The time of a gathering that missed nothing is that of finding the key. -/
theorem gather_elapsed (h : (v.gather headers o abort).result = .ok e) :
    (v.gather headers o abort).elapsed
      = (v.findKey o (o.keyId.getD e.received.params.keyId) abort).2.1 := by
  rcases gather_eq_ok_iff.1 h with ⟨hreceived, hpolicy, hkey⟩
  simp only [gather, hreceived, PolicyRegistry.get, hpolicy, hkey]

end Gathering

/-- Status and checks of a verdict are those of the examination. -/
theorem verify_eq_ok {headers : Fields} {o : VerifyOptions} {abort : Abort}
    (h : (v.gather headers o abort).result = .ok e) (suite : Suite) (m : Message) (w : World) :
    (v.verify suite m headers o abort w).1.checks
        = (v.examine suite m e (w.advance (v.gather headers o abort).elapsed)).1.checks ∧
      (v.verify suite m headers o abort w).1.status
        = (v.examine suite m e (w.advance (v.gather headers o abort).elapsed)).1.status := by
  simp only [verify, h]
  exact ⟨trivial, trivial⟩

theorem examine_checks (suite : Suite) :
    (v.examine suite m e w).1.checks = v.checksAt suite m e w (v.rulesAt suite m e w) := rfl

theorem status_eq_valid_iff {suite : Suite} :
    (v.examine suite m e w).1.status = .valid ↔ (v.examine suite m e w).1.checks.all = true := by
  have hstatus : (v.examine suite m e w).1.status
      = if (v.examine suite m e w).1.checks.all = true then .valid else .invalid := rfl
  rw [hstatus]
  split
  · next hall => exact ⟨fun _ => hall, fun _ => rfl⟩
  · next hall =>
    constructor
    · intro h
      cases h
    · exact fun h => absurd h hall

/-- An examination ends with a verdict that is valid or invalid. -/
theorem examine_status_eq (suite : Suite) (v : Verifier) (m : Message) (e : Evidence)
    (w : World) : (v.examine suite m e w).1.status = .valid ∨
      (v.examine suite m e w).1.status = .invalid := by
  have hstatus : (v.examine suite m e w).1.status
      = if (v.examine suite m e w).1.checks.all = true then .valid else .invalid := rfl
  rw [hstatus]
  split
  · exact Or.inl rfl
  · exact Or.inr rfl

theorem examine_status_ne_error (suite : Suite) (v : Verifier) (m : Message) (e : Evidence)
    (w : World) : (v.examine suite m e w).1.status ≠ .error := by
  rcases examine_status_eq suite v m e w with h | h
  · rw [h]
    exact Status.noConfusion
  · rw [h]
    exact Status.noConfusion

/-- A signature is genuine if the suite accepts it for what is covered of the message. -/
theorem checkCryptographic_iff {suite : Suite} :
    (checkCryptographic suite m e).1 = true ↔
      e.received.params.algorithm = signatureAlgorithm ∧
        ∃ signature c, Octets.ofHex? 64 e.received.signature = some signature ∧
          e.received.canonical m = .ok c ∧ suite.verify e.key c.text signature = true := by
  constructor
  · intro h
    -- The algorithm is looked at first, then the digits, then what is covered.
    simp only [checkCryptographic] at h
    split at h
    · cases h
    · next halgorithm =>
      split at h
      · cases h
      · next signature hsignature =>
        split at h
        · next c hc => exact ⟨not_not.1 halgorithm, signature, c, hsignature, hc, h⟩
        · cases h
  · intro h
    rcases h with ⟨halgorithm, signature, c, hsignature, hc, hverify⟩
    simp only [checkCryptographic, halgorithm, ne_eq, not_true_eq_false, if_false, hsignature, hc,
      hverify]

/-- A verdict says of a signature that it is genuine if something was gathered and is. -/
theorem verify_cryptographic_iff {suite : Suite} {headers : Fields} {o : VerifyOptions}
    {abort : Abort} :
    (v.verify suite m headers o abort w).1.checks.cryptographic = true ↔
      ∃ e, (v.gather headers o abort).result = .ok e ∧
        (checkCryptographic suite m e).1 = true := by
  cases hresult : (v.gather headers o abort).result with
  | error _ =>
      -- The verdict of a failure says of no check that it was passed.
      simp only [verify, hresult]
      constructor
      · intro h
        cases h
      · rintro ⟨_, ⟨⟩, -⟩
  | ok e =>
      rw [(verify_eq_ok hresult suite m w).1]
      constructor
      · exact fun h => ⟨e, rfl, h⟩
      · intro h
        rcases h with ⟨e', he', hgenuine⟩
        rw [Except.ok.inj he']
        exact hgenuine

theorem verify_cryptographic_of_valid {suite : Suite} {headers : Fields} {o : VerifyOptions}
    {abort : Abort} (h : (v.verify suite m headers o abort w).1.status = .valid) :
    (v.verify suite m headers o abort w).1.checks.cryptographic = true := by
  cases hresult : (v.gather headers o abort).result with
  | error _ =>
      simp only [verify, hresult] at h
      cases h
  | ok e =>
      have hverdict := verify_eq_ok hresult suite m w
      rw [hverdict.2] at h
      rw [hverdict.1]
      exact (Checks.all_iff.1 (status_eq_valid_iff.1 h)).2.1

/-- A time stamp of the right form passes if the policy accepts it at the moment. -/
theorem checkTimestamp_iff {now : Int} (h : isValidTimestamp e.received.params.created = true) :
    checkTimestamp now e = true ↔ e.policy.InWindow now e.received.params.created := by
  simp only [checkTimestamp, Policy.InWindow, h, Bool.true_and, Bool.or_eq_true,
    Bool.not_eq_true', Bool.and_eq_true, decide_eq_true_eq, Option.all_eq_true]
  cases e.policy.verifyTimestamp with
  | false =>
      simp only [Bool.false_eq_true, false_imp_iff, true_or]
  | true =>
      simp only [Bool.true_eq_false, false_or, true_imp_iff, Option.mem_def]

theorem isValidTimestamp_of_checkFormat (h : checkFormat e = true) :
    isValidTimestamp e.received.params.created = true := by
  simp only [checkFormat, Bool.and_eq_true] at h
  exact h.1.1.1.1.1

theorem isValidNonce_of_checkNonce {guard : Option GuardId} (hverify : e.policy.verifyNonce = true)
    (h : (checkNonce guard e w).1 = true) : isValidNonce e.received.params.nonce = true := by
  -- A nonce of another form fails the check before the guard is asked.
  by_contra hvalid
  rw [Bool.not_eq_true] at hvalid
  simp only [checkNonce, hverify, hvalid, Bool.not_true, Bool.not_false, Bool.false_eq_true,
    if_false, if_true] at h

/-- A well-formed nonce that is looked at is shown to the guard. -/
theorem checkNonce_shown (hverify : e.policy.verifyNonce = true)
    (hvalid : isValidNonce e.received.params.nonce = true) (id : GuardId) (w : World) :
    checkNonce (some id) e w
      = w.checkNonce id e.received.params.nonce e.received.params.created := by
  simp only [checkNonce, hverify, hvalid, Bool.not_true, Bool.false_eq_true, if_false]

/-- In all other cases the check leaves the world as it is. -/
theorem checkNonce_world {guard : Option GuardId}
    (h : (e.policy.verifyNonce && isValidNonce e.received.params.nonce) = false ∨ guard = none) :
    (checkNonce guard e w).2.1 = w := by
  simp only [checkNonce]
  split
  · rfl
  · next hverify =>
    split
    · rfl
    · next hvalid =>
      -- The nonce is looked at and well-formed, so it is the guard that is missing.
      rcases h with h | h
      · rw [Bool.not_eq_true', Bool.not_eq_false] at hverify hvalid
        rw [hverify, hvalid] at h
        exact Bool.noConfusion h
      · rw [h]

/-- A nonce of the right form passes if it is new, or not looked at. -/
theorem checkNonce_iff (h : isValidNonce e.received.params.nonce = true) :
    (checkNonce v.config.replayGuard e w).1 = true ↔
      (e.policy.verifyNonce = true → v.IsNewNonce w e.received.params.nonce) := by
  -- Without a policy that looks at it, and without a guard, nothing is asked of the nonce.
  cases hverify : e.policy.verifyNonce with
  | false =>
      simp only [checkNonce, hverify, Bool.not_false, if_true, Bool.false_eq_true, false_imp_iff]
  | true =>
      cases hguard : v.config.replayGuard with
      | none =>
          simp only [checkNonce, hverify, h, IsNewNonce, hguard, Bool.not_true,
            Bool.false_eq_true, if_false, true_imp_iff, true_iff]
          exact fun id hid => absurd hid (Option.not_mem_none id)
      | some id =>
          rw [checkNonce_shown hverify h]
          simp only [IsNewNonce, hguard, true_imp_iff, Option.mem_some_iff, forall_eq']
          exact ReplayGuard.check_new_iff

/-- The coverage passes if the policy accepts what is covered. -/
theorem checkCoverage_iff : checkCoverage e = true ↔ e.policy.Covers e.received.covered := by
  simp only [checkCoverage, coverage, Policy.Covers, Bool.and_eq_true, Bool.or_eq_true,
    Bool.not_eq_true', List.isEmpty_iff, List.filter_eq_nil_iff, Bool.not_eq_false,
    Received.covers, Policy.requires, List.contains_iff_mem]
  -- Nothing is missing on either side; whether something is too much is the policy's choice.
  refine and_congr_right fun _ => ?_
  cases e.policy.rejectExtraComponents with
  | false => simp only [true_or, Bool.false_eq_true, false_imp_iff]
  | true => simp only [Bool.true_eq_false, false_or, true_imp_iff]

end Verifier

end SignedHttp
