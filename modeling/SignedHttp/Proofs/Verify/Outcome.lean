import SignedHttp.Proofs.Crypto.Octets
import SignedHttp.Proofs.Crypto.Suite
import SignedHttp.Proofs.Digest
import SignedHttp.Proofs.Except
import SignedHttp.Proofs.Verify.Gathering

/-!
# The Verdict, for Any Message

A verification comes to a verdict whatever the headers, the policy and the rules are. Ten stages
take part in it. The first three gather what there is to check, and if one of them misses
something the verdict is an error that says what is missing (`Verdict.Reports`). The other seven
all take place, each gives yes or no, and the verdict is valid exactly if all say yes. So the
work is to say of each check what its yes means, in terms of the headers that were read, the
policy and the moment of the checks (`Verifier.Satisfies`), and to join these. The policy cannot
ask for nothing: a signature that covers nothing is never valid.

Two of the stages run into failures that are not their own. A canonical message that cannot be
made counts as a signature that is not genuine. A rule that fails with a text
(`Rule.answer`) counts as one that is not passed, and its outcome shows the text; the rules after
it are asked all the same.

## Main definitions

* `Rule.answer`, `Verifier.answers`: What rules give, failures included.
* `Verdict.Reports`: An error, with what is missing.
* `Verifier.Satisfies`: What is asked of a signature.

## Theorems

* `runRules_eq_map_answers`: Every rule is asked, and its outcome shows its answer.
* `checkFormat_iff`, `checkContentDigest_iff`: What these checks ask.
* `status_eq_valid_iff_satisfies`: What all of them ask.
* `invalid_of_uncovered`: A signature that covers nothing is not valid.
* `verify_outcome`: The verdict.
-/

namespace SignedHttp

namespace Rule

/-- What the rule itself gives, a result or a failure, and the world afterwards. -/
def answer (r : Rule) (c : RuleContext) (w : World) : Except Bytes RuleResult × World :=
  match r.predicate with
  | some (.library rule) => (.ok (rule.judge c w).1, (rule.judge c w).2.1)
  | some (.custom f) => f c w
  | none => (.error "bad_function_call", w)

end Rule

/-- How the answer of a rule shows in a verdict. -/
def RuleOutcome.ofAnswer : Rule × Except Bytes RuleResult → RuleOutcome
  | (rule, .ok r) => ⟨rule.name, r.passed, r.message, r.details⟩
  | (rule, .error text) => ⟨rule.name, false, "Rule execution failed: " ++ text, {}⟩

/-- The verdict is an error: no check counts as passed, and the fault says what was missing. -/
structure Verdict.Reports (v : Verdict) (r : Report) : Prop where
  status : v.status = .error
  signatureValid : v.signatureValid = false
  checks : v.checks = ⟨false, false, false, false, false, false, false⟩
  fault : v.fault = some ⟨r.code.name, r.message, r.details⟩

/-- A nonce that the policy accepts: if it looks at nonces, one that is well-formed and new. -/
def Policy.AcceptsNonce (p : Policy) (v : Verifier) (w : World) (nonce : Bytes) : Prop :=
  p.verifyNonce = true → isValidNonce nonce = true ∧ v.IsNewNonce w nonce

/-- What was received of a digest is acceptable for a body: if the policy looks at digests, that
of the body, or none if none is asked for. -/
def Policy.AcceptsDigest (p : Policy) (r : Received) (body : Option Bytes) : Prop :=
  p.verifyContentDigest = true →
    match r.digest with
    | some d => d = .ofBody d.algorithm body
    | none => Bytes.ofString "content-digest" ∉ p.requiredComponents ∧
        Bytes.ofString "content-digest" ∉ r.covered

namespace Verifier

/-- The answers of rules that are asked one after the other. -/
def answers (c : RuleContext) : List Rule → World → List (Rule × Except Bytes RuleResult)
  | [], _ => []
  | r :: rules, w => (r, (r.answer c w).1) :: answers c rules (r.answer c w).2

/-- The answers of the rules of the policy, which are asked when the nonce was shown. -/
def policyAnswers (v : Verifier) (suite : Suite) (m : Message) (e : Evidence) (w : World) :
    List (Rule × Except Bytes RuleResult) :=
  answers (ruleContext suite m e) e.policy.customRules (v.shownWorld suite m e w)

/-- What is asked of a signature in the world of the checks, apart from covering something. -/
structure Satisfies (v : Verifier) (suite : Suite) (m : Message) (e : Evidence) (w : World) :
    Prop where
  created : isValidTimestamp e.received.params.created = true
  window : e.policy.InWindow w.clock.unixTime e.received.params.created
  keyId : e.received.params.keyId ≠ []
  nonce : e.received.params.nonce ≠ []
  algorithm : e.received.params.algorithm = signatureAlgorithm
  allowed : e.received.params.algorithm ∈ e.policy.allowedAlgorithms
  genuine : ∃ raw c, e.received.signature.length = 128 ∧
    Hex.decode e.received.signature = some raw.bytes ∧ e.received.canonical m = .ok c ∧
    suite.verify e.key c.text raw = true
  newNonce : e.policy.AcceptsNonce v w e.received.params.nonce
  digest : e.policy.AcceptsDigest e.received m.body
  coverage : e.policy.Covers e.received.covered
  rules : ∀ a ∈ v.policyAnswers suite m e w, ∃ r, a.2 = .ok r ∧ r.passed = true

variable {v : Verifier} {suite : Suite} {m : Message} {e : Evidence} {w : World}
  {headers : Fields} {o : VerifyOptions} {abort : Abort}

/-- A rule is run by asking it, and a failure of its own is turned into a result. -/
theorem run_eq_answer (rule : Rule) (c : RuleContext) (w : World) :
    (⟨rule.name, (rule.run c w).1.passed, (rule.run c w).1.message, (rule.run c w).1.details⟩ :
        RuleOutcome) = .ofAnswer (rule, (rule.answer c w).1) ∧
      (rule.run c w).2.1 = (rule.answer c w).2 := by
  unfold Rule.run Rule.answer
  cases rule.predicate with
  | none => exact ⟨rfl, rfl⟩
  | some predicate =>
      cases predicate with
      | library rule => exact ⟨rfl, rfl⟩
      | custom f =>
          rcases hanswer : f c w with ⟨_ | r, later⟩
          · simp only [hanswer]
            exact ⟨rfl, trivial⟩
          · simp only [hanswer]
            exact ⟨rfl, trivial⟩

/-- Every rule is asked, and its outcome shows its answer. -/
theorem runRules_eq_map_answers (c : RuleContext) (rules : List Rule) (w : World) :
    (runRules c rules w).1 = (answers c rules w).map .ofAnswer := by
  -- By induction on the rules, since each is asked in the world that the one before it left.
  induction rules generalizing w with
  | nil => rfl
  | cons rule rules ih =>
      rcases run_eq_answer rule c w with ⟨houtcome, hworld⟩
      rw [answers, List.map_cons, ← houtcome, ← hworld, ← ih]
      rfl

/-- An outcome is passed if the rule answered, and said so. -/
theorem ofAnswer_passed_iff {a : Rule × Except Bytes RuleResult} :
    (RuleOutcome.ofAnswer a).passed = true ↔ ∃ r, a.2 = .ok r ∧ r.passed = true := by
  rcases a with ⟨rule, text | r⟩
  · simp only [RuleOutcome.ofAnswer, Bool.false_eq_true, reduceCtorEq, false_and, exists_false]
  · simp only [RuleOutcome.ofAnswer, Except.ok.injEq, exists_eq_left']

theorem rulesAt_iff : v.rulesAt suite m e w = true ↔
    ∀ a ∈ v.policyAnswers suite m e w, ∃ r, a.2 = .ok r ∧ r.passed = true := by
  rw [rulesAt, runRules_eq_map_answers, List.all_map, List.all_eq_true]
  exact forall₂_congr fun _ _ => ofAnswer_passed_iff

/-- The form is right if nothing is empty, the time is one, and the algorithm is allowed. -/
theorem checkFormat_iff : checkFormat e = true ↔
    isValidTimestamp e.received.params.created = true ∧ e.received.params.keyId ≠ [] ∧
      e.received.params.algorithm ≠ [] ∧ e.received.params.nonce ≠ [] ∧
      e.received.params.algorithm ∈ e.policy.allowedAlgorithms ∧ e.received.covered ≠ [] := by
  simp only [checkFormat, Policy.allows, Bool.and_eq_true, Bool.not_eq_true',
    List.isEmpty_eq_false_iff, List.contains_iff_mem, and_assoc]

/-- A nonce passes if the policy accepts it. -/
theorem checkNonce_iff_accepts :
    (checkNonce v.config.replayGuard e w).1 = true ↔
      e.policy.AcceptsNonce v w e.received.params.nonce := by
  unfold Policy.AcceptsNonce
  -- A nonce of another form passes only where it is not looked at.
  by_cases hvalid : isValidNonce e.received.params.nonce = true
  · rw [checkNonce_iff hvalid]
    simp only [hvalid, true_and]
  · cases hverify : e.policy.verifyNonce with
    | true =>
        constructor
        · exact fun hpassed => absurd (isValidNonce_of_checkNonce hverify hpassed) hvalid
        · exact fun haccepts => absurd (haccepts rfl).1 hvalid
    | false =>
        simp only [checkNonce, hverify, Bool.not_false, if_true, Bool.false_eq_true, false_imp_iff]

/-- A digest passes if the policy accepts it for the body. -/
theorem checkContentDigest_iff :
    checkContentDigest m e = true ↔ e.policy.AcceptsDigest e.received m.body := by
  unfold checkContentDigest Policy.AcceptsDigest
  cases e.policy.verifyContentDigest with
  | false => simp only [Bool.not_false, if_true, Bool.false_eq_true, false_imp_iff]
  | true =>
      simp only [Bool.not_true, Bool.false_eq_true, if_false, true_imp_iff]
      -- A digest that was received has to match; without one it depends on what is asked for.
      cases e.received.digest with
      | some d => exact ContentDigest.matchesBody_iff
      | none =>
          simp only [Policy.requires, Received.covers, Bool.and_eq_true, Bool.not_eq_true',
            ← Bool.not_eq_true, List.contains_iff_mem]

/-- All checks are passed exactly if all is satisfied and something is covered. -/
theorem status_eq_valid_iff_satisfies :
    (v.examine suite m e w).1.status = .valid ↔
      v.Satisfies suite m e w ∧ e.received.covered ≠ [] := by
  rw [status_eq_valid_iff, examine_checks, Checks.all_iff]
  simp only [checksAt]
  constructor
  · rintro ⟨hformat, hcrypto, htimestamp, hnonce, hdigest, hcoverage, hrules⟩
    rcases checkFormat_iff.1 hformat with ⟨hcreated, hkeyId, -, hsome, hallowed, hcovered⟩
    rcases checkCryptographic_iff.1 hcrypto with ⟨halgorithm, raw, c, hraw, hc, hverify⟩
    rcases Octets.ofHex?_eq_some_iff.1 hraw with ⟨hlength, hdecode⟩
    -- The nonce of a genuine signature is shown to the guard.
    rw [guardFor_of_genuine hcrypto] at hnonce
    exact ⟨{ created := hcreated
             window := (checkTimestamp_iff hcreated).1 htimestamp
             keyId := hkeyId
             nonce := hsome
             algorithm := halgorithm
             allowed := hallowed
             genuine := ⟨raw, c, hlength, hdecode, hc, hverify⟩
             newNonce := checkNonce_iff_accepts.1 hnonce
             digest := checkContentDigest_iff.1 hdigest
             coverage := checkCoverage_iff.1 hcoverage
             rules := rulesAt_iff.1 hrules }, hcovered⟩
  · rintro ⟨h, hcovered⟩
    rcases h.genuine with ⟨raw, c, hlength, hdecode, hc, hverify⟩
    have hraw := Octets.ofHex?_eq_some_iff.2 ⟨hlength, hdecode⟩
    have hcrypto := checkCryptographic_iff.2 ⟨h.algorithm, raw, c, hraw, hc, hverify⟩
    have halgorithm : e.received.params.algorithm ≠ [] := by
      rw [h.algorithm]
      decide
    rw [guardFor_of_genuine hcrypto]
    exact ⟨checkFormat_iff.2 ⟨h.created, h.keyId, halgorithm, h.nonce, h.allowed, hcovered⟩,
      hcrypto, (checkTimestamp_iff h.created).2 h.window, checkNonce_iff_accepts.2 h.newNonce,
      checkContentDigest_iff.2 h.digest, checkCoverage_iff.2 h.coverage, rulesAt_iff.2 h.rules⟩

/-- A verification that has nothing to check reports why. -/
theorem reports_of_refuses {err : VerificationError} (h : v.Refuses headers o abort err)
    (suite : Suite) (m : Message) (w : World) :
    (v.verify suite m headers o abort w).1.Reports err.report := by
  have hresult := gather_eq_error_iff.2 h
  unfold verify
  simp only [hresult]
  exact ⟨rfl, rfl, rfl, rfl⟩

/-- A verification that has something to check gives the verdict of the examination. -/
theorem verify_of_gathers {elapsed : Nat} (h : v.Gathers headers o abort e elapsed)
    (suite : Suite) (m : Message) (w : World) :
    ∃ performance, (v.verify suite m headers o abort w).1
      = { (v.examine suite m e (w.advance elapsed)).1 with performance } := by
  rcases gather_eq_ok_iff_gathers.2 h with ⟨hresult, rfl⟩
  unfold verify
  simp only [hresult]
  exact ⟨_, rfl⟩

/-- The outcomes of the rules show what they answered. -/
theorem examine_rules : (v.examine suite m e w).1.compliance.rules
    = (v.policyAnswers suite m e w).map .ofAnswer :=
  runRules_eq_map_answers _ _ _

/-- A signature is not genuine without a canonical message. -/
theorem not_satisfies_of_canonical_error {cause : VerificationError}
    (h : e.received.canonical m = .error cause) : ¬ v.Satisfies suite m e w := by
  intro hsatisfies
  rcases hsatisfies.genuine with ⟨_, _, -, -, hc, -⟩
  rw [h] at hc
  cases hc

/-- A rule that fails with a text does not answer that it is passed. -/
theorem not_satisfies_of_answer_error {a : Rule × Except Bytes RuleResult} {text : Bytes}
    (hmem : a ∈ v.policyAnswers suite m e w) (h : a.2 = .error text) :
    ¬ v.Satisfies suite m e w := by
  intro hsatisfies
  rcases hsatisfies.rules a hmem with ⟨r, hr, -⟩
  rw [h] at hr
  cases hr

/-- A signature that covers nothing is not valid, whatever the policy asks. -/
theorem invalid_of_uncovered {elapsed : Nat} (h : v.Gathers headers o abort e elapsed)
    (huncovered : e.received.covered = []) (suite : Suite) (m : Message) (w : World) :
    (v.verify suite m headers o abort w).1.status = .invalid := by
  rcases verify_of_gathers h suite m w with ⟨performance, heq⟩
  rw [heq]
  rcases examine_status_eq suite v m e (w.advance elapsed) with hvalid | hinvalid
  · exact absurd huncovered (status_eq_valid_iff_satisfies.1 hvalid).2
  · exact hinvalid

/-- The verdict is an error exactly if there is nothing to check, and then it reports the first
reason why. Otherwise it names no fault. It is valid exactly if all that is asked is satisfied
and something is covered, and invalid if not. A canonical message that cannot be made and a rule
that fails make it invalid too, and the outcome of such a rule shows its text. -/
theorem verify_outcome (suite : Suite) (v : Verifier) (m : Message) (headers : Fields)
    (o : VerifyOptions) (abort : Abort) (w : World) :
    let verdict := (v.verify suite m headers o abort w).1
    (verdict.status = .error ↔ ∃ err, v.Refuses headers o abort err) ∧
    (∀ err, v.Refuses headers o abort err → verdict.Reports err.report) ∧
    ((∃ err, v.Refuses headers o abort err) ∨ ∃ e elapsed, v.Gathers headers o abort e elapsed) ∧
    ∀ e elapsed, v.Gathers headers o abort e elapsed →
      let later := w.advance elapsed
      verdict.fault = none ∧ (verdict.status = .valid ∨ verdict.status = .invalid) ∧
        (verdict.status = .valid ↔ v.Satisfies suite m e later ∧ e.received.covered ≠ []) ∧
        (∀ cause, e.received.canonical m = .error cause → verdict.status = .invalid) ∧
        verdict.compliance.rules = (v.policyAnswers suite m e later).map .ofAnswer ∧
        ∀ a ∈ v.policyAnswers suite m e later, ∀ text, a.2 = .error text →
          verdict.status = .invalid := by
  intro verdict
  have hverdict : ∀ e elapsed, v.Gathers headers o abort e elapsed → ∃ performance,
      verdict = { (v.examine suite m e (w.advance elapsed)).1 with performance } :=
    fun e elapsed h => verify_of_gathers h suite m w
  have hreports : ∀ err, v.Refuses headers o abort err → verdict.Reports err.report :=
    fun err h => reports_of_refuses h suite m w
  have htotal := refuses_or_gathers v headers o abort
  refine ⟨⟨fun hstatus => ?_, fun ⟨err, h⟩ => (hreports err h).status⟩, hreports, htotal, ?_⟩
  · rcases htotal with hrefuses | ⟨e, elapsed, hgathers⟩
    · exact hrefuses
    · -- What was gathered is examined, which never ends in an error.
      rcases hverdict e elapsed hgathers with ⟨performance, heq⟩
      rw [heq] at hstatus
      exact absurd hstatus (examine_status_ne_error suite v m e _)
  · intro e elapsed hgathers later
    rcases hverdict e elapsed hgathers with ⟨performance, heq⟩
    have hstatus : verdict.status = (v.examine suite m e later).1.status := by rw [heq]
    have hvalid : verdict.status = .valid ↔
        v.Satisfies suite m e later ∧ e.received.covered ≠ [] := by
      rw [hstatus]
      exact status_eq_valid_iff_satisfies
    have heither : verdict.status = .valid ∨ verdict.status = .invalid := by
      rw [hstatus]
      exact examine_status_eq suite v m e later
    have hinvalid : ¬ v.Satisfies suite m e later → verdict.status = .invalid :=
      fun h => heither.resolve_left fun hv => h (hvalid.1 hv).1
    refine ⟨by rw [heq]; rfl, heither, hvalid, ?_, by rw [heq]; exact examine_rules, ?_⟩
    · exact fun cause h => hinvalid (not_satisfies_of_canonical_error h)
    · exact fun a hmem text h => hinvalid (not_satisfies_of_answer_error hmem h)

/-- A request without a signature gets an error that says so. A signed one satisfies what is asked
and is valid, but not under a policy with a rule that fails. -/
theorem verify_outcome_sample :
    let policy : Policy :=
      { name := "standard"
        customRules := [⟨"fails", [], some (.custom fun _ w => (.error "broken", w))⟩] }
    let v : Verifier :=
      ⟨{ policies := ⟨.ofList [("standard", { name := "standard" }), ("failing", policy)]⟩
         publicKeys := .ofList [("k", Sample.publicKey)] }⟩
    let w : World := { clock := ⟨1700000060, 0⟩, random := fun _ => .zero 16 }
    let verdict (m : Message) (name : Bytes) : Verdict :=
      (v.verify Sample.suite m m.headers { policy := some name } .never w).1
    (∃ err, v.Refuses Sample.request.headers { policy := some "standard" } .never err ∧
      (verdict Sample.request "standard").Reports err.report) ∧
    (∃ e, v.Gathers Sample.signed.headers { policy := some "standard" } .never e 0 ∧
      v.Satisfies Sample.suite Sample.signed e w ∧
      (verdict Sample.signed "standard").status = .valid) ∧
    (verdict Sample.signed "failing").status = .invalid := by
  intro policy v w verdict
  have hrequest := verify_outcome Sample.suite v Sample.request Sample.request.headers
    { policy := some "standard" } .never w
  have hsigned := fun name => verify_outcome Sample.suite v Sample.signed Sample.signed.headers
    { policy := some name } .never w
  let r : Received :=
    { signature := Sample.signature.toHex
      covered := ["@method", "date"]
      params := { created := 1700000000, keyId := "k", nonce := Sample.nonce } }
  have hreceived : Received.ofHeaders Sample.signed.headers = .ok r := by decide +kernel
  refine ⟨?_, ⟨⟨r, { name := "standard" }, Sample.publicKey⟩, ?_⟩, ?_⟩
  · have herror : (verdict Sample.request "standard").status = .error := by decide +kernel
    rcases hrequest.1.1 herror with ⟨err, herr⟩
    exact ⟨err, herr, hrequest.2.1 err herr⟩
  · have hgathers : v.Gathers Sample.signed.headers { policy := some "standard" } .never
        ⟨r, { name := "standard" }, Sample.publicKey⟩ 0 :=
      ⟨hreceived, rfl, .configured rfl rfl⟩
    have hvalid : (verdict Sample.signed "standard").status = .valid := by decide +kernel
    exact ⟨hgathers, (((hsigned "standard").2.2.2 _ 0 hgathers).2.2.1.1 hvalid).1, hvalid⟩
  · have hgathers : v.Gathers Sample.signed.headers { policy := some "failing" } .never
        ⟨r, policy, Sample.publicKey⟩ 0 := ⟨hreceived, rfl, .configured rfl rfl⟩
    exact ((hsigned "failing").2.2.2 _ 0 hgathers).2.2.2.2.2 _ List.mem_cons_self "broken" rfl

/-- A genuine signature that covers nothing satisfies a policy that requires nothing, and is not
valid. -/
theorem satisfies_uncovered_invalid :
    let params : Bytes :=
      "created=1700000000;keyid=\"k\";alg=\"ed25519\";nonce=\"" ++ (Sample.nonce ++ "\"")
    let signature : RawSignature := Sample.octets 64
      ("771a6220abaeda2569a904ef533be40610553c015dbcf41331ff40d39d0d5209" ++
        "146eee48bde82e046a565033b2dc733336304290b076b6e75a0ecfff5a443e05")
    let suite : Suite :=
      .single Sample.publicKey ("\"@signature-params\": ();" ++ params) signature
    let m : Message := ⟨.get, "http://h/",
      ⟨[("signature-input", "sig1=(x);" ++ params),
        ("signature", Delimited.render "sig1" signature.toHex)]⟩, none⟩
    let v : Verifier :=
      ⟨{ policies := ⟨.ofList [("standard", { name := "standard" })]⟩
         publicKeys := .ofList [("k", Sample.publicKey)] }⟩
    let w : World := { clock := ⟨1700000060, 0⟩, random := fun _ => .zero 16 }
    ∃ e, v.Gathers m.headers {} .never e 0 ∧ v.Satisfies suite m e w ∧
      (v.verify suite m m.headers {} .never w).1.status = .invalid := by
  intro params signature suite m v w
  let r : Received :=
    { signature := signature.toHex
      covered := []
      params := { created := 1700000000, keyId := "k", nonce := Sample.nonce } }
  have hreceived : Received.ofHeaders m.headers = .ok r := by decide +kernel
  rcases map_eq_ok.1 (show (r.canonical m).map (·.text)
    = .ok ("\"@signature-params\": ();" ++ params) by decide +kernel) with ⟨c, hc, htext⟩
  have hgathers : v.Gathers m.headers {} .never ⟨r, { name := "standard" }, Sample.publicKey⟩ 0 :=
    ⟨hreceived, rfl, .configured rfl rfl⟩
  have hcreated : isValidTimestamp 1700000000 = true := by decide
  have hage : -clockSkew ≤ w.clock.unixTime - 1700000000 := by decide
  have hkeyId : Bytes.ofString "k" ≠ [] := by decide
  have hnonce : Sample.nonce ≠ [] := by decide
  have hform : isValidNonce Sample.nonce = true := by decide +kernel
  -- What is left holds of any signature.
  clear_value signature
  refine ⟨_, hgathers, ?_, invalid_of_uncovered hgathers rfl suite m w⟩
  exact
    { created := hcreated
      window := fun _ => ⟨hage, fun limit hlimit => absurd hlimit (Option.not_mem_none limit)⟩
      keyId := hkeyId
      nonce := hnonce
      algorithm := rfl
      allowed := List.mem_cons_self
      genuine := ⟨signature, c, Octets.length_toHex signature, Hex.decode_encode _, hc,
        Suite.single_verify_iff.2 ⟨rfl, htext, rfl⟩⟩
      newNonce := fun _ => ⟨hform, fun id hid => absurd hid (Option.not_mem_none id)⟩
      digest := fun _ => ⟨List.not_mem_nil, List.not_mem_nil⟩
      coverage := ⟨fun _ h => absurd h List.not_mem_nil, fun _ _ h => absurd h List.not_mem_nil⟩
      rules := fun _ h => absurd h List.not_mem_nil }

end Verifier

end SignedHttp
