import SignedHttp.Proofs.Crypto.Suite
import SignedHttp.Proofs.Signing.Applied
import SignedHttp.Proofs.Verify.Checks

/-!
# Signed Messages Verify

A message to which a signature was applied is one that a verifier with the public key
accepts. The two sides never look at the same data: the signer has components and a
message, the verifier has headers and what it reads out of them. They meet twice.
What the verifier reads are the claims of the signature (`ofHeaders_apply`), and the
canonical message that it makes from them is the one that was signed
(`canonical_apply`).

The message with the signature agrees with the signed one in every header except those
that the signature brings, and these must not be among the components. A digest header
that the message had before would be taken for one of the signature, so there must be
none unless the body is covered.

What is then left to a policy is whether it asks for more than the signature covers,
and to the time of the verification whether the time stamp and the nonce still count.

## Theorems

* `ofHeaders_apply`: What is read of a message with a signature.
* `canonical_apply`: The canonical message of a message with a signature.
* `checkCryptographic_apply`: The signature is genuine.
* `verify_apply_sign`: The verdict on a message with a signature.
-/

namespace SignedHttp

namespace Signer

namespace IsSignature

variable {suite : Suite} {s : Signer} {o : SigningOptions} {m : Message} {c : CanonicalMessage}
  {r : SigningResult}

/-- What is received of a message with a signature is what the signature claims. -/
theorem ofHeaders_apply (h : IsSignature suite s o m c r)
    (hlabel : isValidLabel s.config.label = true)
    (hnames : ∀ name ∈ (s.components o).headers, isValidHeaderName name = true)
    (hdigest : (s.components o).contentDigest = false → m.header "content-digest" = none)
    (hcovered : c.covered ≠ []) (hkeyId : Ascii.semicolon ∉ s.config.keyId) :
    Received.ofHeaders (r.apply m).headers = .ok (s.claims suite o m c r.params) := by
  -- The signature's own headers are found in the message as they are in the signature.
  have hwritten : Received.IsWritten (r.apply m).headers (s.claims suite o m c r.params) := by
    refine h.isWritten hlabel hnames ?_ ?_ ?_
    · rw [h.find?_apply, h.find?_signatureInput, Option.some_or]
    · rw [h.find?_apply, h.find?_signature, Option.some_or]
    · rw [h.find?_apply, h.find?_contentDigest, digest?]
      split
      · rw [Option.map_some, Option.some_or]
      · next hcontent =>
        -- There is none in the signature, so the message must not have one either.
        rw [Bool.not_eq_true] at hcontent
        rw [Option.map_none, Option.none_or]
        exact hdigest hcontent
  refine (Received.ofHeaders_written_iff hwritten).2 ⟨hcovered, ?_⟩
  rw [← h.keyId] at hkeyId
  exact hkeyId

/-- What is covered of it gives the text that was signed. -/
theorem canonical_apply (h : IsSignature suite s o m c r)
    (hnames : ∀ name ∈ (s.components o).headers, isValidHeaderName name = true)
    (hown : ∀ name ∈ (s.components o).headers, name.lower ∉ ownHeaders) :
    (s.claims suite o m c r.params).canonical (r.apply m) = .ok c := by
  rcases map_eq_ok.1 h.canonical with ⟨values, hvalues, rfl⟩
  refine map_eq_ok.2 ⟨values, ?_, rfl⟩
  refine CanonicalMessage.coveredValues_of_componentValues hvalues rfl rfl ?_ ?_ ?_
  · -- A listed header is neither the digest nor one of the derived components.
    intro name hname
    refine ⟨fun hdigest => hown name hname ?_, fun hat => ?_⟩
    · rw [hdigest]
      decide
    · exact not_mem_of_isValidHeaderName (hnames name hname) (by decide)
        (List.mem_of_mem_head? hat)
  · exact fun name hname => h.header_apply (hown name hname)
  · intro hdigest
    rw [claims, digest?, if_pos hdigest]
    rfl

/-- Under the public key of the signer the signature is genuine. -/
theorem checkCryptographic_apply (h : IsSignature suite s o m c r)
    (hsuite : ∀ key text, suite.verify (suite.publicKey key) text (suite.sign key text) = true)
    (hnames : ∀ name ∈ (s.components o).headers, isValidHeaderName name = true)
    (hown : ∀ name ∈ (s.components o).headers, name.lower ∉ ownHeaders) (policy : Policy) :
    (Verifier.checkCryptographic suite (r.apply m)
      ⟨s.claims suite o m c r.params, policy, suite.publicKey s.key⟩).1 = true := by
  have halgorithm : (s.claims suite o m c r.params).params.algorithm = signatureAlgorithm :=
    h.algorithm
  have hhex : Octets.ofHex? 64 (s.claims suite o m c r.params).signature
      = some (suite.sign s.key c.text) := Octets.ofHex?_toHex _
  simp only [Verifier.checkCryptographic, halgorithm, ne_eq, not_true_eq_false, if_false, hhex,
    h.canonical_apply hnames hown]
  exact hsuite s.key c.text

/-- What a signer writes has the right form, if its algorithm is allowed. -/
theorem checkFormat_apply (h : IsSignature suite s o m c r) (hkeyId : s.config.keyId ≠ [])
    (hcovered : c.covered ≠ []) {policy : Policy}
    (hpolicy : policy.allows signatureAlgorithm = true) (key : PublicKey) :
    Verifier.checkFormat ⟨s.claims suite o m c r.params, policy, key⟩ = true := by
  -- A nonce that is admissible is not empty.
  have hnonce : r.params.nonce ≠ [] := by
    intro hempty
    have hvalid := h.nonce
    rw [hempty] at hvalid
    exact absurd hvalid (by decide)
  have halgorithm : signatureAlgorithm ≠ [] := by decide
  simp only [Verifier.checkFormat, claims, h.created, h.keyId, h.algorithm, hpolicy,
    Bool.and_eq_true, Bool.not_eq_true', List.isEmpty_eq_false_iff, and_true, true_and]
  exact ⟨⟨⟨hkeyId, halgorithm⟩, hnonce⟩, hcovered⟩

theorem contentDigest_of_mem_covered (h : IsSignature suite s o m c r)
    (hown : ∀ name ∈ (s.components o).headers, name.lower ∉ ownHeaders)
    (hmem : Bytes.ofString "content-digest" ∈ c.covered) :
    (s.components o).contentDigest = true := by
  rcases h.emittedValue_of_mem hmem with ⟨value, hvalue⟩
  -- A listed header does not have this name, so what was emitted is the digest itself.
  generalize hname : Bytes.ofString "content-digest" = name at hvalue
  cases hvalue with
  | method _ => exact absurd hname (by decide)
  | target _ _ => exact absurd hname (by decide)
  | header hheader _ =>
      rw [← hname] at hheader
      exact absurd (by decide) (hown _ hheader)
  | digest hdigest => exact hdigest

/-- The digest that a signature carries is that of the body, and without one the check is
passed if none is asked for. -/
theorem checkContentDigest_apply {policy : Policy} (h : IsSignature suite s o m c r)
    (hown : ∀ name ∈ (s.components o).headers, name.lower ∉ ownHeaders)
    (hpolicy : policy.requires "content-digest" = true →
      Bytes.ofString "content-digest" ∈ c.covered) (key : PublicKey) :
    Verifier.checkContentDigest (r.apply m) ⟨s.claims suite o m c r.params, policy, key⟩
      = true := by
  rw [Verifier.checkContentDigest]
  -- A policy may not look at digests at all.
  split
  · rfl
  · cases hcontent : (s.components o).contentDigest with
    | true =>
        simp only [claims, digest?, hcontent, if_true]
        exact ContentDigest.matchesBody_ofBody _ _
    | false =>
        -- Nothing was sent, and nothing is missed: it is not covered and hence not required.
        have hcovered : ¬ Bytes.ofString "content-digest" ∈ c.covered := by
          intro hmem
          rw [h.contentDigest_of_mem_covered hown hmem] at hcontent
          exact Bool.noConfusion hcontent
        have hcovers : (s.claims suite o m c r.params).covers "content-digest" = false :=
          Bool.eq_false_iff.2 fun hmem => hcovered (List.contains_iff_mem.1 hmem)
        have hrequires : policy.requires "content-digest" = false :=
          Bool.eq_false_iff.2 fun hmem => hcovered (hpolicy hmem)
        have hnone : (s.claims suite o m c r.params).digest = none := by
          rw [claims, digest?, hcontent]
          rfl
        simp only [hnone, hcovers, hrequires, Bool.not_false, Bool.and_self]

end IsSignature

end Signer

namespace Verifier

open Signer

variable {suite : Suite} {config : SigningConfig} {s : Signer} {o : SigningOptions} {m : Message}
  {r : SigningResult} {v : Verifier} {vo : VerifyOptions} {abort : Abort} {policy : Policy}

/-- A verifier that finds the public key of the signer accepts a message with a signature that
covers something: always as genuine, and as valid if the policy asks for no more than the
signature covers, as long as time stamp and nonce count. -/
theorem verify_apply_sign {w : World}
    (hsuite : ∀ key text, suite.verify (suite.publicKey key) text (suite.sign key text) = true)
    (hs : Signer.create config = .ok s) (hkeyId : Ascii.semicolon ∉ config.keyId)
    (hr : (s.sign suite m o w).1 = .ok r)
    (hnames : ∀ name ∈ (s.components o).headers, isValidHeaderName name = true)
    (hown : ∀ name ∈ (s.components o).headers, name.lower ∉ ownHeaders)
    (hdigest : (s.components o).contentDigest = false → m.header "content-digest" = none)
    (hpolicy : v.config.policies.find? (vo.policy.getD v.config.defaultPolicy) = some policy)
    (hkey : (v.findKey vo (vo.keyId.getD config.keyId) abort).1 = .ok (suite.publicKey s.key))
    (now : World) :
    ∃ c, s.canonical o m r.params = .ok c ∧ r.canonicalMessage = c.text ∧ (c.covered ≠ [] →
      let verdict := (v.verify suite (r.apply m) (r.apply m).headers vo abort now).1
      let later := now.advance (v.findKey vo (vo.keyId.getD config.keyId) abort).2.1
      (policy.allows signatureAlgorithm = true → verdict.checks.format = true) ∧
        verdict.checks.cryptographic = true ∧
        ((policy.requires "content-digest" = true →
          Bytes.ofString "content-digest" ∈ c.covered) → verdict.checks.contentDigest = true) ∧
        (policy.allows signatureAlgorithm = true → policy.Covers c.covered →
          policy.customRules = [] →
          (verdict.status = .valid ↔
            policy.InWindow later.clock.unixTime r.params.created ∧
              (policy.verifyNonce = true → v.IsNewNonce later r.params.nonce)))) := by
  rcases create_eq_ok hs with ⟨rfl, hvalid⟩
  rcases SigningConfig.validate_eq_ok_iff.1 hvalid with ⟨hkeyIdValid, _, _, _, hlabel⟩
  rcases sign_eq_ok hr with ⟨c, h⟩
  refine ⟨c, h.canonical, h.text, fun hcovered => ?_⟩
  intro verdict later
  -- What the verifier gathers are the claims of the signature and the key of the signer.
  have hclaims := h.ofHeaders_apply hlabel hnames hdigest hcovered hkeyId
  have hreceived : (s.claims suite o m c r.params).params.keyId = s.config.keyId := h.keyId
  rw [← hreceived] at hkey
  have hgather : (v.gather (r.apply m).headers vo abort).result
      = .ok ⟨s.claims suite o m c r.params, policy, suite.publicKey s.key⟩ :=
    gather_eq_ok_iff.2 ⟨hclaims, hpolicy, hkey⟩
  rcases verify_eq_ok hgather suite (r.apply m) now with ⟨hchecks, hstatus⟩
  rw [gather_elapsed hgather, hreceived] at hchecks hstatus
  rw [examine_checks] at hchecks
  -- The signature is genuine, so its nonce is shown to the guard of the verifier.
  have hgenuine := h.checkCryptographic_apply hsuite hnames hown policy
  have hguard := guardFor_of_genuine (v := v) hgenuine
  have hkeyIdNe : s.config.keyId ≠ [] := by
    intro hempty
    rw [hempty] at hkeyIdValid
    exact absurd hkeyIdValid (by decide)
  rw [show verdict.checks = _ from hchecks, show verdict.status = _ from hstatus]
  refine ⟨fun hallows => h.checkFormat_apply hkeyIdNe hcovered hallows _, hgenuine,
    fun hrequired => h.checkContentDigest_apply hown hrequired _, fun hallows hcovers hrules => ?_⟩
  -- All other checks are passed, so the status depends on the time stamp and the nonce.
  rw [status_eq_valid_iff, examine_checks, Checks.all_iff]
  constructor
  · intro hpassed
    rcases hpassed with ⟨_, _, htimestamp, hnonce, _⟩
    rw [checksAt, hguard] at hnonce
    exact ⟨(checkTimestamp_iff h.created).1 htimestamp, (checkNonce_iff h.nonce).1 hnonce⟩
  · intro hcounts
    rcases hcounts with ⟨hwindow, hnew⟩
    refine ⟨h.checkFormat_apply hkeyIdNe hcovered hallows _, hgenuine,
      (checkTimestamp_iff h.created).2 hwindow, ?_, ?_, checkCoverage_iff.2 hcovers, ?_⟩
    · rw [checksAt, hguard]
      exact (checkNonce_iff h.nonce).2 hnew
    · exact h.checkContentDigest_apply hown
        (fun hrequired => hcovers.1 _ (List.contains_iff_mem.1 hrequired)) _
    · rw [checksAt, rulesAt, hrules]
      rfl

/-- A request with a body is signed and verified, under a policy that asks for the digest, a
time stamp and a nonce that is shown to a guard. -/
theorem verify_apply_sign_post :
    let hex (text : Bytes) : Bytes := (Hex.decode text).getD []
    let key : PrivateKey :=
      ⟨hex "9d61b19deffd5a60ba844af492ec2cc44449c5697b326919703bac031cae7f60", by decide +kernel⟩
    let pub : PublicKey :=
      ⟨hex "d75a980182b10ab7d54bfed3c964073a0ee172f3daa62325af021a68f707511a", by decide +kernel⟩
    let text : Bytes := "\"@method\": POST\n\"@target-uri\": /items?sort=asc\n" ++
      ("\"content-type\": application/json\n" ++
      ("\"content-digest\": sha-256=:RBNvo1WzZ4oRRq0W9+hknpT7T8If536DEMBg9hyq/4o=:\n" ++
      ("\"@signature-params\": (\"@method\" \"@target-uri\" \"content-type\" " ++
      ("\"content-digest\");created=1700000000;keyid=\"key-1\";alg=\"ed25519\";" ++
      "nonce=\"3fa85f64-5717-4562-b3fc-2c963f66afa6\""))))
    let signature : RawSignature :=
      ⟨hex ("871a83bf1560deb53c62f8a7e8bfff058746c5a34da71d297e6a8eb696690ba9" ++
        "a86fa4eb897b14a5c00a59167794ad0f10b2b4b0e5be3a7ed54345231ea27400"), by decide +kernel⟩
    let suite := Suite.recorded key pub text signature
    let s : Signer :=
      ⟨{ keyId := "key-1", privateKey := some key
         components := .create true true ["content-type"] true }, key⟩
    let m : Message := ⟨.post, "https://example.com/items?sort=asc", {}, some "{}"⟩
    let p : Params :=
      { created := 1700000000, keyId := "key-1", nonce := "3fa85f64-5717-4562-b3fc-2c963f66afa6" }
    let o : SigningOptions := { nonce := some p.nonce, created := some p.created }
    let policy : Policy :=
      { name := "standard", maxTimestampAge := some 300
        requiredComponents := ["@method", "content-digest"] }
    let v : Verifier := ⟨{ policies := ⟨.ofList [("standard", policy)]⟩, replayGuard := some 0 }⟩
    let vo : VerifyOptions := { publicKey := some pub }
    let w : World := { clock := ⟨1700000060, 0⟩, random := fun _ => .zero 16 }
    Signer.create s.config = .ok s ∧ ∃ r, (s.sign suite m o w).1 = .ok r ∧
      (v.verify suite (r.apply m) (r.apply m).headers vo .never w).1.status = .valid := by
  intro hex key pub text signature suite s m p o policy v vo w
  have hsuite := Suite.recorded_verify_sign key text signature
    (show pub ≠ .zero 32 by decide +kernel)
  have hs : Signer.create s.config = .ok s := rfl
  have hpolicy : v.config.policies.find? (vo.policy.getD v.config.defaultPolicy)
      = some policy := rfl
  have hkey : (v.findKey vo (vo.keyId.getD s.config.keyId) .never).1
      = .ok (suite.publicKey s.key) := by
    rw [show suite.publicKey s.key = pub from Suite.recorded_publicKey key pub text signature]
    rfl
  rcases exists_ok_of_isOk (show (s.sign suite m o w).1.isOk = true from rfl) with ⟨r, hr⟩
  have hparams : r.params = p := by
    have hsigned : (s.sign suite m o w).1.map (·.params) = .ok p := rfl
    rw [hr] at hsigned
    exact Except.ok.inj hsigned
  rcases verify_apply_sign hsuite hs (by decide) hr (by decide) (by decide) (fun _ => rfl) hpolicy
    hkey w with ⟨c, hc, -, hverdict⟩
  have hcovered : c.covered = [Bytes.ofString "@method", Bytes.ofString "@target-uri",
      Bytes.ofString "content-type", Bytes.ofString "content-digest"] := by
    have hnames : (s.canonical o m r.params).map (·.covered) = .ok [Bytes.ofString "@method",
        Bytes.ofString "@target-uri", Bytes.ofString "content-type",
        Bytes.ofString "content-digest"] := rfl
    rw [hc] at hnames
    exact Except.ok.inj hnames
  rw [hcovered, hparams] at hverdict
  rcases hverdict (by decide) with ⟨-, -, -, hvalid⟩
  refine ⟨hs, r, hr, (hvalid (by decide) ?_ rfl).2 ⟨?_, ?_⟩⟩
  · exact ⟨by decide, by decide⟩
  · exact fun _ => ⟨by decide, by decide⟩
  · exact fun _ id _ seen hseen => absurd hseen (Option.not_mem_none seen)

end Verifier

end SignedHttp
