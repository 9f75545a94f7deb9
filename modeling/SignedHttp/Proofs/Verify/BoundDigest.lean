import SignedHttp.Proofs.Crypto.Suite
import SignedHttp.Proofs.Digest
import SignedHttp.Proofs.Signature.Binding
import SignedHttp.Verify.Verifier

/-!
# A Covered Digest Stands for the Body

A body is not among what is signed, its digest is. The digest takes two ways through a
verification. What is signed is the header as it was sent, whatever it looks like. What is
compared with the body is the digest that was read from the header, and of this the text of
the value counts, not the bytes that it decodes to. The two cannot disagree: a digest that
was read is written back as the same header (`Received.digestHeader_eq`), and only the text
that is computed from the body matches (`ContentDigest.matchesBody_iff`). So the header that
was signed is the one that is computed from the body, for the algorithm that it names.

A digest that is covered and was not sent with the signature could still be one of the
message. Then the canonical message can be made, but the check is not passed.

It follows that the signed bytes determine the digest of the body, and the algorithm.

## Main definitions

* `ContentDigest.line`: The line of a digest.
* `CanonicalMessage.Carries`: The lines of the digest are those of one digest.
* `Verifier.PassesDigest`: A covered digest passes the check.

## Theorems

* `digestHeader_of_checkContentDigest`: The header that was sent is that of the body.
* `carries_of_digestHeader`: All lines of the digest are those of the header that was sent.
* `covered_digest_binds`: The signed bytes determine the digest of the body.
-/

namespace SignedHttp

/-- The line of a digest in a canonical message. -/
def ContentDigest.line (d : ContentDigest) : Bytes := componentLine "content-digest" d.headerValue

/-- Where the digest is covered there is the line of this digest, it is covered somewhere, and no
other line begins with its name. -/
structure CanonicalMessage.Carries (c : CanonicalMessage) (d : ContentDigest) : Prop where
  covered : Bytes.ofString "content-digest" ∈ c.covered
  line : ∀ i : Nat, c.covered[i]? = some (Bytes.ofString "content-digest") →
    c.lines[i]? = some d.line
  only : ∀ line ∈ c.lines, (Bytes.quoted "content-digest").isPrefixOf line = true → line = d.line

namespace Verifier

/-- A request, whose headers were read and whose digest is covered, passes the check of the digest
under a policy that makes it. -/
structure PassesDigest (m : Message) (headers : Fields) (e : Evidence) (c : CanonicalMessage) :
    Prop where
  received : Received.ofHeaders headers = .ok e.received
  policy : e.policy.verifyContentDigest = true
  covered : e.received.covers "content-digest" = true
  canonical : e.received.canonical m = .ok c
  passed : checkContentDigest m e = true

variable {m : Message} {headers : Fields} {e : Evidence} {c : CanonicalMessage}

/-- The header of a covered digest that passes the check is the one that is computed. -/
theorem digestHeader_of_checkContentDigest (h : PassesDigest m headers e c) :
    ∃ a, e.received.digestHeader = some (ContentDigest.ofBody a m.body).headerValue := by
  have hpassed := h.passed
  simp only [checkContentDigest, h.policy, Bool.not_true, Bool.false_eq_true, if_false] at hpassed
  cases hdigest : e.received.digest with
  | none =>
      -- Nothing was read of a digest that is covered, which is a failure.
      simp only [hdigest, h.covered, Bool.not_true, Bool.and_false, Bool.false_eq_true] at hpassed
  | some d =>
      simp only [hdigest] at hpassed
      have hd : d = ContentDigest.ofBody d.algorithm m.body :=
        ContentDigest.matchesBody_iff.1 hpassed
      refine ⟨d.algorithm, ?_⟩
      rw [Received.digestHeader_eq h.received, hdigest, Option.map_some, ← hd]

/-- What the name of the digest covers is the header that was sent. -/
theorem eq_of_coveredValue_digest {sent value : Bytes}
    (h : CanonicalMessage.coveredValue m (some sent) "content-digest" = .ok value) :
    value = sent := by
  rw [CanonicalMessage.coveredValue, if_neg (by decide), if_neg (by decide), if_pos rfl] at h
  exact (Except.ok.inj h).symm

/-- All lines of the digest are those of the header that was sent. -/
theorem carries_of_digestHeader {r : Received} {d : ContentDigest}
    (hr : Received.ofHeaders headers = .ok r) (hcovered : r.covers "content-digest" = true)
    (hc : r.canonical m = .ok c) (hsent : r.digestHeader = some d.headerValue) : c.Carries d := by
  rcases Received.canonical_eq_ok_iff.1 hc with ⟨values, hnames, hvalues, rfl⟩
  rw [hsent] at hvalues
  have hline : ∀ v ∈ values, v.1 = Bytes.ofString "content-digest" →
      componentLine v.1 v.2 = d.line := by
    intro v hv hname
    have hvalue := hvalues v hv
    rw [hname] at hvalue ⊢
    rw [eq_of_coveredValue_digest hvalue]
    rfl
  refine ⟨?_, fun i hi => ?_, fun line hmem hprefix => ?_⟩
  · have hmem := List.contains_iff_mem.1 hcovered
    rw [← hnames] at hmem
    exact hmem
  · simp only [CanonicalMessage.ofLines, List.getElem?_map, Option.map_eq_some_iff] at hi
    rcases hi with ⟨v, hv, hname⟩
    rw [getElem?_lines_ofLines hv, hline v (List.mem_of_getElem? hv) hname]
  · have hquote : Ascii.quote ∉ Bytes.ofString "content-digest" := by decide
    rcases mem_lines_ofLines.1 hmem with ⟨v, hv, rfl⟩ | rfl
    · -- The names of values hold no quote, so the line shows its own.
      rw [← List.append_nil (componentLine v.1 v.2)] at hprefix
      have hfree := (Received.isLineName_of_mem hr hnames (hsent ▸ hvalues) v hv).1
      exact hline v hv (name_eq_of_line_begins hquote hfree hprefix).symm
    · -- The last line has another name.
      have hlast := name_eq_of_line_begins hquote (by decide) hprefix
      exact absurd hlast (by decide)

/-- The lines of a covered digest that passes the check are those of the digest of the body, and
requests that pass it with the same signed bytes have bodies with the same digest. -/
theorem covered_digest_binds :
    (∀ m headers e c, PassesDigest m headers e c → ∃ a, c.Carries (.ofBody a m.body)) ∧
      ∀ m₁ headers₁ e₁ c₁ m₂ headers₂ e₂ c₂, PassesDigest m₁ headers₁ e₁ c₁ →
        PassesDigest m₂ headers₂ e₂ c₂ → c₁.text = c₂.text →
        ∃ a : DigestAlgorithm, c₁.Carries (.ofBody a m₁.body) ∧ c₂.Carries (.ofBody a m₂.body) ∧
          a.hash.digest m₁.content = a.hash.digest m₂.content := by
  have hcarries : ∀ {m headers e c a}, PassesDigest m headers e c →
      e.received.digestHeader = some (ContentDigest.ofBody a m.body).headerValue →
      c.Carries (.ofBody a m.body) := fun h hsent =>
    carries_of_digestHeader h.received h.covered h.canonical hsent
  constructor
  · intro m headers e c h
    rcases digestHeader_of_checkContentDigest h with ⟨a, hsent⟩
    exact ⟨a, hcarries h hsent⟩
  · intro m₁ headers₁ e₁ c₁ m₂ headers₂ e₂ c₂ h₁ h₂ htext
    rcases digestHeader_of_checkContentDigest h₁ with ⟨a, hsent₁⟩
    rcases digestHeader_of_checkContentDigest h₂ with ⟨b, hsent₂⟩
    -- The same bytes are signed, so the digest has the same value on both sides.
    rcases Received.exists_value_of_text_eq h₁.received h₂.received h₁.canonical h₂.canonical htext
      (List.contains_iff_mem.1 h₁.covered) with ⟨value, hvalue₁, hvalue₂⟩
    rw [hsent₁] at hvalue₁
    rw [hsent₂] at hvalue₂
    have heq₁ := eq_of_coveredValue_digest (CanonicalMessage.coveredValue_eq_ok_iff.2 hvalue₁)
    have heq₂ := eq_of_coveredValue_digest (CanonicalMessage.coveredValue_eq_ok_iff.2 hvalue₂)
    rcases ContentDigest.ofBody_eq_of_headerValue (heq₁.symm.trans heq₂) with ⟨rfl, hdigest⟩
    exact ⟨a, hcarries h₁ hsent₁, hcarries h₂ hsent₂, hdigest⟩

/-- Two requests with the same signature headers, one without a body and one with an empty body,
pass the check of the digest that they cover. -/
theorem covered_digest_binds_empty :
    let headers : Fields :=
      ⟨[("Content-Digest", "sha-256=:47DEQpj8HBSa+/TImW+5JCeuQeRkm5NMpJWZG3hSuFU=:"),
        ("Signature-Input", "sig1=(\"@method\" \"content-digest\");created=1700000000;" ++
          "keyid=\"k\";alg=\"ed25519\";nonce=\"n\""),
        ("Signature", "sig1=:00:")]⟩
    let message (body : Option Bytes) : Message := ⟨.post, "http://h/", headers, body⟩
    let policy : Policy := { name := "standard" }
    ∃ r c, PassesDigest (message none) headers ⟨r, policy, Sample.publicKey⟩ c ∧
      PassesDigest (message (some [])) headers ⟨r, policy, Sample.publicKey⟩ c ∧
      ∃ a : DigestAlgorithm, c.Carries (.ofBody a none) ∧ c.Carries (.ofBody a (some [])) := by
  intro headers message policy
  rcases exists_ok_of_isOk (show (Received.ofHeaders headers).isOk = true by decide +kernel) with
    ⟨r, hr⟩
  have hread : (Received.ofHeaders headers).map (fun r => (r.covers "content-digest",
      checkContentDigest (message none) ⟨r, policy, Sample.publicKey⟩,
      checkContentDigest (message (some [])) ⟨r, policy, Sample.publicKey⟩,
      (r.canonical (message none)).isOk,
      decide (r.canonical (message none) = r.canonical (message (some [])))))
      = .ok (true, true, true, true, true) := by decide +kernel
  rw [hr] at hread
  simp only [Except.map, Except.ok.injEq, Prod.mk.injEq, decide_eq_true_eq] at hread
  rcases hread with ⟨hcovered, hpassed, hpassed', hok, hsame⟩
  rcases exists_ok_of_isOk hok with ⟨c, hc⟩
  have h : PassesDigest (message none) headers ⟨r, policy, Sample.publicKey⟩ c :=
    ⟨hr, rfl, hcovered, hc, hpassed⟩
  have h' : PassesDigest (message (some [])) headers ⟨r, policy, Sample.publicKey⟩ c :=
    ⟨hr, rfl, hcovered, hsame ▸ hc, hpassed'⟩
  rcases covered_digest_binds.2 _ _ _ _ _ _ _ _ h h' rfl with ⟨a, hcarries, hcarries', -⟩
  exact ⟨r, c, h, h', a, hcarries, hcarries'⟩

end Verifier

end SignedHttp
