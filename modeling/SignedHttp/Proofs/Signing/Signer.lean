import SignedHttp.Proofs.Digest
import SignedHttp.Proofs.Message.Fields
import SignedHttp.Proofs.Signature.Covered
import SignedHttp.Proofs.Signing.Config
import SignedHttp.Signing.Signer

/-!
# What a Signature Is Made Of

A signature that was made is determined by four things: the signer, the message with
the content type that it may have got, the emitted values and the parameters. The
parameters are those that were drawn, and they passed their checks; the emitted
values are those of the components that the message has (`sign_eq_ok`). Everything
else in the result is a function of these.

The headers of the result are set one after the other, so no two have the same name,
and each is found under its own name. The digest header is one of them exactly if the
body is covered.

## Main definitions

* `Signer.prepared`: The message whose components are signed.
* `Signer.carried`: The headers of a signature besides its own two.
* `Signer.canonical`: The canonical message of a call.
* `Signer.made`: The signature over a canonical message.
* `Signer.IsSignature`: What a signature over a canonical message is made of.
* `Signer.Refuses`: Why a message is not signed.

## Theorems

* `signWith_eq_ok_iff`, `sign_eq_ok_iff`: When a signature is made, and which one.
* `sign_eq_ok`: What a signature that was made is made of.
* `refuses_of_sign`: Nothing else stops the signing of a message.
* `isSome_header_of_signWith`: A message that was signed has the required headers.
* `isValidNonce_bytes`: A nonce holds hexadecimal digits and hyphens only.
-/

namespace SignedHttp

/-- The digits of the variant are among the others. -/
theorem Uuid.isHexDigit_of_variant (b : UInt8) :
    (Bytes.ofString "89abAB").contains b = true → Ascii.isHexDigit b = true :=
  Ascii.forall_of_fin (p := fun b =>
    (Bytes.ofString "89abAB").contains b = true → Ascii.isHexDigit b = true) (by decide +kernel) b

/-- Whatever its place, a byte that is admitted is a hexadecimal digit or a hyphen. -/
theorem Uuid.isHexDigit_of_admits {place : Nat} {b : UInt8} (h : admits place b = true) :
    Ascii.isHexDigit b = true ∨ b = Ascii.minus := by
  rw [admits] at h
  -- The places of hyphens come first, then version and variant, then the others.
  split at h
  · exact Or.inr (beq_iff_eq.1 h)
  · split at h
    · rw [beq_iff_eq.1 h]
      decide
    · split at h
      · exact Or.inl (isHexDigit_of_variant b h)
      · exact Or.inl h

theorem Uuid.isHexDigit_of_admitsFrom {s : Bytes} {place : Nat} (h : admitsFrom place s = true) :
    ∀ b ∈ s, Ascii.isHexDigit b = true ∨ b = Ascii.minus := by
  induction s generalizing place with
  | nil => exact fun b hb => absurd hb List.not_mem_nil
  | cons c s ih =>
      rw [admitsFrom, Bool.and_eq_true] at h
      rw [List.forall_mem_cons]
      exact ⟨isHexDigit_of_admits h.1, ih h.2⟩

/-- An admissible nonce holds hexadecimal digits and hyphens only. -/
theorem isValidNonce_bytes {nonce : Bytes} (h : isValidNonce nonce = true) :
    ∀ b ∈ nonce, Ascii.isHexDigit b = true ∨ b = Ascii.minus := by
  rw [isValidNonce, Bool.and_eq_true] at h
  exact Uuid.isHexDigit_of_admitsFrom h.2

/-- An admissible nonce does not end the parameter that it stands in. -/
theorem semicolon_not_mem_of_isValidNonce {nonce : Bytes} (h : isValidNonce nonce = true) :
    Ascii.semicolon ∉ nonce := by
  intro hmem
  rcases isValidNonce_bytes h _ hmem with hdigit | hminus
  · exact absurd hdigit (by decide)
  · exact absurd hminus (by decide)

/-- An admissible time stamp fits into the integers that time stamps are read as. -/
theorem int64_contains_of_isValidTimestamp {created : Int} (h : isValidTimestamp created = true) :
    IntKind.int64.contains created = true := by
  have hleast : IntKind.int64.least = -9223372036854775808 := by decide
  have hgreatest : IntKind.int64.greatest = 9223372036854775807 := by decide
  rw [isValidTimestamp, Bool.and_eq_true, decide_eq_true_eq, decide_eq_true_eq] at h
  unfold earliestTimestamp latestTimestamp at h
  -- The admissible times lie far inside of the range.
  rw [IntKind.contains, hleast, hgreatest, Bool.and_eq_true, decide_eq_true_eq, decide_eq_true_eq]
  omega

namespace Signer

open CanonicalMessage

/-- The message whose components are signed: with a content type, if one is to be added. -/
def prepared (s : Signer) (o : SigningOptions) (m : Message) : Message :=
  m.withHeaders (addedContentType m (s.components o))

/-- The headers of a signature besides its own two: a content type and a digest, if they are
to be added. -/
def carried (s : Signer) (o : SigningOptions) (m : Message) : Fields :=
  match s.digest? o m with
  | some d => (addedContentType m (s.components o)).set "content-digest" d.headerValue
  | none => addedContentType m (s.components o)

/-- The canonical message of a call with given parameters. -/
def canonical (s : Signer) (o : SigningOptions) (m : Message) (p : Params) :
    Except SigningError CanonicalMessage :=
  ofComponents (s.prepared o m) (s.components o) p (s.digest? o m) s.config.strictHeaders

/-- The signature over a canonical message, with given parameters. -/
def made (suite : Suite) (s : Signer) (o : SigningOptions) (m : Message) (p : Params)
    (c : CanonicalMessage) : SigningResult :=
  let signatureInput := s.config.label ++ Ascii.equals :: c.signatureParams
  let signature := Delimited.render s.config.label (suite.sign s.key c.text).toHex
  { signatureInput, signature
    headers := finish (s.carried o m) signatureInput signature
    canonicalMessage := c.text
    params := p }

/-- What a signature over a canonical message is made of. -/
structure IsSignature (suite : Suite) (s : Signer) (o : SigningOptions) (m : Message)
    (c : CanonicalMessage) (r : SigningResult) : Prop where
  canonical : s.canonical o m r.params = .ok c
  text : r.canonicalMessage = c.text
  nonce : isValidNonce r.params.nonce = true
  created : isValidTimestamp r.params.created = true
  keyId : r.params.keyId = s.config.keyId
  algorithm : r.params.algorithm = signatureAlgorithm
  headers : r.headers = finish (s.carried o m)
    (s.config.label ++ Ascii.equals :: r.params.render c.covered)
    (Delimited.render s.config.label (suite.sign s.key c.text).toHex)

/-- What stops the signing of a message: there is nothing to cover, a parameter is not admissible,
a header is missing, or the URL cannot be covered. -/
inductive Refuses (p : Params) (url : Bytes) : SigningError → Prop
  | noComponents : Refuses p url .noComponents
  | nonce : isValidNonce p.nonce = false → Refuses p url (.invalidNonce p.nonce)
  | timestamp : isValidTimestamp p.created = false → Refuses p url (.invalidTimestamp p.created)
  | header (name : Bytes) : Refuses p url (.missingHeader name)
  | url : Refuses p url (.invalidUrl url)

/-- The checks of the parameters change none of them. -/
theorem checkParams_eq_ok_iff {p q : Params} :
    checkParams p = .ok q ↔
      isValidNonce p.nonce = true ∧ isValidTimestamp p.created = true ∧ q = p := by
  rw [checkParams]
  constructor
  · intro h
    split at h
    · cases h
    · next hnonce =>
      split at h
      · cases h
      · next hcreated =>
        rw [Bool.not_eq_true', Bool.not_eq_false] at hnonce hcreated
        exact ⟨hnonce, hcreated, (Except.ok.inj h).symm⟩
  · rintro ⟨hnonce, hcreated, rfl⟩
    rw [hnonce, hcreated]
    rfl

/-- If the parameters fail, it is for the nonce or the time stamp. -/
theorem refuses_of_checkParams {p : Params} {e : SigningError} (h : checkParams p = .error e)
    (url : Bytes) : Refuses p url e := by
  rw [checkParams] at h
  split at h
  · next hnonce =>
    rw [← Except.error.inj h]
    exact .nonce (Bool.not_eq_true' _ ▸ hnonce)
  · split at h
    · next hcreated =>
      rw [← Except.error.inj h]
      exact .timestamp (Bool.not_eq_true' _ ▸ hcreated)
    · cases h

/-- If no values can be taken from the headers, one of them is missing. -/
theorem refuses_of_headerValues {p : Params} {url : Bytes} {m : Message} {strict : Bool}
    {names : List Bytes} {e : SigningError} (h : headerValues m strict names = .error e) :
    Refuses p url e := by
  induction names with
  | nil => cases h
  | cons name names ih =>
      rw [headerValues] at h
      -- A header that is absent is passed over, unless absent headers are an error.
      split at h
      · exact ih (map_eq_error.1 h)
      · split at h
        · rw [← Except.error.inj h]
          exact .header name
        · exact ih h

/-- No canonical message is for want of a header, or for a URL without a target. -/
theorem refuses_of_ofComponents {p : Params} {m : Message} {c : Components}
    {digest : Option ContentDigest} {strict : Bool} {e : SigningError}
    (h : ofComponents m c p digest strict = .error e) : Refuses p m.url e := by
  rw [ofComponents, map_eq_error, componentValues] at h
  -- The target is asked for only if it is covered.
  split at h
  · rcases bind_eq_error.1 h with htarget | ⟨target, -, hrest⟩
    · rw [map_eq_error, targetUri] at htarget
      split at htarget
      · cases htarget
      · rw [← Except.error.inj htarget]
        exact .url
    · rcases bind_eq_error.1 hrest with hheaders | ⟨headers, -, ⟨⟩⟩
      exact refuses_of_headerValues hheaders
  · rcases bind_eq_error.1 h with ⟨⟨⟩⟩ | ⟨target, -, hrest⟩
    rcases bind_eq_error.1 hrest with hheaders | ⟨headers, -, ⟨⟩⟩
    exact refuses_of_headerValues hheaders

/-- Key identifier and algorithm are those of the signer, whatever is drawn. -/
theorem drawParams_spec (s : Signer) (o : SigningOptions) (w : World) :
    (s.drawParams o w).1.keyId = s.config.keyId ∧
      (s.drawParams o w).1.algorithm = signatureAlgorithm :=
  ⟨rfl, rfl⟩

variable {suite : Suite} {s : Signer} {o : SigningOptions} {m : Message} {c : CanonicalMessage}
  {r : SigningResult}

theorem signatureParams_of_canonical {p : Params} (h : s.canonical o m p = .ok c) :
    c.signatureParams = p.render c.covered := by
  rcases map_eq_ok.1 h with ⟨values, -, rfl⟩
  rfl

/-- A message is refused at its first missing header, so it passes if none is missing. -/
theorem checkRequired_eq_ok_iff {u : Unit} :
    s.checkRequired m = .ok u ↔
      ∀ name ∈ s.config.requiredHeaders, (m.header name).isSome = true := by
  have hall : (s.config.requiredHeaders.find? fun name => (m.header name).isNone) = none ↔
      ∀ name ∈ s.config.requiredHeaders, (m.header name).isSome = true := by
    simp only [List.find?_eq_none, Bool.not_eq_true, Option.isNone_eq_false_iff]
  rw [← hall, checkRequired]
  split
  · next name hmissing =>
    rw [hmissing]
    exact ⟨fun h => (nomatch h), fun h => (nomatch h)⟩
  · next hnone => exact ⟨fun _ => hnone, fun _ => rfl⟩

/-- The parameters go through their checks unchanged, and the required headers are looked for in
the message that is signed. -/
theorem signWith_eq_ok_iff {p : Params} :
    s.signWith suite p m o = .ok r ↔
      isValidNonce p.nonce = true ∧ isValidTimestamp p.created = true ∧
        (∀ name ∈ s.config.requiredHeaders, ((s.prepared o m).header name).isSome = true) ∧
        ∃ c, s.canonical o m p = .ok c ∧ r = s.made suite o m p c := by
  rw [signWith]
  constructor
  · intro h
    rcases bind_eq_ok.1 h with ⟨q, hq, hrest⟩
    rcases checkParams_eq_ok_iff.1 hq with ⟨hnonce, hcreated, rfl⟩
    rcases bind_eq_ok.1 hrest with ⟨_, hrequired, hrest⟩
    rcases bind_eq_ok.1 hrest with ⟨c, hc, hresult⟩
    exact ⟨hnonce, hcreated, checkRequired_eq_ok_iff.1 hrequired, c, hc,
      (Except.ok.inj hresult).symm⟩
  · rintro ⟨hnonce, hcreated, hrequired, c, hc, rfl⟩
    have hparams := checkParams_eq_ok_iff.2 ⟨hnonce, hcreated, rfl⟩
    have hthere := checkRequired_eq_ok_iff (u := ()).2 hrequired
    exact bind_eq_ok.2 ⟨p, hparams, bind_eq_ok.2 ⟨(), hthere, bind_eq_ok.2 ⟨c, hc, rfl⟩⟩⟩

/-- Under parameters of the signer a signature is made of what it says it is made of. -/
theorem signWith_eq_ok {p : Params} (hkeyId : p.keyId = s.config.keyId)
    (halgorithm : p.algorithm = signatureAlgorithm) (h : s.signWith suite p m o = .ok r) :
    ∃ c, IsSignature suite s o m c r := by
  rcases signWith_eq_ok_iff.1 h with ⟨hnonce, hcreated, -, c, hc, rfl⟩
  refine ⟨c, hc, rfl, hnonce, hcreated, hkeyId, halgorithm, ?_⟩
  rw [made, signatureParams_of_canonical hc]

/-- Under given parameters a message is refused for one of the reasons. -/
theorem refuses_of_signWith {p : Params} {e : SigningError}
    (h : s.signWith suite p m o = .error e) : Refuses p m.url e := by
  rw [signWith] at h
  rcases bind_eq_error.1 h with hparams | ⟨q, hq, hrest⟩
  · exact refuses_of_checkParams hparams m.url
  · rcases checkParams_eq_ok_iff.1 hq with ⟨-, -, rfl⟩
    rcases bind_eq_error.1 hrest with hrequired | ⟨_, -, hrest⟩
    · rw [checkRequired] at hrequired
      split at hrequired
      · next name _ =>
        rw [← Except.error.inj hrequired]
        exact .header name
      · cases hrequired
    · rcases bind_eq_error.1 hrest with hcanonical | ⟨c, -, ⟨⟩⟩
      -- Preparing the message keeps its URL.
      exact refuses_of_ofComponents (m := s.prepared o m) hcanonical

/-- A message that was signed has the headers that it must have, at least when it is prepared. -/
theorem isSome_header_of_signWith {p : Params} (h : s.signWith suite p m o = .ok r) :
    ∀ name ∈ s.config.requiredHeaders, ((s.prepared o m).header name).isSome = true :=
  (signWith_eq_ok_iff.1 h).2.2.1

/-- A signature is made if there is something to cover, under the parameters that are drawn. -/
theorem sign_eq_ok_iff {w : World} :
    (s.sign suite m o w).1 = .ok r ↔
      (s.components o).isEmpty = false ∧ s.signWith suite (s.drawParams o w).1 m o = .ok r := by
  rw [sign]
  -- Nothing is drawn for a message without components.
  split
  · next hempty =>
    rw [hempty]
    exact ⟨fun h => (nomatch h), fun h => (nomatch h.1)⟩
  · next hsome =>
    rw [Bool.not_eq_true] at hsome
    cases hsign : s.signWith suite (s.drawParams o w).1 m o with
    | error e =>
        simp only [hsign]
        exact ⟨fun h => (nomatch h), fun h => (nomatch h.2)⟩
    | ok r' =>
        simp only [hsign]
        exact ⟨fun h => ⟨hsome, h⟩, fun h => h.2⟩

/-- A message is not signed for one of five reasons, given the parameters that were drawn. -/
theorem refuses_of_sign {w : World} {e : SigningError} (h : (s.sign suite m o w).1 = .error e) :
    Refuses (s.drawParams o w).1 m.url e := by
  rw [sign] at h
  split at h
  · rw [← Except.error.inj h]
    exact .noComponents
  · cases hsign : s.signWith suite (s.drawParams o w).1 m o with
    | error e' =>
        simp only [hsign, Except.error.injEq] at h
        rw [← h]
        exact refuses_of_signWith hsign
    | ok r =>
        simp only [hsign] at h
        cases h

/-- A signature that was made is one under the parameters that were drawn. -/
theorem signWith_of_sign {w : World} (h : (s.sign suite m o w).1 = .ok r) :
    s.signWith suite (s.drawParams o w).1 m o = .ok r :=
  (sign_eq_ok_iff.1 h).2

/-- Nothing of the world is in the parameters of a call that gives nonce and time stamp. -/
theorem drawParams_of_isDeterministic (h : o.isDeterministic = true) (w w' : World) :
    (s.drawParams o w).1 = (s.drawParams o w').1 := by
  rw [SigningOptions.isDeterministic, Bool.and_eq_true] at h
  rcases Option.isSome_iff_exists.1 h.1 with ⟨nonce, hnonce⟩
  rcases Option.isSome_iff_exists.1 h.2 with ⟨created, hcreated⟩
  simp only [drawParams, drawNonce, drawCreated, hnonce, hcreated]

/-- A signature that was made is one over the canonical message of its own parameters. -/
theorem sign_eq_ok {w : World} (h : (s.sign suite m o w).1 = .ok r) :
    ∃ c, IsSignature suite s o m c r :=
  signWith_eq_ok (drawParams_spec s o w).1 (drawParams_spec s o w).2 (signWith_of_sign h)

end Signer

end SignedHttp
