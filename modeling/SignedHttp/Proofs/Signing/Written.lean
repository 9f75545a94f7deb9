import SignedHttp.Proofs.Crypto.Octets
import SignedHttp.Proofs.Signature.Written
import SignedHttp.Proofs.Signing.Signer

/-!
# What Is Read of a Signature

A signature that was made carries its own claims: a reader of its headers takes out
the label, the signature, the emitted components, the parameters and the digest that
the signer put in.

The join of the two sides is `IsSignature.isWritten`. On the one side the signer's
configuration is valid and the parameters passed their checks; on the other side the
reader asks for parts that are free of its delimiters. Validation gives the reader
everything it asks for but two things: that something was emitted, and that the key
identifier holds no semicolon.

## Main definitions

* `Signer.claims`: What the headers of a signature claim.
* `Signer.ReadsBack`: A reader takes out what was put in.

## Theorems

* `isWritableName_of_emittedValue`: The name of an emitted value is read back.
* `find?_signatureInput`, `find?_signature`, `find?_contentDigest`: The headers of a
  signature, each under its name.
* `isWritten`: The headers of a signature say what it claims.
* `read_sign_iff`: When the headers of a signature are read as they were made.
-/

namespace SignedHttp

/-- A token is not empty, and holds no byte that is not one of a token. -/
theorem not_mem_of_isValidHeaderName {name : Bytes} (h : isValidHeaderName name = true)
    {b : UInt8} (hb : isTokenByte b = false) : b ∉ name := by
  rw [isValidHeaderName, Bool.and_eq_true, List.all_eq_true] at h
  intro hmem
  -- All bytes of a token are token bytes, and this one is not.
  have htoken := h.2 b hmem
  rw [hb] at htoken
  exact Bool.noConfusion htoken

theorem ne_nil_of_isValidHeaderName {name : Bytes} (h : isValidHeaderName name = true) :
    name ≠ [] := by
  intro hempty
  subst hempty
  exact absurd h (by decide)

/-- A header name holds neither the quote nor the space that would end it in the list. -/
theorem isWritableName_of_isValidHeaderName {name : Bytes} (h : isValidHeaderName name = true) :
    IsWritableName name :=
  ⟨ne_nil_of_isValidHeaderName h, not_mem_of_isValidHeaderName h (by decide),
    not_mem_of_isValidHeaderName h (by decide)⟩

/-- What is emitted can be listed: it is a header, or has one of three fixed names. -/
theorem isWritableName_of_emittedValue {m : Message} {c : Components} {digest name value : Bytes}
    (hheaders : ∀ name ∈ c.headers, isValidHeaderName name = true)
    (h : EmittedValue m c digest name value) : IsWritableName name := by
  cases h with
  | method _ => exact ⟨by decide, by decide, by decide⟩
  | target _ _ => exact ⟨by decide, by decide, by decide⟩
  | header hname _ => exact isWritableName_of_isValidHeaderName (hheaders name hname)
  | digest _ => exact ⟨by decide, by decide, by decide⟩

namespace Signer

/-- What the headers of a signature over a canonical message claim. -/
def claims (suite : Suite) (s : Signer) (o : SigningOptions) (m : Message)
    (c : CanonicalMessage) (p : Params) : Received :=
  { label := s.config.label
    signature := (suite.sign s.key c.text).toHex
    covered := c.covered
    params := p
    digest := s.digest? o m
    digestHeader := (s.digest? o m).map ContentDigest.headerValue }

theorem distinct_addedContentType (m : Message) (c : Components) :
    (addedContentType m c).Distinct := by
  rw [addedContentType]
  split
  · exact Fields.distinct_empty.setList _
  · exact Fields.distinct_empty

/-- Only a content type is added. -/
theorem find?_addedContentType {name : Bytes} (h : sameName name "content-type" = false)
    (m : Message) (c : Components) : (addedContentType m c).find? name = none := by
  rw [addedContentType]
  split
  · exact Fields.find?_set_other h _ {}
  · rfl

variable {suite : Suite} {s : Signer} {o : SigningOptions} {m : Message} {c : CanonicalMessage}
  {r : SigningResult}

theorem distinct_carried : (s.carried o m).Distinct := by
  rw [carried]
  split
  · exact (distinct_addedContentType m _).set _ _
  · exact distinct_addedContentType m _

/-- The digest is carried exactly if there is one. -/
theorem find?_carried_digest :
    (s.carried o m).find? "content-digest" = (s.digest? o m).map ContentDigest.headerValue := by
  rw [carried]
  split
  · next d hd =>
    rw [hd, Fields.find?_set_same (by decide), Option.map_some]
  · next hd =>
    rw [hd, find?_addedContentType (by decide), Option.map_none]

theorem find?_carried_other {name : Bytes} (h : sameName name "content-digest" = false) :
    (s.carried o m).find? name = (addedContentType m (s.components o)).find? name := by
  rw [carried]
  split
  · exact Fields.find?_set_other h _ _
  · rfl

namespace IsSignature

theorem distinct_headers (h : IsSignature suite s o m c r) : r.headers.Distinct := by
  rw [h.headers, finish]
  exact (distinct_carried.set _ _).set _ _

theorem find?_signatureInput (h : IsSignature suite s o m c r) :
    r.headers.find? "signature-input"
      = some (s.config.label ++ Ascii.equals :: r.params.render c.covered) := by
  rw [h.headers, finish, Fields.find?_set_other (by decide), Fields.find?_set_same (by decide)]

theorem find?_signature (h : IsSignature suite s o m c r) :
    r.headers.find? "signature"
      = some (Delimited.render s.config.label (suite.sign s.key c.text).toHex) := by
  rw [h.headers, finish, Fields.find?_set_same (by decide)]

/-- Under any other name there is what the signature carries besides its own headers. -/
theorem find?_other (h : IsSignature suite s o m c r) {name : Bytes}
    (hinput : sameName name "signature-input" = false)
    (hsignature : sameName name "signature" = false) :
    r.headers.find? name = (s.carried o m).find? name := by
  rw [h.headers, finish, Fields.find?_set_other hsignature, Fields.find?_set_other hinput]

theorem find?_contentDigest (h : IsSignature suite s o m c r) :
    r.headers.find? "content-digest" = (s.digest? o m).map ContentDigest.headerValue := by
  rw [h.find?_other (by decide) (by decide), find?_carried_digest]

/-- What is listed was emitted, with a value. -/
theorem emittedValue_of_mem (h : IsSignature suite s o m c r) {name : Bytes}
    (hname : name ∈ c.covered) : ∃ value, EmittedValue (s.prepared o m) (s.components o)
      (CanonicalMessage.digestValue (s.prepared o m) (s.digest? o m)) name value := by
  rcases map_eq_ok.1 h.canonical with ⟨values, hvalues, rfl⟩
  rcases List.mem_map.1 hname with ⟨e, he, rfl⟩
  exact ⟨e.2, CanonicalMessage.emittedValue_of_mem hvalues e he⟩

/-- Headers that agree with those of a signature say what the signature claims. -/
theorem isWritten (h : IsSignature suite s o m c r) {headers : Fields}
    (hlabel : isValidLabel s.config.label = true)
    (hnames : ∀ name ∈ (s.components o).headers, isValidHeaderName name = true)
    (hinput : headers.find? "signature-input" = r.headers.find? "signature-input")
    (hsignature : headers.find? "signature" = r.headers.find? "signature")
    (hdigest : headers.find? "content-digest" = r.headers.find? "content-digest") :
    Received.IsWritten headers (s.claims suite o m c r.params) where
  input := by rw [hinput, h.find?_signatureInput]; rfl
  signature := by rw [hsignature, h.find?_signature]; rfl
  digestHeader := by rw [hdigest, h.find?_contentDigest]; rfl
  digest := by
    -- The digest is one of the body, so its header value reads as that digest.
    unfold claims digest?
    split
    · exact mapM_eq_ok.2 (Or.inr ⟨_, _, rfl, ContentDigest.parse_headerValue_ofBody _ _, rfl⟩)
    · exact mapM_eq_ok.2 (Or.inl ⟨rfl, rfl⟩)
  label := equals_not_mem_of_isValidLabel hlabel
  value := by
    -- A signature has bytes, so its digits are some.
    refine ⟨fun hempty => ?_, Octets.colon_not_mem_toHex _⟩
    have hlength := Octets.length_toHex (suite.sign s.key c.text)
    rw [show (suite.sign s.key c.text).toHex = [] from hempty] at hlength
    exact absurd hlength (by decide)
  names := by
    intro name hname
    rcases h.emittedValue_of_mem hname with ⟨value, hvalue⟩
    exact isWritableName_of_emittedValue hnames hvalue
  created := int64_contains_of_isValidTimestamp h.created
  algorithm := by
    rw [show (s.claims suite o m c r.params).params.algorithm = signatureAlgorithm
      from h.algorithm]
    decide
  nonce := semicolon_not_mem_of_isValidNonce h.nonce

end IsSignature

/-- A signer has the configuration that it was made of, with the key that this holds. -/
theorem create_eq_ok {config : SigningConfig} (h : create config = .ok s) :
    s.config = config ∧ config.validate = .ok s.key := by
  rcases map_eq_ok.1 h with ⟨key, hkey, rfl⟩
  exact ⟨rfl, hkey⟩

/-- A reader takes out of the headers what the signature was made of. -/
def ReadsBack (suite : Suite) (s : Signer) (c : CanonicalMessage) (r : SigningResult) : Prop :=
  ∃ x, Received.ofHeaders r.headers = .ok x ∧ x.label = s.config.label ∧
    x.signature = (suite.sign s.key c.text).toHex ∧ x.signature.length = 128 ∧
    x.covered = c.covered ∧ x.params = r.params

/-- The headers of a signature under a valid configuration are read as they were made exactly
if a component was emitted and the key identifier holds no semicolon. -/
theorem read_sign_iff {config : SigningConfig} {w : World} (hs : create config = .ok s)
    (ho : o.components = none) (hr : (s.sign suite m o w).1 = .ok r) :
    ∃ c, s.canonical o m r.params = .ok c ∧ r.canonicalMessage = c.text ∧
      (ReadsBack suite s c r ↔ c.covered ≠ [] ∧ Ascii.semicolon ∉ config.keyId) := by
  rcases create_eq_ok hs with ⟨rfl, hvalid⟩
  rcases SigningConfig.validate_eq_ok_iff.1 hvalid with ⟨_, _, _, htokens, hlabel⟩
  rcases sign_eq_ok hr with ⟨c, h⟩
  -- Without an override the components are those that were validated.
  have hnames : ∀ name ∈ (s.components o).headers, isValidHeaderName name = true := by
    intro name hname
    rw [components, ho, Option.getD_none] at hname
    exact htokens name (List.mem_append_left _ hname)
  have hwritten := h.isWritten hlabel hnames rfl rfl rfl
  refine ⟨c, h.canonical, h.text, ?_⟩
  rw [← h.keyId]
  constructor
  · -- Nothing that is read holds a semicolon, so what was signed holds none either.
    intro hread
    rcases hread with ⟨x, hx, -, -, -, -, hparams⟩
    have hsemicolon := (Received.semicolon_not_mem hx).1
    rw [hparams] at hsemicolon
    exact ⟨Received.covered_ne_nil_of_written hwritten hx, hsemicolon⟩
  · -- Conversely nothing else can end a part too early.
    intro hwire
    exact ⟨_, (Received.ofHeaders_written_iff hwritten).2 hwire, rfl, rfl,
      Octets.length_toHex _, rfl, rfl⟩

/-- A key identifier with a semicolon is signed with and not read back; without the semicolon
it is, with a quote and an equals sign in it. -/
theorem read_sign_semicolon :
    let suite : Suite :=
      ⟨fun key => key, fun _ _ => ⟨List.replicate 64 0, rfl⟩, fun _ _ _ => true, fun text => text⟩
    let key : PrivateKey := ⟨List.replicate 32 1, rfl⟩
    let signer (keyId : Bytes) : Signer :=
      ⟨{ keyId, privateKey := some key, components := { method := true } }, key⟩
    let m : Message := ⟨.get, "http://h/", {}, none⟩
    let o : SigningOptions :=
      { nonce := some "3fa85f64-5717-4562-b3fc-2c963f66afa6", created := some 1700000000 }
    let w : World := { clock := ⟨0, 0⟩, random := fun _ => ⟨List.replicate 16 0, rfl⟩ }
    ∃ r r' c c', create (signer "a\"=;b").config = .ok (signer "a\"=;b") ∧
      create (signer "a\"=b").config = .ok (signer "a\"=b") ∧
      ((signer "a\"=;b").sign suite m o w).1 = .ok r ∧
      ((signer "a\"=b").sign suite m o w).1 = .ok r' ∧
      (signer "a\"=;b").canonical o m r.params = .ok c ∧
      (signer "a\"=b").canonical o m r'.params = .ok c' ∧
      ¬ ReadsBack suite (signer "a\"=;b") c r ∧ ReadsBack suite (signer "a\"=b") c' r' := by
  intro suite key signer m o w
  have hs : create (signer "a\"=;b").config = .ok (signer "a\"=;b") := rfl
  have hs' : create (signer "a\"=b").config = .ok (signer "a\"=b") := rfl
  rcases exists_ok_of_isOk (show ((signer "a\"=;b").sign suite m o w).1.isOk = true from rfl)
    with ⟨r, hr⟩
  rcases exists_ok_of_isOk (show ((signer "a\"=b").sign suite m o w).1.isOk = true from rfl)
    with ⟨r', hr'⟩
  rcases read_sign_iff hs rfl hr with ⟨c, hc, _, hread⟩
  rcases read_sign_iff hs' rfl hr' with ⟨c', hc', _, hread'⟩
  have hcovered : c'.covered = [("@method" : Bytes)] := by
    rw [← Except.ok.inj (show .ok (CanonicalMessage.ofLines [("@method", "GET")] r'.params)
      = Except.ok c' from hc')]
    rfl
  refine ⟨r, r', c, c', hs, hs', hr, hr', hc, hc', fun h => (hread.1 h).2 (by decide),
    hread'.2 ?_⟩
  rw [hcovered]
  exact ⟨List.cons_ne_nil _ _, by decide⟩

end Signer

end SignedHttp
