import SignedHttp.Proofs.Digest
import SignedHttp.Proofs.Signature.Items
import SignedHttp.Proofs.Text.Decimal

/-!
# The Grammar of Signature Headers

Which header sets are read, what they are read as, and why another is refused.

What a header set says is a relation (`Says`) that mentions none of the steps of
reading: the texts are put together from their parts, and of each part it is said what
it is and which byte it does not hold. That a part ends where it does is not left to a
reader, for a text has one such decomposition at most. The label ends at the first
equals sign, the components at the first closing parenthesis, and the parameters are
what stands between the semicolons.

A header set that says nothing violates one of eight conditions, and often several.
They have an order, and `FirstFault` has a case for each: those before it hold, it does
not. Since the reader tests them in this order, the first one is what it reports.

The two relations are both what the reader computes, so between them they cover every
header set and never the same one (`ofHeaders_grammar`).

## Main definitions

* `InputHeader.Splits`: An input header put together from its parts.
* `Received.ParamsSay`: What a list of parameters says of the four that are required.
* `Received.Framed`: The two headers, and the parts of the one for the input.
* `Received.Says`: What the headers say.
* `Received.ParamsFault`: What is wrong with a list of parameters.
* `Received.FirstFault`: The first condition that is violated.

## Theorems

* `says_iff`: What the headers say is what is read.
* `firstFault_iff`: The first fault is what is reported.
* `ofHeaders_grammar`: Reading gives what the headers say, or their first fault.
-/

namespace SignedHttp

namespace InputHeader

/-- A text `label=(components);params`, no part of which is empty. The label ends at the first
equals sign and the components at the first closing parenthesis. -/
structure Splits (s : Bytes) (i : InputHeader) : Prop where
  text : s = i.label ++ Ascii.equals :: Ascii.openParen
    :: (i.components ++ Ascii.closeParen :: Ascii.semicolon :: i.params)
  label : i.label ≠ [] ∧ Ascii.equals ∉ i.label
  components : i.components ≠ [] ∧ Ascii.closeParen ∉ i.components
  params : i.params ≠ []

/-- An input header splits into parts exactly if the reader takes these parts out of it. -/
theorem splits_iff {s : Bytes} {i : InputHeader} : Splits s i ↔ parse? s = some i := by
  rw [parse?_eq_some_iff]
  constructor
  · intro h
    exact ⟨h.text, h.label.1, h.label.2, h.components.1, h.components.2, h.params⟩
  · rintro ⟨htext, hlabel, hequals, hcomponents, hclose, hparams⟩
    exact ⟨htext, ⟨hlabel, hequals⟩, ⟨hcomponents, hclose⟩, hparams⟩

end InputHeader

namespace Received

/-- A text `label=:value:` with a label and a value that are not empty. -/
structure SignatureSays (s label value : Bytes) : Prop where
  text : s = Delimited.render label value
  label : label ≠ [] ∧ Ascii.equals ∉ label
  value : value ≠ [] ∧ Ascii.colon ∉ value

/-- What the parts of a parameter list say of the four parameters. -/
structure ParamsSay (parts : List Bytes) (p : Params) : Prop where
  created : ∃ text, LastSays parts "created" text ∧ IntKind.int64.Numeral text p.created ∧
    IntKind.int64.contains p.created = true
  keyId : LastSays parts "keyid" p.keyId
  algorithm : LastSays parts "alg" p.algorithm
  nonce : LastSays parts "nonce" p.nonce

/-- The two headers of a signature are there. -/
structure Sent (headers : Fields) (input signature : Bytes) : Prop where
  input : headers.find? "signature-input" = some input
  signature : headers.find? "signature" = some signature

/-- The digest header is absent, or it is read as a digest. -/
def DigestSays (sent : Option Bytes) (digest : Option ContentDigest) : Prop :=
  (sent = none ∧ digest = none) ∨
    ∃ text d, sent = some text ∧ ContentDigest.parse text = .ok d ∧ digest = some d

/-- The two headers of a signature are there, the one for the input comes apart, and so does its
list of parameters. -/
structure Framed (headers : Fields) (input signature : Bytes) (i : InputHeader)
    (parts : List Bytes) : Prop where
  sent : Sent headers input signature
  form : InputHeader.Splits input i
  separates : Bytes.Separates Ascii.semicolon parts i.params

/-- The headers say `r`. -/
structure Says (headers : Fields) (input signature : Bytes) (i : InputHeader)
    (parts : List Bytes) (r : Received) : Prop where
  framed : Framed headers input signature i parts
  params : ParamsSay parts r.params
  signature : SignatureSays signature i.label r.signature
  label : r.label = i.label
  covered : LeftmostNames i.components r.covered
  digest : DigestSays (headers.find? "content-digest") r.digest
  digestHeader : r.digestHeader = headers.find? "content-digest"

/-- What is wrong with the parts of a parameter list: the first required parameter that is not
there, or, if all are there, a time stamp that is no number. -/
inductive ParamsFault (input : Bytes) (parts : List Bytes) : VerificationError → Prop
  | missing {name : Bytes} {before after : List Bytes}
      (hname : requiredParameters = before ++ name :: after)
      (hbefore : ∀ n ∈ before, ∃ value, LastSays parts n value)
      (h : ∀ value, ¬ LastSays parts name value) :
      ParamsFault input parts (.missingParameter input name)
  | created {text : Bytes} (hall : ∀ n ∈ requiredParameters, ∃ value, LastSays parts n value)
      (hcreated : LastSays parts "created" text)
      (h : ∀ v, IntKind.int64.Numeral text v → IntKind.int64.contains v = false) :
      ParamsFault input parts (.createdNotNumber input)

/-- The first condition that the headers violate, and how it is reported. Each case says that
the conditions before its own are met. -/
inductive FirstFault (headers : Fields) : VerificationError → Prop
  | noInput (h : headers.find? "signature-input" = none) :
      FirstFault headers .missingSignatureInput
  | noSignature {input : Bytes} (hinput : headers.find? "signature-input" = some input)
      (h : headers.find? "signature" = none) : FirstFault headers .missingSignature
  | input {input signature : Bytes} (hsent : Sent headers input signature)
      (h : ∀ i, ¬ InputHeader.Splits input i) : FirstFault headers (.malformedInput input)
  | params {input signature : Bytes} {i : InputHeader} {parts : List Bytes}
      {e : VerificationError} (hframed : Framed headers input signature i parts)
      (h : ParamsFault input parts e) : FirstFault headers e
  | signature {input signature : Bytes} {i : InputHeader} {parts : List Bytes} {p : Params}
      (hframed : Framed headers input signature i parts) (hparams : ParamsSay parts p)
      (h : ∀ label value, ¬ SignatureSays signature label value) :
      FirstFault headers (.malformedSignature signature)
  | label {input signature label value : Bytes} {i : InputHeader} {parts : List Bytes}
      {p : Params} (hframed : Framed headers input signature i parts)
      (hparams : ParamsSay parts p) (hsignature : SignatureSays signature label value)
      (h : label ≠ i.label) : FirstFault headers (.labelMismatch i.label label)
  | digest {input signature value text : Bytes} {i : InputHeader} {parts : List Bytes}
      {p : Params} {e : VerificationError} (hframed : Framed headers input signature i parts)
      (hparams : ParamsSay parts p) (hsignature : SignatureSays signature i.label value)
      (hdigest : headers.find? "content-digest" = some text)
      (h : ContentDigest.parse text = .error e)
      (hcode : e.code = .invalidContentDigestFormat) : FirstFault headers e

variable {headers : Fields} {input signature text label value : Bytes} {i : InputHeader}
  {parts : List Bytes} {p : Params} {r : Received} {e : VerificationError}

/-- A signature header says a label and a value exactly if the reader takes these two out of it. -/
theorem signatureSays_iff :
    SignatureSays signature label value ↔ Delimited.parse? signature = some (label, value) := by
  rw [Delimited.parse?_eq_some_iff]
  constructor
  · intro h
    exact ⟨h.text, h.label.1, h.label.2, h.value.1, h.value.2⟩
  · rintro ⟨htext, hlabel, hequals, hvalue, hcolon⟩
    exact ⟨htext, ⟨hlabel, hequals⟩, ⟨hvalue, hcolon⟩⟩

/-- The parts of a list say what is read of the list: for each of the four names the last value
counts, and the time stamp has to be a number of 64 bits. -/
theorem paramsSay_iff (input : Bytes) :
    ParamsSay (Bytes.segments Ascii.semicolon text) p ↔ params? input text = .ok p := by
  rw [params?_eq_ok_iff]
  constructor
  · intro h
    rcases h.created with ⟨created, hcreated, hnumber⟩
    exact ⟨created, find?_readParameters_iff.2 hcreated,
      IntKind.wholeNumber_eq_some_iff.2 hnumber, find?_readParameters_iff.2 h.keyId,
      find?_readParameters_iff.2 h.algorithm, find?_readParameters_iff.2 h.nonce⟩
  · rintro ⟨created, hcreated, hnumber, hkeyId, halgorithm, hnonce⟩
    exact ⟨⟨created, find?_readParameters_iff.1 hcreated,
      IntKind.wholeNumber_eq_some_iff.1 hnumber⟩, find?_readParameters_iff.1 hkeyId,
      find?_readParameters_iff.1 halgorithm, find?_readParameters_iff.1 hnonce⟩

/-- What the parts of the list say is what is read of its parameters. -/
theorem Framed.params?_eq_ok (h : Framed headers input signature i parts)
    (hparams : ParamsSay parts p) : params? input i.params = .ok p := by
  rw [Bytes.separates_iff.1 h.separates] at hparams
  exact (paramsSay_iff input).1 hparams

/-- Parameters are refused for the first fault of their list. -/
theorem paramsFault_iff :
    ParamsFault input (Bytes.segments Ascii.semicolon text) e ↔
      params? input text = .error e := by
  -- A name without a value in the table is one that no part of the list speaks of.
  have hnone (name : Bytes) : (readParameters text).find? name = none ↔
      ∀ value, ¬ LastSays (Bytes.segments Ascii.semicolon text) name value := by
    simp only [Option.eq_none_iff_forall_ne_some, ne_eq, find?_readParameters_iff]
  have hnumber (created : Bytes) : IntKind.int64.wholeNumber created = none ↔
      ∀ v, IntKind.int64.Numeral created v → IntKind.int64.contains v = false := by
    simp only [Option.eq_none_iff_forall_ne_some, ne_eq, IntKind.wholeNumber_eq_some_iff, not_and,
      Bool.not_eq_true]
  constructor
  · intro h
    rw [params?]
    -- The reader looks for missing names before it reads the number.
    cases h with
    | missing hname hbefore h =>
        have hmissing := missing_eq_some_iff.2 ⟨(hnone _).2 h, _, _, hname, fun n hn =>
          (hbefore n hn).imp fun _ => find?_readParameters_iff.2⟩
        simp only [hmissing]
    | created hall hcreated h =>
        have hmissing := missing_eq_none_iff.2 fun n hn =>
          (hall n hn).imp fun _ => find?_readParameters_iff.2
        simp only [hmissing, find?_readParameters_iff.2 hcreated, Option.getD_some,
          (hnumber _).2 h]
  · intro h
    rw [params?] at h
    split at h
    · next name hmissing =>
      rw [← Except.error.inj h]
      rcases missing_eq_some_iff.1 hmissing with ⟨hname, before, after, heq, hbefore⟩
      exact .missing heq (fun n hn => (hbefore n hn).imp fun _ => find?_readParameters_iff.1)
        ((hnone name).1 hname)
    · next hmissing =>
      -- All are there, so the time stamp that is read is one that was sent.
      have hall := missing_eq_none_iff.1 hmissing
      rcases hall "created" (by decide) with ⟨created, hcreated⟩
      simp only [hcreated, Option.getD_some] at h
      split at h
      · next hno =>
        rw [← Except.error.inj h]
        exact .created (fun n hn => (hall n hn).imp fun _ => find?_readParameters_iff.1)
          (find?_readParameters_iff.1 hcreated) ((hnumber created).1 hno)
      · cases h

/-- Without a fault the headers say what is read of them. -/
theorem says_iff : (∃ input signature i parts, Says headers input signature i parts r) ↔
    ofHeaders headers = .ok r := by
  rw [ofHeaders_eq_ok_iff]
  constructor
  · rintro ⟨input, signature, i, parts, h⟩
    refine ⟨input, signature, i, h.framed.sent.input, h.framed.sent.signature,
      InputHeader.splits_iff.1 h.framed.form, h.framed.params?_eq_ok h.params, ?_, h.label,
      mapM_eq_ok.2 h.digest, leftmostNames_iff.1 h.covered, h.digestHeader⟩
    rw [h.label]
    exact signatureSays_iff.1 h.signature
  · -- The list comes apart at its semicolons in one way, and these are the parts to speak of.
    rintro ⟨input, signature, i, hinput, hsignature, hform, hparams, hread, hlabel, hdigest,
      hcovered, hheader⟩
    rw [hlabel] at hread
    have hframed : Framed headers input signature i _ :=
      ⟨⟨hinput, hsignature⟩, InputHeader.splits_iff.2 hform, Bytes.separates_iff.2 rfl⟩
    exact ⟨input, signature, i, _, hframed, (paramsSay_iff input).2 hparams,
      signatureSays_iff.2 hread, hlabel, leftmostNames_iff.2 hcovered, mapM_eq_ok.1 hdigest,
      hheader⟩

/-- The step that ends the reading is the one that tests the first violated condition. -/
theorem firstFault_of_ofHeaders (h : ofHeaders headers = .error e) : FirstFault headers e := by
  -- One condition after the other is tested, and what is known of those that hold is collected.
  rw [ofHeaders] at h
  cases hinput : headers.find? "signature-input" with
  | none =>
      rw [hinput] at h
      rw [← Except.error.inj h]
      exact .noInput hinput
  | some input =>
  cases hsignature : headers.find? "signature" with
  | none =>
      rw [hinput, hsignature] at h
      rw [← Except.error.inj h]
      exact .noSignature hinput hsignature
  | some signature =>
  have hsent : Sent headers input signature := ⟨hinput, hsignature⟩
  cases hi : InputHeader.parse? input with
  | none =>
      simp only [hinput, hsignature, hi] at h
      rw [← Except.error.inj h]
      refine .input hsent fun i hform => ?_
      rw [InputHeader.splits_iff.1 hform] at hi
      cases hi
  | some i =>
  have hframed : Framed headers input signature i _ :=
    ⟨hsent, InputHeader.splits_iff.2 hi, Bytes.separates_iff.2 rfl⟩
  simp only [hinput, hsignature, hi] at h
  rcases bind_eq_error.1 h with hp | ⟨p, hp, h⟩
  · exact .params hframed (paramsFault_iff.2 hp)
  have hparams := (paramsSay_iff input).2 hp
  cases hd : Delimited.parse? signature with
  | none =>
      simp only [hd] at h
      rw [← Except.error.inj h]
      refine .signature hframed hparams fun label value hsays => ?_
      rw [signatureSays_iff.1 hsays] at hd
      cases hd
  | some d =>
  have hsays : SignatureSays signature d.1 d.2 := signatureSays_iff.2 hd
  simp only [hd] at h
  -- The label comes before the digest, so a digest is looked at only under equal labels.
  by_cases hlabel : d.1 = i.label
  · rw [if_neg (fun hne => hne hlabel)] at h
    rw [hlabel] at hsays
    rcases bind_eq_error.1 h with hdigest | ⟨digest, -, ⟨⟩⟩
    rcases mapM_eq_error.1 hdigest with ⟨text, htext, he⟩
    exact .digest hframed hparams hsays htext he (ContentDigest.code_of_parse he)
  · rw [if_pos hlabel] at h
    rw [← Except.error.inj h]
    exact .label hframed hparams hsays hlabel

/-- The first fault of the headers is what is reported. -/
theorem firstFault_iff : FirstFault headers e ↔ ofHeaders headers = .error e := by
  refine ⟨fun h => ?_, firstFault_of_ofHeaders⟩
  rw [ofHeaders]
  -- The steps before the one that fails give what the conditions say.
  cases h with
  | noInput h =>
      rw [h]
  | noSignature hinput h =>
      rw [hinput, h]
  | @input input signature hsent h =>
      have hi : InputHeader.parse? input = none := Option.eq_none_iff_forall_ne_some.2
        fun i hi => h i (InputHeader.splits_iff.2 hi)
      simp only [hsent.input, hsent.signature, hi]
  | params hframed h =>
      rw [Bytes.separates_iff.1 hframed.separates] at h
      simp only [hframed.sent.input, hframed.sent.signature, InputHeader.splits_iff.1 hframed.form]
      exact bind_eq_error.2 (Or.inl (paramsFault_iff.1 h))
  | @signature input signature i parts p hframed hparams h =>
      have hd : Delimited.parse? signature = none := Option.eq_none_iff_forall_ne_some.2
        fun d hd => h d.1 d.2 (signatureSays_iff.2 hd)
      simp only [hframed.sent.input, hframed.sent.signature,
        InputHeader.splits_iff.1 hframed.form, hd]
      exact bind_eq_error.2 (Or.inr ⟨p, hframed.params?_eq_ok hparams, rfl⟩)
  | label hframed hparams hsays h =>
      simp only [hframed.sent.input, hframed.sent.signature,
        InputHeader.splits_iff.1 hframed.form, signatureSays_iff.1 hsays]
      refine bind_eq_error.2 (Or.inr ⟨_, hframed.params?_eq_ok hparams, ?_⟩)
      rw [if_pos h]
      rfl
  | digest hframed hparams hsays hdigest h _ =>
      simp only [hframed.sent.input, hframed.sent.signature,
        InputHeader.splits_iff.1 hframed.form, signatureSays_iff.1 hsays]
      refine bind_eq_error.2 (Or.inr ⟨_, hframed.params?_eq_ok hparams, ?_⟩)
      rw [if_neg (fun hne => hne rfl)]
      exact bind_eq_error.2 (Or.inl (mapM_eq_error.2 ⟨_, hdigest, h⟩))

/-- The reader gives what the headers say, and if they say nothing, their first fault. -/
theorem ofHeaders_grammar (headers : Fields) :
    (∀ r, ofHeaders headers = .ok r ↔
      ∃ input signature i parts, Says headers input signature i parts r) ∧
    (∀ e, ofHeaders headers = .error e ↔ FirstFault headers e) :=
  ⟨fun _ => says_iff.symm, fun _ => firstFault_iff.symm⟩

end Received

end SignedHttp
