import SignedHttp.Inspect.Format
import SignedHttp.Proofs.Digest
import SignedHttp.Proofs.Signature.Received

/-!
# Headers Without Issues

Signature headers are read twice, by an inspection that lists everything that is odd about
them and by a reader that stops at the first fault. Where the inspection lists nothing, it
has found an input header of the form that the reader asks for, a signature of that form,
and parameters that are in order as far as they are there (`exists_found`). The two have
forms of their own for the input header, and they agree on headers without issues: these
list a component and give a nonce, so no part of the header is empty
(`exists_parse?_of_inputParts?`).

The inspection looks at each header for itself and at a digest as it is written. So what
may still keep the reader from reading is what shows only when two headers are compared or
a digest is decoded: labels that differ, and a digest that is none (`read_of_no_issues`).
What it says of the parameters is about those that are there. That they are there is a
premise here, since it decides this by looking for their names anywhere in the header.

## Main definitions

* `FormatIssue.CleanParameters`: Parameters about which nothing is reported.
* `FormatReport.Found`: What is found in headers about which nothing is reported.

## Theorems

* `inputParts?_eq_some_iff`: The texts that the inspection takes apart.
* `ofParameters_eq_nil_iff`: When nothing is reported about parameters.
* `parse_of_ofDigest_eq_nil`: What the reader makes of a digest.
* `exists_found`: What is found if nothing is reported.
* `read_of_no_issues`: What is read if nothing is reported.
-/

namespace SignedHttp

/-! ### The forms of the two readers -/

/-- An input header has the form that is inspected if it is a name, a list in parentheses and the
rest, which is empty or begins with a semicolon. The delimiters are the first of their kind. -/
theorem inputParts?_eq_some_iff {s : Bytes} {i : InputHeader} :
    inputParts? s = some i ↔
      s = i.label ++ Ascii.equals :: Ascii.openParen
        :: (i.components ++ Ascii.closeParen :: i.params) ∧
      i.label ≠ [] ∧ Ascii.equals ∉ i.label ∧ Ascii.closeParen ∉ i.components ∧
      (i.params = [] ∨ i.params.head? = some Ascii.semicolon) := by
  constructor
  · intro h
    simp only [inputParts?] at h
    split at h
    · next label b rest hlabel =>
      split at h
      · cases h
      · next hb =>
        split at h
        · next components params hcomponents =>
          split at h
          · next hparams =>
            rw [not_or, Decidable.not_not] at hb
            rw [hb.2] at hlabel
            -- Both cuts are at the first delimiter, so they determine the text and what is free of
            -- them.
            rcases Bytes.cut_list_iff.1 ⟨rest, hlabel, hcomponents⟩ with ⟨rfl, hequals, hclose⟩
            rw [← Option.some.inj h]
            exact ⟨rfl, fun h0 => hb.1 (List.isEmpty_iff.2 h0), hequals, hclose,
              hparams.imp_left List.isEmpty_iff.1⟩
          · cases h
        · cases h
    · cases h
  · rintro ⟨htext, hlabel, hequals, hclose, hparams⟩
    rcases Bytes.cut_list_iff.2 ⟨htext, hequals, hclose⟩ with ⟨rest, hcut, hrest⟩
    simp [inputParts?, hcut, hrest, hlabel, hparams]

/-- The item before a semicolon that comes first is empty, and empty items are passed over. -/
theorem readParameters_semicolon (params : Bytes) :
    readParameters (Ascii.semicolon :: params) = readParameters params := rfl

/-- An input header that lists something and gives a parameter has the form that is read. -/
theorem exists_parse?_of_inputParts? {input : Bytes} {parts : InputHeader} {name value : Bytes}
    (h : inputParts? input = some parts) (hcomponents : parts.components ≠ [])
    (hvalue : (readParameters parts.params).find? name = some value) :
    ∃ params, InputHeader.parse? input = some ⟨parts.label, parts.components, params⟩ ∧
      readParameters params = readParameters parts.params := by
  rcases inputParts?_eq_some_iff.1 h with ⟨htext, hlabel, hequals, hclose, hparams⟩
  cases hrest : parts.params with
  | nil =>
      -- Without parameters there would be no value.
      rw [hrest] at hvalue
      cases hvalue
  | cons b params =>
      rw [hrest] at hparams hvalue htext
      have hb : b = Ascii.semicolon := by simpa using hparams
      subst hb
      refine ⟨params, InputHeader.parse?_eq_some_iff.2
        ⟨htext, hlabel, hequals, hcomponents, hclose, ?_⟩, (readParameters_semicolon params).symm⟩
      rintro rfl
      cases hvalue

/-- A digest header that may be missing is read if it can be decoded. -/
theorem ContentDigest.exists_mapM_parse_iff {header : Option Bytes} :
    (∃ d, header.mapM parse = .ok d) ↔ ∀ text, header = some text → IsDecodable text := by
  constructor
  · rintro ⟨d, hd⟩ text rfl
    rcases mapM_eq_ok.1 hd with ⟨⟨⟩, -⟩ | ⟨_, d', ⟨rfl⟩, hparse, -⟩
    exact exists_parse_iff.1 ⟨d', hparse⟩
  · intro h
    -- A header that is missing is never a reason not to read.
    cases header with
    | none => exact ⟨none, rfl⟩
    | some text =>
        rcases exists_parse_iff.2 (h text rfl) with ⟨d, hparse⟩
        exact ⟨some d, mapM_eq_ok.2 (Or.inr ⟨text, d, rfl, hparse, rfl⟩)⟩

namespace FormatIssue

/-! ### What it means that nothing is reported -/

/-- An issue that depends on a condition is not reported if the condition does not hold. -/
theorem whenever_eq_nil_iff {holds : Bool} {issue : FormatIssue} :
    whenever holds issue = [] ↔ holds = false := by
  cases holds with
  | false => exact ⟨fun _ => rfl, fun _ => rfl⟩
  | true => exact ⟨fun h => (nomatch h), fun h => (nomatch h)⟩

/-- Parameters that are in order as far as they are there, and a nonce that is there. -/
structure CleanParameters (t : Table Bytes) : Prop where
  created : ∀ text, t.find? "created" = some text →
    ∃ n, IntKind.int64.wholeNumber text = some n ∧ isValidTimestamp n = true
  nonce : ∃ nonce, t.find? "nonce" = some nonce ∧ isValidNonce nonce = true
  algorithm : ∀ a, t.find? "alg" = some a → a = signatureAlgorithm

/-- Nothing is reported about parameters exactly if they are in order. A parameter that is missing
is not looked at, except for the nonce. -/
theorem ofParameters_eq_nil_iff {t : Table Bytes} :
    ofParameters t = [] ↔ CleanParameters t := by
  -- The issues of time stamp and nonce depend on a condition each.
  have hcreated : (t.find? "created").any
      (fun text => !(IntKind.int64.wholeNumber text).any isValidTimestamp) = false ↔
      ∀ text, t.find? "created" = some text →
        ∃ n, IntKind.int64.wholeNumber text = some n ∧ isValidTimestamp n = true := by
    simp only [Option.any_eq_false, Bool.not_eq_false', Option.any_eq_true]
  have hnonce : (!isValidNonce ((t.find? "nonce").getD [])) = false ↔
      ∃ nonce, t.find? "nonce" = some nonce ∧ isValidNonce nonce = true := by
    cases t.find? "nonce" with
    | none =>
        -- A nonce that is not there is looked at as an empty one, which has not the right form.
        exact ⟨fun h => absurd h (by decide), fun ⟨_, h, _⟩ => nomatch h⟩
    | some nonce =>
        simp only [Option.getD_some, Bool.not_eq_false', Option.some.injEq, exists_eq_left']
  unfold ofParameters
  rw [List.append_eq_nil_iff, List.append_eq_nil_iff, whenever_eq_nil_iff, whenever_eq_nil_iff,
    hcreated, hnonce]
  constructor
  · rintro ⟨⟨hcreated, hnonce⟩, halgorithm⟩
    refine ⟨hcreated, hnonce, fun a ha => ?_⟩
    simp only [ha, whenever_eq_nil_iff, bne_eq_false_iff_eq] at halgorithm
    exact halgorithm
  · intro h
    refine ⟨⟨h.created, h.nonce⟩, ?_⟩
    cases ha : t.find? "alg" with
    | none => rfl
    | some a =>
        rw [h.algorithm a ha]
        rfl

/-- An input header about which nothing is reported has the form that is inspected, lists something,
and its parameters are in order. -/
theorem exists_parts_of_ofInput {input : Bytes} (h : ofInput input = []) :
    ∃ parts, inputParts? input = some parts ∧ parts.components ≠ [] ∧
      CleanParameters (readParameters parts.params) := by
  rw [ofInput] at h
  split at h
  next =>
    split at h
    next parts hparts =>
      simp only [ofInputParts, List.append_eq_nil_iff] at h
      rcases h with ⟨⟨-, hparameters⟩, hlisted⟩
      -- An empty list would be reported.
      refine ⟨parts, hparts, fun hnone => ?_, ofParameters_eq_nil_iff.1 hparameters⟩
      rw [hnone] at hlisted
      cases hlisted
    · cases h
  · cases h

/-- A signature header about which nothing is reported has the form that is read. -/
theorem exists_parse?_of_ofSignature {signature : Bytes} (h : ofSignature signature = []) :
    ∃ label hex, Delimited.parse? signature = some (label, hex) := by
  rw [ofSignature, List.append_eq_nil_iff, whenever_eq_nil_iff, Bool.not_eq_false',
    Option.any_eq_true] at h
  -- The length of the value is an issue of its own, and not needed here.
  rcases h.1 with ⟨⟨label, hex⟩, hform, -⟩
  exact ⟨label, hex, hform⟩

/-- The first mark of a header of the form is the one that ends the name. -/
theorem beforeMark?_render {name : Bytes} (h : Ascii.equals ∉ name) (value : Bytes) :
    beforeMark? (Delimited.render name value) = some name := by
  induction name with
  | nil => rfl
  | cons b name ih =>
      rw [List.mem_cons, not_or] at h
      change beforeMark? (b :: Delimited.render name value) = some (b :: name)
      rw [beforeMark?, if_neg fun hmark => h.1 hmark.1.symm, ih h.2]
      rfl

/-- A digest about which nothing is reported is read unless it cannot be decoded. -/
theorem parse_of_ofDigest_eq_nil {digest : Bytes} (h : ofDigest digest = []) :
    ContentDigest.IsDecodable digest ∨
      ContentDigest.parse digest = .error (.invalidDigestValue digest) := by
  rw [ofDigest, List.append_eq_nil_iff, whenever_eq_nil_iff, whenever_eq_nil_iff,
    Bool.not_eq_false', Option.any_eq_true] at h
  rcases h with ⟨⟨⟨name, value⟩, hform, -⟩, hsupported⟩
  rcases Delimited.parse?_eq_some_iff.1 hform with ⟨htext, -, hequals, -⟩
  rw [htext, beforeMark?_render hequals, Option.getD_some, Option.isNone_eq_false_iff,
    Option.isSome_iff_exists] at hsupported
  rcases hsupported with ⟨a, ha⟩
  -- The name is that of an algorithm. So the value does not decode, or not to as many bytes, or all
  -- is well.
  rw [← ContentDigest.exists_parse_iff]
  simp only [ContentDigest.parse, hform, ha]
  split
  next => exact Or.inr rfl
  next =>
    split
    next => exact Or.inl ⟨_, rfl⟩
    next => exact Or.inr rfl

end FormatIssue

namespace FormatReport

/-! ### Inspecting and reading -/

/-- What is found in headers about which nothing is reported. -/
structure Found (headers : Fields) (parts : InputHeader) (label hex : Bytes) : Prop where
  input : (headers.find? "signature-input").bind inputParts? = some parts
  signature : (headers.find? "signature").bind Delimited.parse? = some (label, hex)
  components : parts.components ≠ []
  parameters : FormatIssue.CleanParameters (readParameters parts.params)
  digest : ∀ header, headers.find? "content-digest" = some header →
    ContentDigest.IsDecodable header ∨
      ContentDigest.parse header = .error (.invalidDigestValue header)

variable {headers : Fields} {parts : InputHeader} {label hex : Bytes} {x : Received}

/-- All parts of headers about which nothing is reported are found, and the label is reported. -/
theorem exists_found (h : (inspect headers).issues = []) :
    ∃ parts label hex, Found headers parts label hex ∧
      (inspect headers).labels = [parts.label] := by
  simp only [inspect, List.append_eq_nil_iff, FormatIssue.whenever_eq_nil_iff,
    Option.isNone_eq_false_iff, Option.isSome_iff_exists] at h
  -- There are five sources of issues, and each of them is silent.
  rcases h with ⟨⟨⟨⟨⟨input, hinput⟩, ⟨signature, hsignature⟩⟩, hofInput⟩, hofSignature⟩, hofDigest⟩
  rw [hinput] at hofInput
  rw [hsignature] at hofSignature
  rcases FormatIssue.exists_parts_of_ofInput hofInput with
    ⟨parts, hparts, hcomponents, hparameters⟩
  rcases FormatIssue.exists_parse?_of_ofSignature hofSignature with ⟨label, hex, hform⟩
  refine ⟨parts, label, hex, ⟨?_, ?_, hcomponents, hparameters, fun header hheader => ?_⟩, ?_⟩
  · rw [hinput]
    exact hparts
  · rw [hsignature]
    exact hform
  · rw [hheader] at hofDigest
    exact FormatIssue.parse_of_ofDigest_eq_nil hofDigest
  · simp only [inspect, hinput, Option.bind_some, hparts]
    rfl

/-- The reader takes the same parts out of such headers. -/
theorem Found.exists_read (h : Found headers parts label hex) :
    ∃ input signature params, headers.find? "signature-input" = some input ∧
      headers.find? "signature" = some signature ∧
      InputHeader.parse? input = some ⟨parts.label, parts.components, params⟩ ∧
      readParameters params = readParameters parts.params ∧
      Delimited.parse? signature = some (label, hex) := by
  rcases Option.bind_eq_some_iff.1 h.input with ⟨input, hinput, hparts⟩
  rcases Option.bind_eq_some_iff.1 h.signature with ⟨signature, hsignature, hform⟩
  -- The nonce shows that there are parameters, which the form that is read asks for.
  rcases h.parameters.nonce with ⟨nonce, hnonce, -⟩
  rcases exists_parse?_of_inputParts? hparts h.components hnonce with ⟨params, hread, hsame⟩
  exact ⟨input, signature, params, hinput, hsignature, hread, hsame, hform⟩

/-- What is read of such headers is in order, since it is what was inspected. -/
theorem Found.of_ofHeaders (h : Found headers parts label hex)
    (hx : Received.ofHeaders headers = .ok x) :
    x.label = parts.label ∧ isValidNonce x.params.nonce = true ∧
      isValidTimestamp x.params.created = true ∧ x.params.algorithm = signatureAlgorithm := by
  rcases h.exists_read with ⟨input, signature, params, hinput, hsignature, hread, hsame, -⟩
  rcases Received.ofHeaders_eq_ok_iff.1 hx with
    ⟨input', signature', parts', hinput', hsignature', hread', hparams, -, hlabel, -⟩
  rw [hinput] at hinput'
  rw [← Option.some.inj hinput', hread] at hread'
  rw [← Option.some.inj hread'] at hparams hlabel
  -- Both tables of parameters are the same, so the values are those that were inspected.
  rcases Received.params?_eq_ok_iff.1 hparams with
    ⟨text, htext, hnumber, -, halgorithm, hnonce⟩
  rw [hsame] at htext halgorithm hnonce
  rcases h.parameters.created text htext with ⟨n, hn, hcreated⟩
  rcases h.parameters.nonce with ⟨nonce, hnonce', hvalid⟩
  rw [hnonce] at hnonce'
  rw [hnumber] at hn
  rw [← Option.some.inj hnonce'] at hvalid
  rw [← Option.some.inj hn] at hcreated
  exact ⟨hlabel, hvalid, hcreated, h.parameters.algorithm _ halgorithm⟩

/-- Such headers are read up to the comparison of the labels and the digest, if the parameters
are there whose names the inspection looks for. -/
theorem Found.ofHeaders_eq (h : Found headers parts label hex)
    (hthere : ∀ name ∈ (["created", "keyid", "alg"] : List Bytes),
      (readParameters parts.params).contains name = true) :
    ∃ p, Received.ofHeaders headers
      = if label ≠ parts.label then .error (.labelMismatch parts.label label)
        else ((headers.find? "content-digest").mapM ContentDigest.parse).map fun digest =>
          ⟨label, hex, quotedNames parts.components, p, digest,
            headers.find? "content-digest"⟩ := by
  rcases h.exists_read with ⟨input, signature, params, hinput, hsignature, hread, hsame, hform⟩
  have hvalue : ∀ name ∈ (["created", "keyid", "alg"] : List Bytes),
      ∃ value, (readParameters params).find? name = some value := by
    intro name hname
    rw [hsame]
    exact Option.isSome_iff_exists.1 (hthere name hname)
  rcases hvalue "created" (by decide) with ⟨text, htext⟩
  rcases hvalue "keyid" (by decide) with ⟨keyId, hkeyId⟩
  rcases hvalue "alg" (by decide) with ⟨algorithm, halgorithm⟩
  rcases h.parameters.created text (hsame ▸ htext) with ⟨created, hcreated, -⟩
  rcases h.parameters.nonce with ⟨nonce, hnonce, -⟩
  -- The nonce is the one parameter that is there because nothing was reported.
  have hparams : Received.params? input params = .ok { created, keyId, algorithm, nonce } :=
    Received.params?_eq_ok_iff.2 ⟨text, htext, hcreated, hkeyId, halgorithm, hsame ▸ hnonce⟩
  refine ⟨{ created, keyId, algorithm, nonce }, ?_⟩
  -- All steps before the comparison of the labels succeed.
  rw [Received.ofHeaders]
  simp only [hinput, hsignature, hread, hparams, hform]
  split
  next hlabel => rfl
  next hlabel => rfl

/-- If nothing is reported, reading gives the label that was reported, a nonce of the right form,
a time stamp in the range and the one algorithm. And if the parameters are there whose names the
inspection looks for, there is nothing but the other label and the digest that can keep the
headers from being read. -/
theorem read_of_no_issues (h : (inspect headers).issues = []) :
    ∃ parts label hex,
      ((headers.find? "signature-input").bind inputParts? = some parts ∧
        (headers.find? "signature").bind Delimited.parse? = some (label, hex) ∧
        (inspect headers).labels = [parts.label]) ∧
      (∀ x, Received.ofHeaders headers = .ok x →
        x.label = parts.label ∧ isValidNonce x.params.nonce = true ∧
          isValidTimestamp x.params.created = true ∧ x.params.algorithm = signatureAlgorithm) ∧
      ((∀ name ∈ (["created", "keyid", "alg"] : List Bytes),
          (readParameters parts.params).contains name = true) →
        ((∃ x, Received.ofHeaders headers = .ok x) ↔
          label = parts.label ∧ ∀ header, headers.find? "content-digest" = some header →
            ContentDigest.IsDecodable header) ∧
        (label ≠ parts.label →
          Received.ofHeaders headers = .error (.labelMismatch parts.label label)) ∧
        (label = parts.label → ∀ header, headers.find? "content-digest" = some header →
          ¬ ContentDigest.IsDecodable header →
          Received.ofHeaders headers = .error (.invalidDigestValue header))) := by
  rcases exists_found h with ⟨parts, label, hex, hfound, hlabels⟩
  refine ⟨parts, label, hex, ⟨hfound.input, hfound.signature, hlabels⟩,
    fun x hx => hfound.of_ofHeaders hx, fun hthere => ?_⟩
  rcases hfound.ofHeaders_eq hthere with ⟨p, heq⟩
  rw [heq]
  refine ⟨?_, fun hlabel => if_pos hlabel, fun hlabel header hheader hdecodable => ?_⟩
  · rw [← ContentDigest.exists_mapM_parse_iff]
    -- With equal labels it is the digest that decides, and with other labels nothing is read.
    by_cases hlabel : label = parts.label
    · rw [if_neg (fun hne => hne hlabel)]
      constructor
      · rintro ⟨x, hx⟩
        rcases map_eq_ok.1 hx with ⟨digest, hdigest, -⟩
        exact ⟨hlabel, digest, hdigest⟩
      · rintro ⟨-, digest, hdigest⟩
        exact ⟨_, map_eq_ok.2 ⟨digest, hdigest, rfl⟩⟩
    · rw [if_pos hlabel]
      exact ⟨fun ⟨_, hx⟩ => (nomatch hx), fun hread => absurd hread.1 hlabel⟩
  · rw [if_neg (fun hne => hne hlabel), hheader,
      mapM_eq_error.2 ⟨header, rfl, (hfound.digest header hheader).resolve_left hdecodable⟩]
    rfl

/-- Headers with a digest about which nothing is reported, and which are read. -/
theorem read_of_no_issues_sample :
    let components : Bytes := "\"@method\" \"content-digest\""
    let parameters : Bytes := ";created=1700000000;keyid=\"k\";alg=\"ed25519\";" ++
      "nonce=\"3fa85f64-5717-4562-b3fc-2c963f66afa6\""
    let hex : Bytes := List.replicate 128 Ascii.zero
    let digest : ContentDigest := .ofBody .sha256 none
    let headers : Fields :=
      ⟨[("Signature-Input", "sig1=(" ++ (components ++ (")" ++ parameters))),
        ("Signature", Delimited.render "sig1" hex), ("Content-Digest", digest.headerValue)]⟩
    (inspect headers).issues = [] ∧ ∃ x, Received.ofHeaders headers = .ok x ∧
      x.label = "sig1" ∧ isValidNonce x.params.nonce = true ∧
      isValidTimestamp x.params.created = true ∧ x.params.algorithm = signatureAlgorithm := by
  intro components parameters hex digest headers
  have hissues : (inspect headers).issues = [] := by decide +kernel
  rcases read_of_no_issues hissues with ⟨_, _, _, ⟨hparts, hform, -⟩, hsound, hread⟩
  have hinput : (headers.find? "signature-input").bind inputParts?
      = some ⟨"sig1", components, parameters⟩ := by decide +kernel
  have hsignature : (headers.find? "signature").bind Delimited.parse?
      = some (Bytes.ofString "sig1", hex) := by decide +kernel
  rw [hinput] at hparts
  rw [hsignature] at hform
  have hlabel := (Prod.mk.inj (Option.some.inj hform)).1
  rw [← Option.some.inj hparts] at hread hsound
  rw [← hlabel] at hread
  -- All three names are those of parameters of the header, and its digest can be decoded.
  have hthere : ∀ name ∈ (["created", "keyid", "alg"] : List Bytes),
      (readParameters parameters).contains name = true := by decide +kernel
  have hdecodable : ∀ header, headers.find? "content-digest" = some header →
      ContentDigest.IsDecodable header := by
    intro header hheader
    rw [← Option.some.inj hheader]
    exact ContentDigest.exists_parse_iff.1 ⟨_, ContentDigest.parse_headerValue_ofBody .sha256 none⟩
  rcases (hread hthere).1.2 ⟨rfl, hdecodable⟩ with ⟨x, hx⟩
  exact ⟨hissues, x, hx, hsound x hx⟩

/-- Headers about which nothing is reported, and which are not read: the labels differ, the
digest cannot be decoded, or a parameter is named only in the value of another one. -/
theorem unread_without_issues :
    let nonce : Bytes := "nonce=\"3fa85f64-5717-4562-b3fc-2c963f66afa6\""
    let input : Bytes :=
      "sig1=(\"@method\");created=1700000000;keyid=\"k\";alg=\"ed25519\";" ++ nonce
    let hidden : Bytes := "sig1=(\"@method\");created=1700000000;keyid=\"alg=\";" ++ nonce
    let signature (label : Bytes) : Bytes :=
      Delimited.render label (List.replicate 128 Ascii.zero)
    let mislabeled : Fields := ⟨[("signature-input", input), ("signature", signature "sig2")]⟩
    let undecodable : Fields :=
      ⟨[("signature-input", input), ("signature", signature "sig1"),
        ("content-digest", "sha-256=:AAAA:")]⟩
    let incomplete : Fields := ⟨[("signature-input", hidden), ("signature", signature "sig1")]⟩
    ((inspect mislabeled).issues = [] ∧
      Received.ofHeaders mislabeled = .error (.labelMismatch "sig1" "sig2")) ∧
    ((inspect undecodable).issues = [] ∧
      Received.ofHeaders undecodable = .error (.invalidDigestValue "sha-256=:AAAA:")) ∧
    (inspect incomplete).issues = [] ∧
      Received.ofHeaders incomplete = .error (.missingParameter hidden "alg") := by
  intro nonce input hidden signature mislabeled undecodable incomplete
  have hmislabeled : (inspect mislabeled).issues = [] := by decide +kernel
  have hundecodable : (inspect undecodable).issues = [] := by decide +kernel
  have hincomplete : (inspect incomplete).issues = [] := by decide +kernel
  exact ⟨⟨hmislabeled, rfl⟩, ⟨hundecodable, rfl⟩, hincomplete, rfl⟩

end FormatReport

end SignedHttp
