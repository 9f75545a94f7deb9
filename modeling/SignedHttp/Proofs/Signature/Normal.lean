import SignedHttp.Proofs.Signature.Binding
import SignedHttp.Proofs.Signature.Written

/-!
# Input Headers in Normal Form

A reader of the input header is generous. It passes over what stands between the
quoted names, over blanks, over parameters that it does not know and over all but the
last of a repeated one, and it takes a value with or without quotes. The last line of
the canonical message is not what was sent: it is written anew from what was read. So
it says the same as the text that was sent, in the one form in which a signer writes
it, and it equals that text only if this was its form already.

The form is said without the reader (`IsNormal`): a text that some components and
parameters are written as, none of which holds a delimiter. What was read can always be
written so (`isWritable_of_ofHeaders`), because it was cut out between delimiters. The
converse, that a text in this form is read as it was written, is the round trip of the
signer.

A header that is not in normal form therefore has a twin that is, with the same claims
and the same signed bytes (`ofHeaders_set_normal`). The only claims without a twin are
those that cover nothing, for an empty list of components is refused.

## Main definitions

* `IsWritable`: Components and parameters without a delimiter in them.
* `IsNormal`: A text that a signer writes after the label.

## Theorems

* `isWritable_of_ofHeaders`: What was read can be written.
* `ofHeaders_rendered_iff`: The values that come back when headers are made of them.
* `claims_of_written`: A text in normal form is read as it was written.
* `ofHeaders_set_normal`: The normal form of a header makes the same claims.
* `signatureParams_eq_iff`: The last line is the text that was sent exactly if this is normal.
-/

namespace SignedHttp

/-- Components and parameters that are read back as they are written. -/
structure IsWritable (covered : List Bytes) (p : Params) : Prop where
  names : ∀ name ∈ covered, IsWritableName name
  created : IntKind.int64.contains p.created = true
  keyId : Ascii.semicolon ∉ p.keyId
  algorithm : Ascii.semicolon ∉ p.algorithm
  nonce : Ascii.semicolon ∉ p.nonce

/-- A text that a signer writes after the label, for some components and parameters. -/
def IsNormal (text : Bytes) : Prop :=
  ∃ covered p, IsWritable covered p ∧ text = Params.render covered p

namespace Received

variable {headers : Fields} {r : Received}

/-- What was read can be written so that it is read again: names were cut at quotes, the list at a
parenthesis and the parameters at semicolons, so none of them holds the byte that ends it. -/
theorem isWritable_of_ofHeaders (h : ofHeaders headers = .ok r) :
    IsWritable r.covered r.params := by
  rcases ofHeaders_eq_ok_iff.1 h with ⟨_, _, parts, _, _, hparts, hparams, _, _, _, hcovered, _⟩
  rcases InputHeader.parse?_eq_some_iff.1 hparts with ⟨_, _, _, _, hclose, _⟩
  rcases params?_eq_ok_iff.1 hparams with ⟨_, _, hcreated, _⟩
  have hsemicolon := semicolon_not_mem h
  refine ⟨fun name hname => ?_, IntKind.contains_of_wholeNumber hcreated, hsemicolon.1,
    hsemicolon.2.1, hsemicolon.2.2⟩
  have hquote := mem_covered h hname
  rw [hcovered] at hname
  -- The list of components ends at the first closing parenthesis, so no name holds one.
  exact ⟨hquote.1, hquote.2, fun hmem => hclose (subset_of_mem_quotedNames hname hmem)⟩

/-- Headers made of a label, a signature, components and parameters are read as these exactly if
none of them holds the byte that ends it, and none but a parameter is empty. -/
theorem ofHeaders_rendered_iff (label signature : Bytes) (covered : List Bytes) (p : Params)
    (hcreated : IntKind.int64.contains p.created = true)
    (hinput : headers.find? "signature-input" = some (label ++ Ascii.equals :: p.render covered))
    (hsignature : headers.find? "signature" = some (Delimited.render label signature))
    (hdigest : headers.find? "content-digest" = none) :
    ofHeaders headers = .ok { label, signature, covered, params := p } ↔
      (label ≠ [] ∧ Ascii.equals ∉ label) ∧ (signature ≠ [] ∧ Ascii.colon ∉ signature) ∧
        (covered ≠ [] ∧ ∀ name ∈ covered,
          name ≠ [] ∧ Ascii.quote ∉ name ∧ Ascii.closeParen ∉ name) ∧
        Ascii.semicolon ∉ p.keyId ∧ Ascii.semicolon ∉ p.algorithm ∧
        Ascii.semicolon ∉ p.nonce := by
  constructor
  · intro h
    have hwritable := isWritable_of_ofHeaders h
    rcases ofHeaders_eq_ok_iff.1 h with ⟨input, s, parts, hfound, hsent, hparts, _, hread, _⟩
    rw [hsignature, Option.some.injEq] at hsent
    rw [← hsent] at hread
    rcases Delimited.parse?_eq_some_iff.1 hread with ⟨-, hlabel, hequals, hvalue, hcolon⟩
    rw [hinput, Option.some.injEq] at hfound
    rw [← hfound] at hparts
    have hcovered := InputHeader.covered_ne_nil_of_parse? hequals hparts
    exact ⟨⟨hlabel, hequals⟩, ⟨hvalue, hcolon⟩, ⟨hcovered, hwritable.names⟩, hwritable.keyId,
      hwritable.algorithm, hwritable.nonce⟩
  · -- Headers under these conditions are among those that a signer writes.
    rintro ⟨hlabel, hvalue, ⟨hcovered, hnames⟩, hkeyId, halgorithm, hnonce⟩
    have hwritten : IsWritten headers { label, signature, covered, params := p } :=
      { input := hinput, signature := hsignature, digestHeader := hdigest, digest := rfl,
        label := hlabel, value := hvalue, names := hnames, created := hcreated,
        algorithm := halgorithm, nonce := hnonce }
    exact (ofHeaders_written_iff hwritten).2 ⟨hcovered, hkeyId⟩

/-- A label with blanks, a component of a line feed, a nonce with quotes and an equals sign and
the least time stamp come back; with a semicolon in the nonce they do not. -/
theorem ofHeaders_rendered_bytes :
    let covered : List Bytes := ["@method", "a\n(b"]
    let params (nonce : Bytes) : Params :=
      { created := -9223372036854775808, keyId := " \"k\"=", nonce }
    let headers (nonce : Bytes) : Fields :=
      ⟨[("Signature-Input", " s 1 =" ++ (params nonce).render covered),
        ("Signature", Delimited.render " s 1 " "=s;")]⟩
    let received (nonce : Bytes) : Received :=
      { label := " s 1 ", signature := "=s;", covered, params := params nonce }
    ofHeaders (headers "\"a=b\"") = .ok (received "\"a=b\"") ∧
      ofHeaders (headers "a;b") ≠ .ok (received "a;b") := by
  intro covered params headers received
  have hleast : IntKind.int64.contains (-9223372036854775808) = true := by decide
  have hiff (nonce : Bytes) : ofHeaders (headers nonce) = .ok (received nonce) ↔ _ :=
    ofHeaders_rendered_iff " s 1 " "=s;" covered (params nonce) hleast rfl rfl rfl
  refine ⟨(hiff _).2 (by decide), fun h => ?_⟩
  exact absurd ((hiff _).1 h) (by decide)

/-- A text in normal form is read as what it was written from. -/
theorem claims_of_written {label : Bytes} {covered : List Bytes} {p : Params}
    (h : ofHeaders headers = .ok r) (hequals : Ascii.equals ∉ label)
    (hinput : headers.find? "signature-input" = some (label ++ Ascii.equals :: p.render covered))
    (hwritable : IsWritable covered p) : r.covered = covered ∧ r.params = p := by
  rcases ofHeaders_eq_ok_iff.1 h with ⟨input, _, parts, hfound, _, hparts, hparams, _, _, _,
    hcovered, _⟩
  rw [hinput, Option.some.injEq] at hfound
  rw [← hfound] at hparts
  have hne := InputHeader.covered_ne_nil_of_parse? hequals hparts
  have hlabel : label ≠ [] := by
    -- The reader's label is the part before the first equals sign, and that is not empty.
    rcases InputHeader.parse?_eq_some_iff.1 hparts with ⟨htext, hlabel, hfree, -⟩
    rw [(Bytes.append_cons_inj hequals hfree htext).1]
    exact hlabel
  -- The parts are those that were written, and each of them is read back.
  rw [InputHeader.parse?_written p hlabel hequals hne hwritable.names, Option.some.injEq]
    at hparts
  rw [← hparts] at hcovered hparams
  rw [params?_listText input hwritable.created hwritable.keyId hwritable.algorithm
    hwritable.nonce] at hparams
  refine ⟨?_, (Except.ok.inj hparams).symm⟩
  rw [hcovered, quotedNames_join fun name hname =>
    ⟨(hwritable.names name hname).1, (hwritable.names name hname).2.1⟩]

/-- The header in normal form makes the same claims, unless these cover nothing. -/
theorem ofHeaders_set_normal (h : ofHeaders headers = .ok r) (hne : r.covered ≠ []) :
    ofHeaders (headers.set "signature-input"
      (r.label ++ Ascii.equals :: r.params.render r.covered)) = .ok r := by
  have hwritable := isWritable_of_ofHeaders h
  rcases ofHeaders_eq_ok_iff.1 h with ⟨_, signature, parts, _, hsignature, hparts, _, hread,
    hlabel, hdigest, _, hheader⟩
  rcases InputHeader.parse?_eq_some_iff.1 hparts with ⟨_, hlabelNe, hequals, _⟩
  rw [← hlabel] at hlabelNe hequals
  -- Only the one header was changed, so what the others gave is as before.
  refine ofHeaders_eq_ok_iff.2 ⟨_, signature, _, Fields.find?_set_same (by decide) _ _, ?_,
    InputHeader.parse?_written r.params hlabelNe hequals hne hwritable.names,
    params?_listText _ hwritable.created hwritable.keyId hwritable.algorithm hwritable.nonce,
    hread, rfl, ?_, ?_, ?_⟩
  · rw [Fields.find?_set_other (by decide), hsignature]
  · rw [Fields.find?_set_other (by decide), hdigest]
  · exact (quotedNames_join fun name hname =>
      ⟨(hwritable.names name hname).1, (hwritable.names name hname).2.1⟩).symm
  · rw [Fields.find?_set_other (by decide), hheader]

/-- The last line of the canonical message says what was read in normal form. It is the text
that was sent exactly if this is in normal form; if it is not, the header in normal form is
another one with the same claims. -/
theorem signatureParams_eq_iff {m : Message} {c : CanonicalMessage}
    (hr : ofHeaders headers = .ok r) (hc : r.canonical m = .ok c) :
    ∃ text, headers.find? "signature-input" = some (r.label ++ Ascii.equals :: text) ∧
      Ascii.equals ∉ r.label ∧
      c.lines.getLast? = some (Bytes.quoted paramsLineName ++ (": " ++ c.signatureParams)) ∧
      IsNormal c.signatureParams ∧ (c.signatureParams = text ↔ IsNormal text) ∧
      (r.covered ≠ [] → ofHeaders (headers.set "signature-input"
        (r.label ++ Ascii.equals :: c.signatureParams)) = .ok r) := by
  rcases canonical_eq_ok_iff.1 hc with ⟨values, hnames, _, rfl⟩
  -- The last line is made of the names of the values, which are those that are covered.
  have hparams : (CanonicalMessage.ofLines values r.params).signatureParams
      = r.params.render r.covered := by
    rw [← hnames]
    rfl
  rcases ofHeaders_eq_ok_iff.1 hr with ⟨input, _, parts, hinput, _, hparts, _, _, hlabel, _⟩
  rcases InputHeader.parse?_eq_some_iff.1 hparts with ⟨htext, _, hequals, _⟩
  rw [htext] at hinput
  rw [← hlabel] at hinput hequals
  have hnormal : IsNormal (r.params.render r.covered) :=
    ⟨r.covered, r.params, isWritable_of_ofHeaders hr, rfl⟩
  rw [hparams]
  refine ⟨_, hinput, hequals, ?_, hnormal, ?_, ofHeaders_set_normal hr⟩
  · rw [← hparams]
    exact List.getLast?_concat
  · constructor
    · intro heq
      rw [← heq]
      exact hnormal
    · -- A text that a signer could have sent is read as what it was written from, and this is
      -- written again.
      intro hsent
      rcases hsent with ⟨covered, p, hwritable, htext⟩
      rw [htext] at hinput ⊢
      rcases claims_of_written hr hequals hinput hwritable with ⟨hcovered, hp⟩
      rw [hcovered, hp]

/-- A parameter that the reader does not know is not in the last line, so the text with it is not
in normal form; without it the text is. -/
theorem signatureParams_unknown_parameter :
    let text : Bytes := "(\"@method\");created=1700000000;keyid=\"k\";alg=\"ed25519\";nonce=\"n\""
    let tagged : Bytes := text ++ ";tag=\"a\""
    let headers (text : Bytes) : Fields :=
      ⟨[("Signature-Input", "sig1=" ++ text), ("Signature", "sig1=:00:")]⟩
    let params : Params := { created := 1700000000, keyId := "k", nonce := "n" }
    let received : Received := { signature := "00", covered := ["@method"], params }
    let m : Message := ⟨.get, "http://h/", {}, none⟩
    let c := CanonicalMessage.ofLines [("@method", "GET")] params
    ofHeaders (headers text) = .ok received ∧ ofHeaders (headers tagged) = .ok received ∧
      received.canonical m = .ok c ∧ c.signatureParams = text ∧ IsNormal text ∧
      ¬ IsNormal tagged := by
  intro text tagged headers params received m c
  have hr : ofHeaders (headers text) = .ok received := rfl
  have htagged : ofHeaders (headers tagged) = .ok received := rfl
  have hc : received.canonical m = .ok c := rfl
  have hsent : ∀ text, (headers text).find? "signature-input"
      = some (received.label ++ Ascii.equals :: text) := fun _ => rfl
  rcases signatureParams_eq_iff hr hc with ⟨t, ht, -, -, hnormal, -⟩
  rcases signatureParams_eq_iff htagged hc with ⟨t', ht', -, -, -, hiff, -⟩
  have heq : c.signatureParams = text := by decide +kernel
  -- The text after the label is the one that was put there.
  rw [hsent, Option.some.injEq] at ht'
  rw [← (List.cons.inj (List.append_cancel_left ht')).2] at hiff
  refine ⟨hr, htagged, hc, heq, heq ▸ hnormal, fun h => ?_⟩
  exact absurd (hiff.2 h) (by rw [heq]; decide)

end Received

end SignedHttp
