import SignedHttp.Proofs.Signature.Covered

/-!
# Signer and Verifier Make the Same Bytes

A canonical message is made twice: by the signer from the components that were chosen, and by
the verifier from the names that were sent. The two go through the facts of a message in
different ways. The signer follows a fixed order, leaves out the headers that the message does
not have, and takes a digest that was computed. The verifier follows the names as they were
listed, decides by each name what it stands for, and takes the digest as it was sent.

They agree because what the signer emits under a name is what the name stands for, and because
leaving out a header takes it from the list of names too. So the verifier needs no more of the
message than what was emitted: it may have been sent to another host, through other hands that
added headers, with another body. Only two kinds of names in the list of headers would break
this. A derived name is not looked up as a header by the verifier, and `content-digest` is, for
it, the digest that was sent.

## Theorems

* `ofCovered_of_ofComponents`: The verifier makes the message that the signer made.
-/

namespace SignedHttp

namespace CanonicalMessage

/-- What the signer made of a message and its components, the verifier makes of every message
that has the same method and target and the headers that were emitted. What is covered are the
method, the target, the headers that are there in the order in which they were chosen, and the
digest, each if it was chosen, with one line for each and one for the parameters. -/
theorem ofCovered_of_ofComponents {m w : Message} {c : Components} {p : Params}
    {d : Option ContentDigest} {strict : Bool} {cm : CanonicalMessage}
    (h : ofComponents m c p d strict = .ok cm)
    (hnames : ∀ name ∈ c.headers, name ≠ "content-digest" ∧ name.head? ≠ some Ascii.atSign)
    (hmethod : w.method = m.method)
    (htarget : ∀ t, targetUri m.url = .ok t → targetUri w.url = .ok t)
    (hheaders : ∀ name ∈ c.headers, ∀ value, m.header name = some value →
      w.header name = some value) :
    ofCovered w cm.covered p (if c.contentDigest then some (digestValue m d) else none) = .ok cm ∧
    cm.covered = (if c.method then [("@method" : Bytes)] else [])
      ++ (if c.targetUri then [("@target-uri" : Bytes)] else [])
      ++ c.headers.filter (fun name => (m.header name).isSome)
      ++ (if c.contentDigest then [("content-digest" : Bytes)] else []) ∧
    cm.signatureParams = p.render cm.covered ∧
    ∃ values : List (Bytes × Bytes), values.map (·.1) = cm.covered ∧
      (∀ e ∈ values, EmittedValue m c (digestValue m d) e.1 e.2) ∧
      cm.lines = values.map (fun e => componentLine e.1 e.2)
        ++ [Bytes.quoted "@signature-params" ++ (": " ++ cm.signatureParams)] := by
  -- The signer emits values, and all that is said is about these.
  rcases map_eq_ok.1 h with ⟨values, hvalues, rfl⟩
  have hemitted := emittedValue_of_mem hvalues
  refine ⟨?_, names_componentValues hvalues, rfl, values, rfl, hemitted, rfl⟩
  refine map_eq_ok.2 ⟨values, ?_, rfl⟩
  exact coveredValues_of_emitted hemitted hmethod htarget hnames hheaders
    fun hdigest => if_pos hdigest

/-- A header that is missing is left out, and a value with quotes and a line feed that imitates
another line is taken as it is. The second message was sent to another host and lost its body,
and headers were added and put in another order. -/
theorem ofCovered_of_ofComponents_forwarded :
    let digest : ContentDigest := ⟨.sha256, "AAAA"⟩
    let m : Message := ⟨.post, "http://a/x?y", ⟨[("X-One", "1\"\n\"date\": 2"), ("date", "today")]⟩,
      some "body"⟩
    let w : Message := ⟨.post, "https://b:8080/x?y",
      ⟨[("added", "1"), ("Date", "today"), ("x-one", "1\"\n\"date\": 2")]⟩, none⟩
    let c : Components := .create true true ["x-one", "missing", "Date", "x-one"] true
    let p : Params := { created := 1700000000, keyId := "k", nonce := "n" }
    ∃ cm, ofComponents m c p (some digest) false = .ok cm ∧
      cm.covered
        = [("@method" : Bytes), "@target-uri", "x-one", "date", "x-one", "content-digest"] ∧
      ofCovered w cm.covered p (some "sha-256=:AAAA:") = .ok cm := by
  intro digest m w c p
  -- The conditions hold although host, order and body are others.
  have hnames : ∀ name ∈ c.headers,
      name ≠ "content-digest" ∧ name.head? ≠ some Ascii.atSign := by decide
  have htarget : targetUri w.url = targetUri m.url := rfl
  have hsame : ∀ name ∈ c.headers, w.header name = m.header name := by decide
  rcases exists_ok_of_isOk (x := ofComponents m c p (some digest) false) rfl with ⟨cm, hcm⟩
  rcases ofCovered_of_ofComponents (w := w) hcm hnames rfl (fun _ ht => htarget.trans ht)
    (fun name hname _ hvalue => (hsame name hname).trans hvalue) with ⟨hagree, hcovered, -⟩
  exact ⟨cm, hcm, hcovered, hagree⟩

end CanonicalMessage

end SignedHttp
