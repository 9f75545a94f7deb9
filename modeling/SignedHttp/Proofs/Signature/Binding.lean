import SignedHttp.Proofs.Signature.Canonical
import SignedHttp.Proofs.Signature.Covered
import SignedHttp.Proofs.Signature.Received

/-!
# What a Canonical Message Binds

Two signatures over the same bytes are signatures over the same facts. Whoever signs
a canonical message thereby commits to the list of covered components, to the
parameters and to the value of each component, and no other message with other
claims has the same bytes, whatever bytes its header values are made of. What a
component stands for, on either side, is said by `ComponentValue`.

Reading is what makes the names and parameters harmless: a covered name holds no
quote, because it was found between two, and the parameters hold no semicolon. The
name of the last line cannot be covered, or there would be no canonical message.

## Theorems

* `canonical_eq_ok_iff`: The canonical message of claims is that of the covered values.
* `text_eq_text_iff`: The bytes are equal exactly if the facts are.
-/

namespace SignedHttp

namespace Received

open CanonicalMessage

variable {m : Message} {r : Received} {c : CanonicalMessage}

/-- Claims have a canonical message if every covered name has a value, and it is made of the names
and these values in order. -/
theorem canonical_eq_ok_iff :
    r.canonical m = .ok c ↔
      ∃ values, values.map (·.1) = r.covered ∧
        (∀ e ∈ values, coveredValue m r.digestHeader e.1 = .ok e.2) ∧
        c = ofLines values r.params := by
  rw [canonical, ofCovered, map_eq_ok]
  constructor
  · intro h
    rcases h with ⟨values, hvalues, hc⟩
    rcases coveredValues_eq_ok_iff.1 hvalues with ⟨hnames, hall⟩
    exact ⟨values, hnames, hall, hc.symm⟩
  · intro h
    rcases h with ⟨values, hnames, hall, hc⟩
    exact ⟨values, coveredValues_eq_ok_iff.2 ⟨hnames, hall⟩, hc.symm⟩

/-- A covered component of claims that can be canonicalized has a line of its own. -/
theorem isLineName_of_mem {headers : Fields} (hr : ofHeaders headers = .ok r)
    {values : List (Bytes × Bytes)} (hnames : values.map (·.1) = r.covered)
    (hall : ∀ e ∈ values, coveredValue m r.digestHeader e.1 = .ok e.2) :
    ∀ e ∈ values, IsLineName e.1 := by
  intro e he
  have hcovered : e.1 ∈ r.covered := by
    rw [← hnames]
    exact List.mem_map_of_mem he
  -- The name of the last line would have made the canonical message fail.
  refine ⟨(mem_covered hr hcovered).2, fun hname => ?_⟩
  have hvalue := hall e he
  rw [hname] at hvalue
  exact coveredValue_paramsLineName e.2 hvalue

/-- What is covered has the same value wherever the same bytes are signed. -/
theorem exists_value_of_text_eq {h₁ h₂ : Fields} {r₁ r₂ : Received} {m₁ m₂ : Message}
    {c₁ c₂ : CanonicalMessage} (hr₁ : ofHeaders h₁ = .ok r₁) (hr₂ : ofHeaders h₂ = .ok r₂)
    (hc₁ : r₁.canonical m₁ = .ok c₁) (hc₂ : r₂.canonical m₂ = .ok c₂) (h : c₁.text = c₂.text)
    {name : Bytes} (hname : name ∈ r₁.covered) :
    ∃ value, ComponentValue m₁ r₁.digestHeader name value ∧
      ComponentValue m₂ r₂.digestHeader name value := by
  rcases canonical_eq_ok_iff.1 hc₁ with ⟨vs, hvs, hvalues₁, rfl⟩
  rcases canonical_eq_ok_iff.1 hc₂ with ⟨ws, hws, hvalues₂, rfl⟩
  rw [text_ofLines, text_ofLines] at h
  -- Equal bytes are the text of one list of values, which both messages give.
  rcases signedText_inj (isLineName_of_mem hr₁ hvs hvalues₁)
    (isLineName_of_mem hr₂ hws hvalues₂) h with ⟨rfl, -⟩
  rw [← hvs] at hname
  rcases List.mem_map.1 hname with ⟨e, he, rfl⟩
  exact ⟨e.2, coveredValue_eq_ok_iff.1 (hvalues₁ e he), coveredValue_eq_ok_iff.1 (hvalues₂ e he)⟩

/-- Canonical messages of accepted header sets have the same bytes exactly if the covered
components, the parameters and the value at every position are the same. -/
theorem text_eq_text_iff {h₁ h₂ : Fields} {r₁ r₂ : Received} {m₁ m₂ : Message}
    {c₁ c₂ : CanonicalMessage} (hr₁ : ofHeaders h₁ = .ok r₁) (hr₂ : ofHeaders h₂ = .ok r₂)
    (hc₁ : r₁.canonical m₁ = .ok c₁) (hc₂ : r₂.canonical m₂ = .ok c₂) :
    c₁.text = c₂.text ↔
      r₁.covered = r₂.covered ∧ r₁.params.created = r₂.params.created ∧
        r₁.params.keyId = r₂.params.keyId ∧ r₁.params.algorithm = r₂.params.algorithm ∧
        r₁.params.nonce = r₂.params.nonce ∧
        ∀ (i : Nat) (name : Bytes), r₁.covered[i]? = some name → ∃ value,
          ComponentValue m₁ r₁.digestHeader name value ∧
          ComponentValue m₂ r₂.digestHeader name value := by
  rcases canonical_eq_ok_iff.1 hc₁ with ⟨vs, hvs, hvalues₁, rfl⟩
  rcases canonical_eq_ok_iff.1 hc₂ with ⟨ws, hws, hvalues₂, rfl⟩
  constructor
  · intro h
    rw [text_ofLines, text_ofLines] at h
    rcases signedText_inj (isLineName_of_mem hr₁ hvs hvalues₁)
      (isLineName_of_mem hr₂ hws hvalues₂) h with ⟨rfl, hparams⟩
    -- Parameters that were read hold no semicolon, so the last line determines them.
    have hfree₁ := semicolon_not_mem hr₁
    have hfree₂ := semicolon_not_mem hr₂
    have hp := render_inj hfree₁.1 hfree₂.1 hfree₁.2.1 hfree₂.2.1 hparams
    -- What is left are the values, at each position the same one.
    rw [← hp]
    refine ⟨hvs.symm.trans hws, rfl, rfl, rfl, rfl, fun i name hi => ?_⟩
    rw [← hvs, List.getElem?_map, Option.map_eq_some_iff] at hi
    rcases hi with ⟨e, he, rfl⟩
    have hmem := List.mem_of_getElem? he
    exact ⟨e.2, coveredValue_eq_ok_iff.1 (hvalues₁ e hmem),
      coveredValue_eq_ok_iff.1 (hvalues₂ e hmem)⟩
  · intro h
    rcases h with ⟨hcovered, hcreated, hkeyId, halgorithm, hnonce, hpositions⟩
    have hp : r₁.params = r₂.params := by
      cases h₁ : r₁.params
      cases h₂ : r₂.params
      rw [h₁, h₂] at hcreated hkeyId halgorithm hnonce
      simp only [Params.mk.injEq]
      exact ⟨hcreated, hkeyId, halgorithm, hnonce⟩
    -- The values of the first message are also those of the second.
    have hshared : ∀ e ∈ vs, coveredValue m₂ r₂.digestHeader e.1 = .ok e.2 := by
      intro e he
      rcases List.getElem?_of_mem he with ⟨i, hi⟩
      have hname : r₁.covered[i]? = some e.1 := by
        rw [← hvs, List.getElem?_map, hi]
        rfl
      rcases hpositions i e.1 hname with ⟨value, hvalue₁, hvalue₂⟩
      have hsame := hvalues₁ e he
      rw [coveredValue_eq_ok_iff.2 hvalue₁] at hsame
      rw [coveredValue_eq_ok_iff.2 hvalue₂, Except.ok.inj hsame]
    -- Names and values determine the list, so both messages are made of the same one.
    have hvw : vs = ws := by
      have hv := coveredValues_eq_ok_iff.2 ⟨hvs.trans hcovered, hshared⟩
      have hw := coveredValues_eq_ok_iff.2 ⟨hws, hvalues₂⟩
      exact Except.ok.inj (hv.symm.trans hw)
    rw [hvw, hp]

/-- A value that imitates the line of another component does not stand for that component. -/
theorem text_ne_of_imitated_line :
    let fields (list : Bytes) : Fields :=
      ⟨[("Signature-Input", "sig1=(" ++ (list ++
          ");created=1700000000;keyid=\"k\";alg=\"ed25519\";nonce=\"n\"")),
        ("Signature", "sig1=:00:")]⟩
    let params : Params := { created := 1700000000, keyId := "k", nonce := "n" }
    let received (covered : List Bytes) : Received := { signature := "00", covered, params }
    let message (headers : List (Bytes × Bytes)) : Message := ⟨.get, "http://h/", ⟨headers⟩, none⟩
    let imitating : List (Bytes × Bytes) := [("x", "v\n\"y\": w")]
    let imitated : List (Bytes × Bytes) := [("x", "v"), ("y", "w")]
    ofHeaders (fields "\"x\"") = .ok (received ["x"]) ∧
      ofHeaders (fields "\"x\" \"y\"") = .ok (received ["x", "y"]) ∧
      (received ["x"]).canonical (message imitating) = .ok (ofLines imitating params) ∧
      (received ["x", "y"]).canonical (message imitated) = .ok (ofLines imitated params) ∧
      (ofLines imitating params).text ≠ (ofLines imitated params).text := by
  intro fields params received message imitating imitated
  have hr₁ : ofHeaders (fields "\"x\"") = .ok (received ["x"]) := rfl
  have hr₂ : ofHeaders (fields "\"x\" \"y\"") = .ok (received ["x", "y"]) := rfl
  have hc₁ : (received ["x"]).canonical (message imitating) = .ok (ofLines imitating params) := rfl
  have hc₂ : (received ["x", "y"]).canonical (message imitated)
      = .ok (ofLines imitated params) := rfl
  refine ⟨hr₁, hr₂, hc₁, hc₂, fun h => ?_⟩
  -- With equal bytes the covered names would be the same, and one list is longer.
  have hcovered := ((text_eq_text_iff hr₁ hr₂ hc₁ hc₂).1 h).1
  exact absurd hcovered (by decide)

end Received

end SignedHttp
