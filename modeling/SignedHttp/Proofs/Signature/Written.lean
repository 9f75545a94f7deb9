import SignedHttp.Proofs.Signature.Canonical
import SignedHttp.Proofs.Signature.Received
import SignedHttp.Proofs.Text.Decimal

/-!
# Signature Headers That Were Written

What a signer writes into its two headers is what a reader takes out of them, as
long as nothing that is written is mistaken for a delimiter.

Nothing is escaped on the wire, so each part of a header must be free of the byte
that ends it: the label of the equals sign, a component name of the quote and of the
closing parenthesis, a parameter of the semicolon. A key identifier may hold quotes,
equals signs and parentheses, for the reader looks for none of them where it stands.
There is one more condition that is not about a byte: a list without components is
not a list to the reader, which wants at least one byte between the parentheses.

Each of the conditions is needed. A semicolon in a parameter is a delimiter to the
reader, so what it takes for the parameter is not what was written, and an empty list
is refused (`ofHeaders_written_iff`).

## Main definitions

* `Params.listText`: The text of the parameters, without the components.
* `IsWritableName`: A component name that is read back.

## Theorems

* `readParameters_listText`: The parameters of a list that was written.
* `InputHeader.parse?_written`: An input header that was written comes apart again.
* `ofHeaders_written_iff`: Headers are read as they were written exactly if they
  cover something and no parameter holds a semicolon.
-/

namespace SignedHttp

/-- The text of the parameters, as it follows the list of components and a semicolon. -/
def Params.listText (p : Params) : Bytes :=
  ("created=" ++ Decimal.ofInt p.created) ++ Ascii.semicolon :: (("keyid=" ++ Bytes.quoted p.keyId)
    ++ Ascii.semicolon :: (("alg=" ++ Bytes.quoted p.algorithm)
      ++ Ascii.semicolon :: ("nonce=" ++ Bytes.quoted p.nonce)))

/-- A component name that is read back from a list of components. -/
def IsWritableName (name : Bytes) : Prop :=
  name ≠ [] ∧ Ascii.quote ∉ name ∧ Ascii.closeParen ∉ name

/-- What a signer writes after the label: the names in parentheses, a semicolon and the parameters.
-/
theorem Params.render_eq_listText (covered : List Bytes) (p : Params) :
    p.render covered = Ascii.openParen :: (Bytes.join " " (covered.map Bytes.quoted)
      ++ Ascii.closeParen :: Ascii.semicolon :: p.listText) := by
  have hlist : componentList covered
      = Ascii.openParen :: (Bytes.join " " (covered.map Bytes.quoted) ++ [Ascii.closeParen]) := rfl
  have htext : p.listText = "created=" ++ (Decimal.ofInt p.created ++ Ascii.semicolon
      :: ("keyid=" ++ (Bytes.quoted p.keyId ++ Ascii.semicolon
      :: ("alg=" ++ (Bytes.quoted p.algorithm ++ Ascii.semicolon
      :: ("nonce=" ++ Bytes.quoted p.nonce)))))) := by
    simp only [Params.listText, List.append_assoc]
  rw [render_eq, hlist, htext, List.cons_append, List.append_assoc]
  rfl

section Parameters

/-- A number in decimal has no blanks in it. -/
theorem isBlank_of_mem_ofInt {v : Int} {b : UInt8} (h : b ∈ Decimal.ofInt v) :
    Ascii.isBlank b = false := by
  rw [Ascii.isBlank, Bool.or_eq_false_iff, beq_eq_false_iff_ne, beq_eq_false_iff_ne]
  refine ⟨?_, ?_⟩
  · intro hspace
    subst hspace
    exact Decimal.not_mem_ofInt (by decide) (by decide) h
  · intro htab
    subst htab
    exact Decimal.not_mem_ofInt (by decide) (by decide) h

theorem trim_ofInt (v : Int) : (Decimal.ofInt v).trim = Decimal.ofInt v :=
  Bytes.trim_eq_self (fun _ hb => isBlank_of_mem_ofInt (List.mem_of_mem_head? hb))
    (fun _ hb => isBlank_of_mem_ofInt (List.mem_of_getLast? hb))

theorem unquote_ofInt (v : Int) : (Decimal.ofInt v).unquote = Decimal.ofInt v := by
  rw [Bytes.unquote, if_neg]
  -- The first of two quotes would be a byte of the number.
  intro hquoted
  simp only [Bytes.isQuoted, Bool.and_eq_true, beq_iff_eq] at hquoted
  have hmem : Ascii.quote ∈ Decimal.ofInt v := List.mem_of_mem_head? hquoted.1.2
  exact Decimal.not_mem_ofInt (by decide) (by decide) hmem

/-- A number is read back under its name. -/
theorem readParameter_number (name : Bytes) (hequals : Ascii.equals ∉ name)
    (htrim : name.trim = name) (v : Int) :
    readParameter (name ++ Ascii.equals :: Decimal.ofInt v) = (name, Decimal.ofInt v) := by
  simp only [readParameter, Bytes.splitPair_append_cons hequals, htrim, trim_ofInt, unquote_ofInt]

/-- A quoted value is read back whatever it holds, also quotes and equals signs. -/
theorem readParameter_quoted (name : Bytes) (hequals : Ascii.equals ∉ name)
    (htrim : name.trim = name) (value : Bytes) :
    readParameter (name ++ Ascii.equals :: Bytes.quoted value) = (name, value) := by
  simp only [readParameter, Bytes.splitPair_append_cons hequals, htrim, Bytes.trim_quoted,
    Bytes.unquote_quoted]

variable {p : Params}

/-- A list of parameters comes apart into the four that were written, if none of the texts holds a
semicolon. -/
theorem split_listText (hkeyId : Ascii.semicolon ∉ p.keyId)
    (halgorithm : Ascii.semicolon ∉ p.algorithm) (hnonce : Ascii.semicolon ∉ p.nonce) :
    Bytes.split Ascii.semicolon p.listText
      = ["created=" ++ Decimal.ofInt p.created, "keyid=" ++ Bytes.quoted p.keyId,
        "alg=" ++ Bytes.quoted p.algorithm, "nonce=" ++ Bytes.quoted p.nonce] := by
  -- No item holds the separator: a number because of its digits, and a text because it is asked
  -- for.
  have hcreated : Ascii.semicolon ∉ ("created=" : Bytes) ++ Decimal.ofInt p.created := by
    rw [List.mem_append, not_or]
    exact ⟨by decide, Decimal.not_mem_ofInt (by decide) (by decide)⟩
  have hquoted : ∀ {name value : Bytes}, Ascii.semicolon ∉ name → Ascii.semicolon ∉ value →
      Ascii.semicolon ∉ name ++ Bytes.quoted value := by
    intro name value hname hvalue
    rw [List.mem_append, not_or]
    exact ⟨hname, Bytes.not_mem_quoted (by decide) hvalue⟩
  have hlast : ∀ {value : Bytes}, ∀ c ∈ (Bytes.quoted value).getLast?,
      Ascii.isBlank c = false := fun _ hc => Bytes.isBlank_of_mem_getLast?_quoted hc
  rw [Bytes.split_eq, Params.listText, Bytes.segments_append_cons hcreated,
    Bytes.segments_append_cons (hquoted (by decide) hkeyId),
    Bytes.segments_append_cons (hquoted (by decide) halgorithm),
    Bytes.segments_of_not_mem (hquoted (by decide) hnonce)]
  -- Each item begins with its name and ends with a digit or a quote.
  simp only [List.map_cons, List.map_nil, List.cons.injEq, and_true]
  refine ⟨?_, ?_, ?_, ?_⟩
  · exact Bytes.trim_cons_append (by decide)
      (fun _ hc => isBlank_of_mem_ofInt (List.mem_of_getLast? hc)) (Decimal.ofInt_ne_nil _)
  · exact Bytes.trim_cons_append (by decide) hlast (List.cons_ne_nil _ _)
  · exact Bytes.trim_cons_append (by decide) hlast (List.cons_ne_nil _ _)
  · exact Bytes.trim_cons_append (by decide) hlast (List.cons_ne_nil _ _)

/-- The table of a list that was written has the four values under their names. -/
theorem readParameters_listText (hkeyId : Ascii.semicolon ∉ p.keyId)
    (halgorithm : Ascii.semicolon ∉ p.algorithm) (hnonce : Ascii.semicolon ∉ p.nonce) :
    readParameters p.listText = .ofList [("created", Decimal.ofInt p.created),
      ("keyid", p.keyId), ("alg", p.algorithm), ("nonce", p.nonce)] := by
  have hcreated : readParameter ("created=" ++ Decimal.ofInt p.created)
      = (("created" : Bytes), Decimal.ofInt p.created) :=
    readParameter_number "created" (by decide) (by decide) _
  have hkey : readParameter ("keyid=" ++ Bytes.quoted p.keyId) = (("keyid" : Bytes), p.keyId) :=
    readParameter_quoted "keyid" (by decide) (by decide) _
  have halg : readParameter ("alg=" ++ Bytes.quoted p.algorithm)
      = (("alg" : Bytes), p.algorithm) :=
    readParameter_quoted "alg" (by decide) (by decide) _
  have hunique : readParameter ("nonce=" ++ Bytes.quoted p.nonce)
      = (("nonce" : Bytes), p.nonce) :=
    readParameter_quoted "nonce" (by decide) (by decide) _
  rw [readParameters, split_listText hkeyId halgorithm hnonce]
  -- None of the items is empty, since each begins with its name.
  have hitems : ["created=" ++ Decimal.ofInt p.created, "keyid=" ++ Bytes.quoted p.keyId,
      "alg=" ++ Bytes.quoted p.algorithm, "nonce=" ++ Bytes.quoted p.nonce].filter (!·.isEmpty)
      = ["created=" ++ Decimal.ofInt p.created, "keyid=" ++ Bytes.quoted p.keyId,
        "alg=" ++ Bytes.quoted p.algorithm, "nonce=" ++ Bytes.quoted p.nonce] := rfl
  rw [hitems, List.map_cons, List.map_cons, List.map_cons, List.map_cons, List.map_nil, hcreated,
    hkey, halg, hunique]

/-- So the parameters are read back, if the time stamp fits in 64 bits. -/
theorem params?_listText (input : Bytes) (hcreated : IntKind.int64.contains p.created = true)
    (hkeyId : Ascii.semicolon ∉ p.keyId) (halgorithm : Ascii.semicolon ∉ p.algorithm)
    (hnonce : Ascii.semicolon ∉ p.nonce) : Received.params? input p.listText = .ok p := by
  refine Received.params?_eq_ok_iff.2 ⟨Decimal.ofInt p.created, ?_⟩
  rw [readParameters_listText hkeyId halgorithm hnonce]
  simp only [Table.find?_ofList]
  exact ⟨rfl, IntKind.wholeNumber_ofInt hcreated, rfl, rfl, rfl⟩

end Parameters

/-- The list of names does not end before its closing parenthesis. -/
theorem closeParen_not_mem_join {names : List Bytes} (h : ∀ name ∈ names, IsWritableName name) :
    Ascii.closeParen ∉ Bytes.join " " (names.map Bytes.quoted) := by
  have hquoted : ∀ name, IsWritableName name → Ascii.closeParen ∉ Bytes.quoted name :=
    fun _ hname => Bytes.not_mem_quoted (by decide) hname.2.2
  -- By induction on the names, with a blank before each but the first.
  induction names with
  | nil => exact List.not_mem_nil
  | cons name names ih =>
      rw [List.forall_mem_cons] at h
      cases names with
      | nil => exact hquoted name h.1
      | cons next names =>
          rw [List.map_cons, List.map_cons, Bytes.join, List.mem_append, List.mem_append, not_or,
            not_or]
          exact ⟨hquoted name h.1, by decide, ih h.2⟩

/-- A list of names is not empty, because every name has its quotes. -/
theorem join_quoted_ne_nil {names : List Bytes} (h : names ≠ []) :
    Bytes.join " " (names.map Bytes.quoted) ≠ [] := by
  cases names with
  | nil => exact absurd rfl h
  | cons name names =>
      cases names with
      | nil => exact List.cons_ne_nil _ _
      | cons next names => exact List.cons_ne_nil _ _

/-- A header that was written comes apart into label, list and parameters. -/
theorem InputHeader.parse?_written {label : Bytes} {covered : List Bytes} (p : Params)
    (hlabel : label ≠ []) (hequals : Ascii.equals ∉ label) (hcovered : covered ≠ [])
    (hnames : ∀ name ∈ covered, IsWritableName name) :
    parse? (label ++ Ascii.equals :: p.render covered)
      = some ⟨label, Bytes.join " " (covered.map Bytes.quoted), p.listText⟩ := by
  refine parse?_eq_some_iff.2 ⟨?_, hlabel, hequals, join_quoted_ne_nil hcovered,
    closeParen_not_mem_join hnames, List.cons_ne_nil _ _⟩
  rw [Params.render_eq_listText]

/-- An input header with an empty list of components is none. -/
theorem InputHeader.covered_ne_nil_of_parse? {label : Bytes} {covered : List Bytes} {p : Params}
    {i : InputHeader} (hequals : Ascii.equals ∉ label)
    (h : parse? (label ++ Ascii.equals :: p.render covered) = some i) : covered ≠ [] := by
  intro hempty
  subst hempty
  -- The text is cut where it was put together, and there is nothing between the parentheses.
  rcases parse?_eq_some_iff.1 h with ⟨htext, -, hlabel, hcomponents, hclose, -⟩
  rw [Params.render_eq_listText] at htext
  have hlist := (List.cons.inj (Bytes.append_cons_inj hequals hlabel htext).2).2
  exact hcomponents (Bytes.append_cons_inj List.not_mem_nil hclose hlist).1.symm

namespace Received

/-- Headers that say what a signer writes: a label, a signature, components and parameters. -/
structure IsWritten (headers : Fields) (r : Received) : Prop where
  input : headers.find? "signature-input"
    = some (r.label ++ Ascii.equals :: r.params.render r.covered)
  signature : headers.find? "signature" = some (Delimited.render r.label r.signature)
  digestHeader : headers.find? "content-digest" = r.digestHeader
  digest : r.digestHeader.mapM ContentDigest.parse = .ok r.digest
  label : r.label ≠ [] ∧ Ascii.equals ∉ r.label
  value : r.signature ≠ [] ∧ Ascii.colon ∉ r.signature
  names : ∀ name ∈ r.covered, IsWritableName name
  created : IntKind.int64.contains r.params.created = true
  algorithm : Ascii.semicolon ∉ r.params.algorithm
  nonce : Ascii.semicolon ∉ r.params.nonce

/-- Whatever is read of such headers, they cover something. -/
theorem covered_ne_nil_of_written {headers : Fields} {r x : Received} (h : IsWritten headers r)
    (hx : ofHeaders headers = .ok x) : r.covered ≠ [] := by
  rcases ofHeaders_eq_ok_iff.1 hx with ⟨input, _, parts, hinput, _, hparts, _⟩
  rw [h.input, Option.some.injEq] at hinput
  rw [← hinput] at hparts
  exact InputHeader.covered_ne_nil_of_parse? h.label.2 hparts

/-- Headers that a signer wrote are read as what they were written from, exactly if something is
covered and the key identifier holds no semicolon. Nothing else that a signer may write can go
wrong. -/
theorem ofHeaders_written_iff {headers : Fields} {r : Received} (h : IsWritten headers r) :
    ofHeaders headers = .ok r ↔ r.covered ≠ [] ∧ Ascii.semicolon ∉ r.params.keyId := by
  constructor
  · exact fun hread => ⟨covered_ne_nil_of_written h hread, (semicolon_not_mem hread).1⟩
  · intro hwire
    rcases hwire with ⟨hcovered, hkeyId⟩
    have hdelimited : Delimited.parse? (Delimited.render r.label r.signature)
        = some (r.label, r.signature) :=
      Delimited.parse?_eq_some_iff.2 ⟨rfl, h.label.1, h.label.2, h.value.1, h.value.2⟩
    -- Every step of the reader succeeds with what was written.
    refine ofHeaders_eq_ok_iff.2 ⟨_, _, _, h.input, h.signature,
      InputHeader.parse?_written r.params h.label.1 h.label.2 hcovered h.names,
      params?_listText _ h.created hkeyId h.algorithm h.nonce, hdelimited, rfl, ?_, ?_,
      h.digestHeader.symm⟩
    · rw [h.digestHeader, h.digest]
    · exact (quotedNames_join fun name hname => ⟨(h.names name hname).1,
        (h.names name hname).2.1⟩).symm

end Received

end SignedHttp
