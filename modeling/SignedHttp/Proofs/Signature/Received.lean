import SignedHttp.Proofs.Except
import SignedHttp.Proofs.Text.Split
import SignedHttp.Signature.Received

/-!
# Reading Signature Headers

What every accepted header set has in common, whatever its headers say, and what is
read from headers that say what a signer writes.

Reading is a chain of steps, and `ofHeaders_eq_ok_iff` takes it apart once: it names
what each step gave. The two headers of a signature are forms with delimiters, and
each is read exactly if it is the form (`InputHeader.parse?_eq_some_iff`).

Two facts hold of all that is read, because of how it is cut out of its header. A
covered name was found between two quotes, so it holds none and is not empty. A
parameter was found between two semicolons, so it holds none. Nothing that is done
to it afterwards, trimming, cutting at the equals sign, unquoting, adds a byte.

## Theorems

* `mem_quotedNames`: A name that is read is not empty and holds no quote.
* `subset_of_mem_quotedNames`: A name that is read is a part of the list.
* `quotedNames_join`: Names that were written in quotes are read.
* `Bytes.cut_list_iff`: A label and a list in parentheses, cut out of a text.
* `InputHeader.parse?_eq_some_iff`: The texts that are input headers.
* `semicolon_not_mem_of_find?`: A parameter that is read holds no semicolon.
* `missing_eq_some_iff`, `missing_eq_none_iff`: The first parameter that is not there.
* `params?_eq_ok_iff`: The parameters of an input header.
* `ofHeaders_eq_ok_iff`: What the steps of reading gave.
* `digestHeader_eq`: The header of a digest is the one that the digest is written as.
* `claims_congr`: What a signature claims stays as long as the input header does.
-/

namespace SignedHttp

/-- The bytes since an opening quote hold no quote, and so does the name that they become. -/
theorem mem_quotedNamesFrom {s name : Bytes} {opened : Option Bytes}
    (hopened : ∀ acc ∈ opened, Ascii.quote ∉ acc) (h : name ∈ quotedNamesFrom opened s) :
    name ≠ [] ∧ Ascii.quote ∉ name := by
  -- By induction on the text, for every state of the reader.
  induction s generalizing opened with
  | nil => exact absurd h List.not_mem_nil
  | cons b s ih =>
      have hempty : ∀ acc ∈ some ([] : Bytes), Ascii.quote ∉ acc := by
        intro acc hacc
        rw [← Option.mem_some_iff.1 hacc]
        exact List.not_mem_nil
      have hnone : ∀ acc ∈ (none : Option Bytes), Ascii.quote ∉ acc := by
        intro acc h
        cases h
      -- The reader is outside of quotes, behind an opening quote, or inside of a name.
      rcases opened with - | - | ⟨c, acc⟩
      · simp only [quotedNamesFrom] at h
        split at h
        · exact ih hempty h
        · exact ih hnone h
      · simp only [quotedNamesFrom] at h
        split at h
        · exact ih hempty h
        · next hb =>
          refine ih (fun acc hacc => ?_) h
          rw [← Option.mem_some_iff.1 hacc, List.mem_singleton]
          exact Ne.symm hb
      · have hacc := hopened _ rfl
        simp only [quotedNamesFrom] at h
        split at h
        · rcases List.mem_cons.1 h with rfl | h
          · refine ⟨fun he => List.cons_ne_nil c acc (List.reverse_eq_nil_iff.1 he), fun hq => ?_⟩
            exact hacc (List.mem_reverse.1 hq)
          · exact ih hnone h
        · next hb =>
          refine ih (fun acc' hacc' => ?_) h
          rw [← Option.mem_some_iff.1 hacc', List.mem_cons, not_or]
          exact ⟨Ne.symm hb, hacc⟩

/-- A name that is taken out of a list is not empty and holds no quote. -/
theorem mem_quotedNames {list name : Bytes} (h : name ∈ quotedNames list) :
    name ≠ [] ∧ Ascii.quote ∉ name :=
  mem_quotedNamesFrom (by rintro acc ⟨⟩) h

/-- The bytes of a name are those since its opening quote. -/
theorem subset_of_mem_quotedNamesFrom {s name : Bytes} {opened : Option Bytes}
    (h : name ∈ quotedNamesFrom opened s) : ∀ b ∈ name, b ∈ opened.getD [] ∨ b ∈ s := by
  induction s generalizing opened with
  | nil => exact absurd h List.not_mem_nil
  | cons b s ih =>
      -- What is outside of quotes or follows an opening quote has no bytes before it.
      rcases opened with - | - | ⟨c, acc⟩
      · intro a ha
        simp only [quotedNamesFrom] at h
        split at h
        · exact Or.inr (List.mem_cons_of_mem _ ((ih h a ha).resolve_left List.not_mem_nil))
        · exact Or.inr (List.mem_cons_of_mem _ ((ih h a ha).resolve_left List.not_mem_nil))
      · intro a ha
        simp only [quotedNamesFrom] at h
        split at h
        · exact Or.inr (List.mem_cons_of_mem _ ((ih h a ha).resolve_left List.not_mem_nil))
        · rcases ih h a ha with hb | hs
          · exact Or.inr (List.mem_cons.2 (Or.inl (List.mem_singleton.1 hb)))
          · exact Or.inr (List.mem_cons_of_mem _ hs)
      · intro a ha
        simp only [quotedNamesFrom] at h
        split at h
        · rcases List.mem_cons.1 h with rfl | h
          · exact Or.inl (List.mem_reverse.1 ha)
          · exact Or.inr (List.mem_cons_of_mem _ ((ih h a ha).resolve_left List.not_mem_nil))
        · rcases ih h a ha with hacc | hs
          · rcases List.mem_cons.1 hacc with rfl | hacc
            · exact Or.inr (List.mem_cons_self ..)
            · exact Or.inl hacc
          · exact Or.inr (List.mem_cons_of_mem _ hs)

theorem subset_of_mem_quotedNames {list name : Bytes} (h : name ∈ quotedNames list) :
    name ⊆ list := fun b hb =>
  (subset_of_mem_quotedNamesFrom h b hb).resolve_left List.not_mem_nil

/-- A name whose first byte was read is read up to its closing quote. -/
theorem quotedNamesFrom_some {c : UInt8} {acc name : Bytes} (h : Ascii.quote ∉ name)
    (rest : Bytes) :
    quotedNamesFrom (some (c :: acc)) (name ++ Ascii.quote :: rest)
      = ((c :: acc).reverse ++ name) :: quotedNamesFrom none rest := by
  induction name generalizing c acc with
  | nil => simp only [List.nil_append, quotedNamesFrom, if_true, List.append_nil]
  | cons b name ih =>
      rw [List.mem_cons, not_or] at h
      simp only [List.cons_append, quotedNamesFrom, if_neg (Ne.symm h.1)]
      rw [ih h.2, List.reverse_cons (a := b), List.append_assoc]
      rfl

/-- A name in quotes is the next one of the list, and after it the reader is outside of quotes. -/
theorem quotedNamesFrom_quoted {name : Bytes} (hne : name ≠ []) (hq : Ascii.quote ∉ name)
    (rest : Bytes) :
    quotedNamesFrom none (Bytes.quoted name ++ rest) = name :: quotedNamesFrom none rest := by
  cases name with
  | nil => exact absurd rfl hne
  | cons b name =>
      rw [List.mem_cons, not_or] at hq
      rw [Bytes.quoted_eq, List.cons_append, List.append_assoc]
      simp only [List.cons_append, List.nil_append, quotedNamesFrom, if_true,
        if_neg (Ne.symm hq.1)]
      rw [quotedNamesFrom_some hq.2]
      rfl

/-- Names that are written in quotes, with blanks between them, are read back. -/
theorem quotedNames_join {names : List Bytes}
    (h : ∀ name ∈ names, name ≠ [] ∧ Ascii.quote ∉ name) :
    quotedNames (Bytes.join " " (names.map Bytes.quoted)) = names := by
  rw [quotedNames]
  -- By induction on the names, the last of which has no blank after it.
  induction names with
  | nil => rfl
  | cons name names ih =>
      have hname := h name (List.mem_cons_self ..)
      have htail := ih fun n hn => h n (List.mem_cons_of_mem _ hn)
      cases names with
      | nil =>
          rw [List.map_cons, List.map_nil, Bytes.join, ← List.append_nil (Bytes.quoted name),
            quotedNamesFrom_quoted hname.1 hname.2]
          rfl
      | cons next names =>
          rw [List.map_cons, List.map_cons, Bytes.join,
            quotedNamesFrom_quoted hname.1 hname.2, ← List.map_cons]
          -- The blank between two quoted names opens nothing.
          exact congrArg (name :: ·) htail

/-- A label and a list in parentheses are cut out of a text at the first equals sign and at the
first closing parenthesis behind it. -/
theorem Bytes.cut_list_iff {s label list rest : Bytes} :
    (∃ inner, cut Ascii.equals s = some (label, Ascii.openParen :: inner) ∧
      cut Ascii.closeParen inner = some (list, rest)) ↔
    s = label ++ Ascii.equals :: Ascii.openParen :: (list ++ Ascii.closeParen :: rest) ∧
      Ascii.equals ∉ label ∧ Ascii.closeParen ∉ list := by
  constructor
  · rintro ⟨inner, hlabel, hlist⟩
    rcases cut_eq_some_iff.1 hlabel with ⟨rfl, hequals⟩
    rcases cut_eq_some_iff.1 hlist with ⟨rfl, hclose⟩
    exact ⟨rfl, hequals, hclose⟩
  · rintro ⟨rfl, hequals, hclose⟩
    exact ⟨_, cut_eq_some_iff.2 ⟨rfl, hequals⟩, cut_eq_some_iff.2 ⟨rfl, hclose⟩⟩

/-- An input header is a label, a list in parentheses and parameters, of which none is empty. The
label ends at the first equals sign and the list at the first closing parenthesis after it, so the
parts determine the text and the text determines the parts. -/
theorem InputHeader.parse?_eq_some_iff {s : Bytes} {i : InputHeader} :
    parse? s = some i ↔
      s = i.label ++ Ascii.equals :: Ascii.openParen
        :: (i.components ++ Ascii.closeParen :: Ascii.semicolon :: i.params) ∧
      i.label ≠ [] ∧ Ascii.equals ∉ i.label ∧ i.components ≠ [] ∧
      Ascii.closeParen ∉ i.components ∧ i.params ≠ [] := by
  constructor
  · intro h
    -- Each test of the reader rules out one way in which the text could have another form.
    simp only [parse?] at h
    split at h
    · next label b rest hlabel =>
      split at h
      · cases h
      · next hb =>
        split at h
        · next components c params hcomponents =>
          split at h
          · cases h
          · next hc =>
            rw [not_or, Decidable.not_not] at hb
            rw [not_or, not_or, Decidable.not_not] at hc
            rw [hb.2] at hlabel
            rcases Bytes.cut_list_iff.1 ⟨rest, hlabel, hcomponents⟩ with ⟨rfl, hequals, hclose⟩
            rw [← Option.some.inj h, hc.2.1]
            exact ⟨rfl, fun h0 => hb.1 (List.isEmpty_iff.2 h0), hequals,
              fun h0 => hc.1 (List.isEmpty_iff.2 h0), hclose,
              fun h0 => hc.2.2 (List.isEmpty_iff.2 h0)⟩
        · cases h
    · cases h
  · intro h
    rcases h with ⟨htext, hlabel, hequals, hcomponents, hclose, hparams⟩
    -- Put together from such parts, the text is cut where they meet.
    rcases Bytes.cut_list_iff.2 ⟨htext, hequals, hclose⟩ with ⟨rest, hcut, hrest⟩
    simp [parse?, hcut, hrest, hlabel, hcomponents, hparams]

theorem readParameter_snd_subset (item : Bytes) : (readParameter item).2 ⊆ item := fun _ hb =>
  Bytes.splitPair_snd_subset _ _ (Bytes.unquote_subset _ hb)

/-- The value of a parameter is cut out of one item, and an item holds no semicolon. -/
theorem semicolon_not_mem_of_find? {text name value : Bytes}
    (h : (readParameters text).find? name = some value) : Ascii.semicolon ∉ value := by
  -- The table was made of the items, so the value is that of one of them.
  rw [readParameters, Table.find?_ofList] at h
  rcases List.lookup_eq_some_iff.1 h with ⟨front, back, hentries, -⟩
  have hmem : (name, value)
      ∈ ((Bytes.split Ascii.semicolon text).filter (!·.isEmpty)).map readParameter := by
    rw [← List.mem_reverse, hentries]
    exact List.mem_append_right _ (List.mem_cons_self ..)
  rcases List.mem_map.1 hmem with ⟨item, hitem, hread⟩
  have hvalue := readParameter_snd_subset item
  rw [hread] at hvalue
  exact fun hs => Bytes.not_mem_of_mem_split (List.mem_filter.1 hitem).1 (hvalue hs)

namespace Received

/-- The required parameter that is reported is the first one of those that are missing. -/
theorem missing_eq_some_iff {t : Table Bytes} {name : Bytes} :
    requiredParameters.find? (!t.contains ·) = some name ↔
      t.find? name = none ∧ ∃ before after, requiredParameters = before ++ name :: after ∧
        ∀ n ∈ before, ∃ value, t.find? n = some value := by
  simp only [List.find?_eq_some_iff_append, Table.contains, Bool.not_eq_true',
    Option.isSome_eq_false_iff, Option.isNone_iff_eq_none, Bool.not_not, Option.isSome_iff_exists]

/-- No required parameter is missing exactly if each has a value. -/
theorem missing_eq_none_iff {t : Table Bytes} :
    requiredParameters.find? (!t.contains ·) = none ↔
      ∀ name ∈ requiredParameters, ∃ value, t.find? name = some value := by
  simp only [List.find?_eq_none, Table.contains, Bool.not_eq_true', Bool.not_eq_false,
    Option.isSome_iff_exists]

/-- Parameters are read exactly if all four are there and the time stamp is a number of 64 bits. -/
theorem params?_eq_ok_iff {input text : Bytes} {p : Params} :
    params? input text = .ok p ↔
      ∃ created, (readParameters text).find? "created" = some created ∧
        IntKind.int64.wholeNumber created = some p.created ∧
        (readParameters text).find? "keyid" = some p.keyId ∧
        (readParameters text).find? "alg" = some p.algorithm ∧
        (readParameters text).find? "nonce" = some p.nonce := by
  constructor
  · intro h
    rw [params?] at h
    split at h
    · cases h
    · next hall =>
      -- No required parameter is missing, so the defaults are never used.
      have hvalue := missing_eq_none_iff.1 hall
      rcases hvalue "created" (by decide) with ⟨created, hcreated⟩
      rcases hvalue "keyid" (by decide) with ⟨keyId, hkeyId⟩
      rcases hvalue "alg" (by decide) with ⟨algorithm, halgorithm⟩
      rcases hvalue "nonce" (by decide) with ⟨nonce, hnonce⟩
      simp only [hcreated, hkeyId, halgorithm, hnonce, Option.getD_some] at h
      split at h
      · cases h
      · next number hnumber =>
        rw [← Except.ok.inj h]
        exact ⟨created, hcreated, hnumber, hkeyId, halgorithm, hnonce⟩
  · intro h
    rcases h with ⟨created, hcreated, hnumber, hkeyId, halgorithm, hnonce⟩
    have hall : requiredParameters.find? (!(readParameters text).contains ·) = none := by
      refine missing_eq_none_iff.2 fun name hname => ?_
      simp only [requiredParameters, List.mem_cons, List.not_mem_nil, or_false] at hname
      rcases hname with rfl | rfl | rfl | rfl
      · exact ⟨_, hcreated⟩
      · exact ⟨_, hkeyId⟩
      · exact ⟨_, halgorithm⟩
      · exact ⟨_, hnonce⟩
    rw [params?, hall]
    simp only [hcreated, hkeyId, halgorithm, hnonce, Option.getD_some, hnumber]

/-- What is read of a header set is what the steps of reading gave, each from its own header. -/
theorem ofHeaders_eq_ok_iff {headers : Fields} {r : Received} :
    ofHeaders headers = .ok r ↔
      ∃ input signature parts, headers.find? "signature-input" = some input ∧
        headers.find? "signature" = some signature ∧
        InputHeader.parse? input = some parts ∧ params? input parts.params = .ok r.params ∧
        Delimited.parse? signature = some (r.label, r.signature) ∧ r.label = parts.label ∧
        (headers.find? "content-digest").mapM ContentDigest.parse = .ok r.digest ∧
        r.covered = quotedNames parts.components ∧
        r.digestHeader = headers.find? "content-digest" := by
  constructor
  · intro h
    rw [ofHeaders] at h
    -- The first step that gives nothing would have ended the reading.
    cases hinput : headers.find? "signature-input" with
    | none => rw [hinput] at h; cases h
    | some input =>
    cases hsignature : headers.find? "signature" with
    | none => rw [hinput, hsignature] at h; cases h
    | some signature =>
    cases hparts : InputHeader.parse? input with
    | none => simp only [hinput, hsignature, hparts] at h; cases h
    | some parts =>
    simp only [hinput, hsignature, hparts] at h
    rcases bind_eq_ok.1 h with ⟨p, hp, h⟩
    cases hd : Delimited.parse? signature with
    | none => simp only [hd] at h; cases h
    | some d =>
    simp only [hd] at h
    by_cases hlabel : d.1 = parts.label
    · rw [if_neg (fun hne => hne hlabel)] at h
      rcases bind_eq_ok.1 h with ⟨digest, hdigest, hr⟩
      rw [← Except.ok.inj hr]
      exact ⟨input, signature, parts, rfl, rfl, hparts, hp, hd, hlabel, hdigest, rfl, rfl⟩
    · rw [if_pos hlabel] at h
      cases h
  · intro h
    rcases h with ⟨input, signature, parts, hinput, hsignature, hparts, hp, hd, hlabel, hdigest,
      hcovered, hheader⟩
    rw [ofHeaders]
    simp only [hinput, hsignature, hparts, hd]
    refine bind_eq_ok.2 ⟨r.params, hp, ?_⟩
    rw [if_neg (fun hne => hne hlabel)]
    refine bind_eq_ok.2 ⟨r.digest, hdigest, ?_⟩
    rw [← hcovered, ← hheader]
    rfl

variable {headers : Fields} {r : Received}

theorem mem_covered (h : ofHeaders headers = .ok r) {name : Bytes} (hname : name ∈ r.covered) :
    name ≠ [] ∧ Ascii.quote ∉ name := by
  rcases ofHeaders_eq_ok_iff.1 h with ⟨_, _, _, _, _, _, _, _, _, _, hcovered, _⟩
  rw [hcovered] at hname
  exact mem_quotedNames hname

/-- A digest was read from a header, and would be written like that again. -/
theorem digestHeader_eq (h : ofHeaders headers = .ok r) :
    r.digestHeader = r.digest.map ContentDigest.headerValue := by
  rcases ofHeaders_eq_ok_iff.1 h with ⟨_, _, _, _, _, _, _, _, _, hdigest, _, hheader⟩
  rw [hheader]
  rcases mapM_eq_ok.1 hdigest with ⟨hnone, hd⟩ | ⟨header, d, hsome, hparse, hd⟩
  · rw [hnone, hd]
    rfl
  · rw [hsome, hd, Option.map_some, ContentDigest.headerValue_of_parse hparse]

/-- What a signature claims is read from the input header alone. -/
theorem claims_congr {headers' : Fields} {r' : Received} (hr : ofHeaders headers = .ok r)
    (hr' : ofHeaders headers' = .ok r')
    (h : headers'.find? "signature-input" = headers.find? "signature-input") :
    r'.label = r.label ∧ r'.covered = r.covered ∧ r'.params = r.params := by
  rcases ofHeaders_eq_ok_iff.1 hr with
    ⟨input, _, parts, hinput, _, hparts, hparams, _, hlabel, _, hcovered, _⟩
  rcases ofHeaders_eq_ok_iff.1 hr' with
    ⟨input', _, parts', hinput', _, hparts', hparams', _, hlabel', _, hcovered', _⟩
  rw [h, hinput] at hinput'
  -- The same header comes apart in the same way, and the same is read of its parts.
  rw [← Option.some.inj hinput', hparts] at hparts'
  rw [← Option.some.inj hinput', ← Option.some.inj hparts', hparams] at hparams'
  rw [← Option.some.inj hparts'] at hlabel' hcovered'
  exact ⟨hlabel'.trans hlabel.symm, hcovered'.trans hcovered.symm, (Except.ok.inj hparams').symm⟩

/-- No value that was read holds a semicolon, because each was cut out of an item between two of
them. -/
theorem semicolon_not_mem (h : ofHeaders headers = .ok r) :
    Ascii.semicolon ∉ r.params.keyId ∧ Ascii.semicolon ∉ r.params.algorithm ∧
      Ascii.semicolon ∉ r.params.nonce := by
  rcases ofHeaders_eq_ok_iff.1 h with ⟨_, _, _, _, _, _, hparams, _⟩
  rcases params?_eq_ok_iff.1 hparams with ⟨_, _, _, hkeyId, halgorithm, hnonce⟩
  exact ⟨semicolon_not_mem_of_find? hkeyId, semicolon_not_mem_of_find? halgorithm,
    semicolon_not_mem_of_find? hnonce⟩

end Received

end SignedHttp
