import SignedHttp.Proofs.Crypto.Suite
import SignedHttp.Proofs.Inspect.Clean
import SignedHttp.Proofs.Signing.Written

/-!
# Signatures without Issues

Nothing is reported about the headers of a signature, unless the signature covers nothing.

The inspection looks at text, and what a signer writes holds text that it did not choose: the
label, the names of headers and the key identifier. A label might be mistaken for the value of a
signature, a name for two names, a key identifier for further parameters. None of it is. The
inspection searches for a signature between two colons, and a valid label holds no colon
(`hexRunLength?_render`); it splits the list of components at spaces, and a token holds no space
(`listedComponents_join`); it splits the parameters at semicolons, and the key identifier is
taken to hold none. Whatever else stands in it, quotes, parentheses or equals signs, the
inspection does not look for there.

The three headers are inspected each for itself, so there is one lemma for each of them.

## Theorems

* `occursIn_iff_infix`: What it means that a text occurs in another one.
* `componentFault?_of_emittedValue`: The name of an emitted value is in order.
* `ofInput_written`: What is reported about an input header that was written.
* `ofSignature_render`: Nothing is reported about 128 digits under a label.
* `ofDigest_ofBody`: Nothing is reported about a digest that was computed.
* `inspect_sign`: What is reported about the headers of a signature.
-/

namespace SignedHttp

theorem Bytes.occursIn_iff_infix {needle s : Bytes} : occursIn needle s = true ↔ needle <:+: s := by
  induction s with
  | nil => rw [occursIn, List.isEmpty_iff, List.infix_nil]
  | cons b s ih =>
      rw [occursIn, Bool.or_eq_true, List.isPrefixOf_iff_prefix, ih, List.infix_cons_iff]

/-- The first byte of a token does not make a derived component of it. -/
theorem isDerived_of_isValidHeaderName {name : Bytes} (h : isValidHeaderName name = true) :
    isDerived name = false := by
  rw [isDerived, beq_eq_false_iff_ne]
  intro hat
  exact not_mem_of_isValidHeaderName h (by decide) (List.mem_of_mem_head? hat)

/-- The name of an emitted value is a known one or a token, so it holds no space either. -/
theorem componentFault?_of_emittedValue {m : Message} {c : Components} {digest name value : Bytes}
    (hheaders : ∀ name ∈ c.headers, isValidHeaderName name = true)
    (h : EmittedValue m c digest name value) :
    componentFault? name = none ∧ Ascii.space ∉ name := by
  -- The names of method, target and digest are fixed, and that of a header was validated.
  cases h with
  | method _ => exact ⟨by decide, by decide⟩
  | target _ _ => exact ⟨by decide, by decide⟩
  | header hname _ =>
      have htoken := hheaders name hname
      refine ⟨?_, not_mem_of_isValidHeaderName htoken (by decide)⟩
      rw [componentFault?, isDerived_of_isValidHeaderName htoken, if_neg Bool.false_ne_true,
        if_pos htoken]
  | digest _ => exact ⟨by decide, by decide⟩

namespace FormatIssue

/-! ### The input header -/

/-- A list that was written lists what was put into it. -/
theorem listedComponents_join {names : List Bytes} (h : ∀ name ∈ names, Ascii.space ∉ name) :
    listedComponents (Bytes.join " " (names.map Bytes.quoted)) = names := by
  -- Joining no names gives an empty text, which is one empty item when it is split.
  by_cases hnames : names = []
  · subst hnames
    rfl
  · have hfree : ∀ item ∈ names.map Bytes.quoted, Ascii.space ∉ item := by
      intro item hitem
      rcases List.mem_map.1 hitem with ⟨name, hname, rfl⟩
      exact Bytes.not_mem_quoted (by decide) (h name hname)
    have htrim : ∀ item ∈ names.map Bytes.quoted, item.trim = item := by
      intro item hitem
      rcases List.mem_map.1 hitem with ⟨name, -, rfl⟩
      exact Bytes.trim_quoted name
    -- No item is passed over as empty, since each has its quotes.
    have hsome : (names.map Bytes.quoted).filter (!·.isEmpty) = names.map Bytes.quoted := by
      refine List.filter_eq_self.2 fun item hitem => ?_
      rcases List.mem_map.1 hitem with ⟨name, -, rfl⟩
      rfl
    have hsplit : Bytes.split Ascii.space (Bytes.join " " (names.map Bytes.quoted))
        = names.map Bytes.quoted :=
      Bytes.split_join (fun hmap => hnames (List.map_eq_nil_iff.1 hmap)) hfree htrim
    rw [listedComponents, hsplit, hsome, List.map_map]
    exact (List.map_congr_left fun name _ => Bytes.unquote_quoted name).trans (List.map_id' names)

/-- Of names that are in order it is reported only that there are none. -/
theorem ofComponents_eq {names : List Bytes} (h : ∀ name ∈ names, componentFault? name = none) :
    ofComponents names = if names = [] then [noComponents] else [] := by
  rw [ofComponents, List.filterMap_eq_nil_iff.2 h]
  simp only [List.isEmpty_iff, List.map_nil]

/-- The names that the inspection looks for are in a list of parameters that was written. -/
theorem infix_listText (p : Params) : ∀ name ∈ (["created", "keyid", "alg"] : List Bytes),
    name ++ [Ascii.equals] <:+: p.listText := by
  -- A parameter after a semicolon begins with its name, wherever it stands.
  have hitem : ∀ before name value after : Bytes,
      name <:+: before ++ Ascii.semicolon :: ((name ++ value) ++ after) := by
    intro before name value after
    exact ⟨before ++ [Ascii.semicolon], value ++ after, by simp⟩
  intro name hname
  simp only [List.mem_cons, List.not_mem_nil, or_false] at hname
  rcases hname with rfl | rfl | rfl
  · -- The time stamp comes first, and all other parameters after a semicolon.
    exact ⟨[], Decimal.ofInt p.created ++ Ascii.semicolon :: (("keyid=" ++ Bytes.quoted p.keyId)
      ++ Ascii.semicolon :: (("alg=" ++ Bytes.quoted p.algorithm)
        ++ Ascii.semicolon :: ("nonce=" ++ Bytes.quoted p.nonce))), rfl⟩
  · exact hitem _ "keyid=" _ _
  · exact (hitem _ "alg=" _ _).trans ((List.suffix_cons _ _).trans (List.suffix_append _ _)).isInfix

/-- Parameters that can be signed with are in order when they are read again. -/
theorem cleanParameters_listText {p : Params} (hcreated : isValidTimestamp p.created = true)
    (hnonce : isValidNonce p.nonce = true) (halgorithm : p.algorithm = signatureAlgorithm)
    (hkeyId : Ascii.semicolon ∉ p.keyId) : CleanParameters (readParameters p.listText) := by
  -- Reading the list gives the four parameters that were written.
  have hread := readParameters_listText hkeyId (halgorithm ▸ by decide)
    (semicolon_not_mem_of_isValidNonce hnonce)
  rw [hread]
  refine ⟨fun text htext => ?_, ⟨p.nonce, ?_, hnonce⟩, fun a ha => ?_⟩
  · rw [Table.find?_ofList] at htext
    rw [← Option.some.inj htext]
    exact ⟨p.created, IntKind.wholeNumber_ofInt (int64_contains_of_isValidTimestamp hcreated),
      hcreated⟩
  · rw [Table.find?_ofList]
    rfl
  · rw [Table.find?_ofList] at ha
    rw [← Option.some.inj ha]
    exact halgorithm

/-- The header that was written is taken apart into what was put together. -/
theorem inputParts?_written {label : Bytes} {names : List Bytes} (p : Params)
    (hlabel : label ≠ [] ∧ Ascii.equals ∉ label) (hnames : ∀ name ∈ names, IsWritableName name) :
    inputParts? (label ++ Ascii.equals :: p.render names)
      = some ⟨label, Bytes.join " " (names.map Bytes.quoted), Ascii.semicolon :: p.listText⟩ :=
  inputParts?_eq_some_iff.2 ⟨by rw [Params.render_eq_listText], hlabel.1, hlabel.2,
    closeParen_not_mem_join hnames, Or.inr rfl⟩

/-- A list that was written is empty or holds a quote. -/
theorem quote_mem_join {names : List Bytes} (h : names ≠ []) :
    Ascii.quote ∈ Bytes.join " " (names.map Bytes.quoted) := by
  cases names with
  | nil => exact absurd rfl h
  | cons name names =>
      -- The list begins with the quote of its first name.
      cases names with
      | nil => exact List.mem_cons_self
      | cons next names => exact List.mem_cons_self

/-- About an input header that was written, with names and parameters in order, nothing is reported
but that it lists nothing. -/
theorem ofInput_written {label : Bytes} {names : List Bytes} {p : Params}
    (hlabel : label ≠ [] ∧ Ascii.equals ∉ label) (hnames : ∀ name ∈ names, IsWritableName name)
    (horder : ∀ name ∈ names, componentFault? name = none ∧ Ascii.space ∉ name)
    (hparams : CleanParameters (readParameters p.listText)) :
    ofInput (label ++ Ascii.equals :: p.render names)
      = if names = [] then [noComponents] else [] := by
  have hparts := inputParts?_written p hlabel hnames
  have htext := (inputParts?_eq_some_iff.1 hparts).1
  have hdelimiters : [Ascii.equals, Ascii.openParen, Ascii.closeParen].all
      (label ++ Ascii.equals :: p.render names).contains = true := by
    rw [htext]
    simp
  -- The inspection looks for the names in the whole header; they are in the part after the list.
  have hthere : (["created", "keyid", "alg"] : List Bytes).flatMap (fun name =>
      whenever (!Bytes.occursIn (name ++ [Ascii.equals]) (label ++ Ascii.equals :: p.render names))
        (missingParameter name)) = [] := by
    refine List.flatMap_eq_nil_iff.2 fun name hname => ?_
    rw [whenever_eq_nil_iff, Bool.not_eq_false', Bytes.occursIn_iff_infix, htext]
    have hsuffix : p.listText <:+ label ++ Ascii.equals :: Ascii.openParen ::
        (Bytes.join " " (names.map Bytes.quoted) ++ Ascii.closeParen
          :: Ascii.semicolon :: p.listText) :=
      ⟨label ++ Ascii.equals :: Ascii.openParen :: (Bytes.join " " (names.map Bytes.quoted)
        ++ [Ascii.closeParen, Ascii.semicolon]), by simp⟩
    exact (infix_listText p name hname).trans hsuffix.isInfix
  -- A list that is not empty has quotes, as it should.
  have hquotes : (!(Bytes.join " " (names.map Bytes.quoted)).isEmpty
      && !(Bytes.join " " (names.map Bytes.quoted)).contains Ascii.quote) = false := by
    by_cases hempty : names = []
    · subst hempty
      rfl
    · have hmem := List.contains_iff_mem.2 (quote_mem_join hempty)
      rw [hmem, Bool.not_true, Bool.and_false]
  rw [ofInput, if_pos hdelimiters, hparts]
  simp only [ofInputParts, hthere, hquotes, readParameters_semicolon,
    ofParameters_eq_nil_iff.2 hparams,
    listedComponents_join fun name hname => (horder name hname).2,
    ofComponents_eq fun name hname => (horder name hname).1]
  rfl

/-! ### The signature and the digest -/

/-- Without a colon in the label, the first run of digits between two colons is the value. -/
theorem hexRunLength?_render {label hex : Bytes} (hlabel : Ascii.colon ∉ label)
    (hhex : Hex.isHex hex = true) (hsome : hex ≠ []) :
    hexRunLength? (Delimited.render label hex) = some hex.length := by
  rw [Hex.isHex, List.all_eq_true] at hhex
  -- By induction on the label, which the search walks through byte by byte without finding a colon.
  induction label with
  | nil =>
      have hrun : (hex ++ [Ascii.colon]).takeWhile Ascii.isHexDigit = hex := by
        rw [List.takeWhile_append_of_pos hhex]
        exact List.append_nil hex
      have hclosed : ((hex ++ [Ascii.colon]).drop hex.length).head? = some Ascii.colon := by
        rw [List.drop_left]
        rfl
      change hexRunLength? (Ascii.equals :: Ascii.colon :: (hex ++ [Ascii.colon])) = _
      rw [hexRunLength?, if_neg (by decide), hexRunLength?, if_pos rfl]
      simp only [hrun, hclosed]
      rw [if_pos ⟨hsome, trivial⟩]
  | cons b label ih =>
      rw [List.mem_cons, not_or] at hlabel
      change hexRunLength? (b :: Delimited.render label hex) = _
      rw [hexRunLength?, if_neg (Ne.symm hlabel.1)]
      exact ih hlabel.2

/-- Nothing is reported about 64 bytes in hexadecimal under a valid label. -/
theorem ofSignature_render {label hex : Bytes} (hlabel : isValidLabel label = true)
    (hhex : Hex.isHex hex = true) (hlength : hex.length = 128) :
    ofSignature (Delimited.render label hex) = [] := by
  have hsome : hex ≠ [] := by
    rintro rfl
    exact absurd hlength (by decide)
  have hcolon : Ascii.colon ∉ hex := fun hmem =>
    absurd (List.all_eq_true.1 hhex Ascii.colon hmem) (by decide)
  have hequals := equals_not_mem_of_isValidLabel hlabel
  have hform : Delimited.parse? (Delimited.render label hex) = some (label, hex) :=
    Delimited.parse?_eq_some_iff.2 ⟨rfl, hequals.1, hequals.2, hsome, hcolon⟩
  rw [ofSignature, hform,
    hexRunLength?_render (not_mem_of_isValidLabel hlabel (by decide)) hhex hsome, hlength,
    List.append_eq_nil_iff, Option.any_some, hhex]
  exact ⟨rfl, rfl⟩

/-- A text that was written in base 64 has the shape that the inspection asks for. -/
theorem isBase64Shaped_encode {x : Bytes} (h : x ≠ []) :
    isBase64Shaped (Base64.encode x) = true := by
  have hdigits : ∀ b ∈ (Base64.sextets x).map Base64.char,
      (Base64.charValue b).isSome = true := by
    intro b hb
    rcases List.mem_map.1 hb with ⟨v, hv, rfl⟩
    rw [(Base64.char_spec v (Base64.lt_of_mem_sextets x v hv)).1]
    rfl
  -- The padding begins where the digits end.
  have hpadding : ∀ n : Nat, (List.replicate n Ascii.equals).takeWhile
      (fun b => (Base64.charValue b).isSome) = [] ∧
      (List.replicate n Ascii.equals).dropWhile (fun b => (Base64.charValue b).isSome)
        = List.replicate n Ascii.equals := by
    intro n
    cases n with
    | zero => exact ⟨rfl, rfl⟩
    | succ n => exact ⟨rfl, rfl⟩
  -- There is a digit, since there is a byte to encode.
  have hsome : (Base64.sextets x).map Base64.char ≠ [] := by
    fun_cases Base64.sextets x with
    | case1 => exact absurd rfl h
    | case2 a => exact List.cons_ne_nil _ _
    | case3 a b => exact List.cons_ne_nil _ _
    | case4 a b c s => exact List.cons_ne_nil _ _
  simp only [isBase64Shaped, Base64.encode_eq, List.takeWhile_append_of_pos hdigits,
    List.dropWhile_append_of_pos hdigits, hpadding, List.append_nil, Bool.and_eq_true,
    Bool.not_eq_true', List.isEmpty_eq_false_iff]
  refine ⟨hsome, List.all_eq_true.2 fun b hb => ?_⟩
  rw [List.eq_of_mem_replicate hb]
  rfl

/-- Nothing is reported about a digest that was computed, under either algorithm. -/
theorem ofDigest_ofBody (a : DigestAlgorithm) (body : Option Bytes) :
    ofDigest (ContentDigest.ofBody a body).headerValue = [] := by
  have hname : a.name ≠ [] ∧ Ascii.equals ∉ a.name := by
    cases a <;> exact ⟨by decide, by decide⟩
  -- No algorithm gives an empty digest.
  have hsome : a.hash.digest (body.getD []) ≠ [] := by
    intro hempty
    have hsize := Sha2.Algorithm.length_digest a.hash (body.getD [])
    rw [hempty] at hsize
    cases a <;> exact absurd hsize (by decide)
  have hform : Delimited.parse? (ContentDigest.ofBody a body).headerValue
      = some (a.name, (ContentDigest.ofBody a body).value) :=
    Delimited.parse?_eq_some_iff.2 ⟨rfl, hname.1, hname.2, Base64.encode_ne_nil hsome,
      Base64.colon_not_mem_encode _⟩
  have hmark : beforeMark? (ContentDigest.ofBody a body).headerValue = some a.name :=
    beforeMark?_render hname.2 _
  have hshape : isBase64Shaped (ContentDigest.ofBody a body).value = true :=
    isBase64Shaped_encode hsome
  rw [ofDigest, hform, hmark, List.append_eq_nil_iff, Option.any_some, hshape, Option.getD_some,
    DigestAlgorithm.parse?_name]
  exact ⟨rfl, rfl⟩

end FormatIssue

namespace Signer

variable {suite : Suite} {s : Signer} {o : SigningOptions} {m : Message} {c : CanonicalMessage}
  {r : SigningResult}

/-- What is reported about the headers of a signature whose key identifier holds no semicolon. -/
theorem IsSignature.inspect_headers (h : IsSignature suite s o m c r)
    (hlabel : isValidLabel s.config.label = true)
    (hnames : ∀ name ∈ (s.components o).headers, isValidHeaderName name = true)
    (hkeyId : Ascii.semicolon ∉ s.config.keyId) :
    (FormatReport.inspect r.headers).labels = [s.config.label] ∧
      (FormatReport.inspect r.headers).issues = if c.covered = [] then [.noComponents] else [] := by
  have hequals := equals_not_mem_of_isValidLabel hlabel
  have hwritable : ∀ name ∈ c.covered, IsWritableName name := by
    intro name hname
    rcases h.emittedValue_of_mem hname with ⟨value, hvalue⟩
    exact isWritableName_of_emittedValue hnames hvalue
  have horder : ∀ name ∈ c.covered, componentFault? name = none ∧ Ascii.space ∉ name := by
    intro name hname
    rcases h.emittedValue_of_mem hname with ⟨value, hvalue⟩
    exact componentFault?_of_emittedValue hnames hvalue
  have hparams := FormatIssue.cleanParameters_listText h.created h.nonce h.algorithm
    (h.keyId ▸ hkeyId)
  have hinput := FormatIssue.ofInput_written hequals hwritable horder hparams
  have hsignature : FormatIssue.ofSignature
      (Delimited.render s.config.label (suite.sign s.key c.text).toHex) = [] :=
    FormatIssue.ofSignature_render hlabel (Octets.isHex_toHex _) (Octets.length_toHex _)
  -- There is a digest header only if a digest was computed for it.
  have hdigest : (((s.digest? o m).map ContentDigest.headerValue).map
      FormatIssue.ofDigest).getD [] = [] := by
    unfold digest?
    split
    · exact FormatIssue.ofDigest_ofBody _ _
    · rfl
  simp only [FormatReport.inspect, h.find?_signatureInput, h.find?_signature, h.find?_contentDigest,
    Option.map_some, Option.getD_some, Option.bind_some, hinput, hsignature, hdigest,
    FormatIssue.inputParts?_written r.params hequals hwritable, List.append_nil]
  exact ⟨rfl, rfl⟩

/-- The headers of a signature under a valid configuration, with a key identifier that holds no
semicolon, have the configured label. Nothing is reported about them if a component was emitted,
and otherwise only that there is none. -/
theorem inspect_sign {config : SigningConfig} {w : World} (hs : create config = .ok s)
    (hkeyId : Ascii.semicolon ∉ config.keyId) (ho : o.components = none)
    (hr : (s.sign suite m o w).1 = .ok r) :
    ∃ c, s.canonical o m r.params = .ok c ∧ r.canonicalMessage = c.text ∧
      (FormatReport.inspect r.headers).labels = [config.label] ∧
      (FormatReport.inspect r.headers).issues
        = if c.covered = [] then [.noComponents] else [] := by
  rcases create_eq_ok hs with ⟨rfl, hvalid⟩
  rcases SigningConfig.validate_eq_ok_iff.1 hvalid with ⟨_, _, _, htokens, hlabel⟩
  rcases sign_eq_ok hr with ⟨c, h⟩
  -- Without an override the components are those that were validated.
  have hnames : ∀ name ∈ (s.components o).headers, isValidHeaderName name = true := by
    intro name hname
    rw [components, ho, Option.getD_none] at hname
    exact htokens name (List.mem_append_left _ hname)
  exact ⟨c, h.canonical, h.text, h.inspect_headers hlabel hnames hkeyId⟩

/-- A key identifier with quotes, parentheses, equals signs and the name of a parameter in it does
no harm, with a header and a digest covered. -/
theorem inspect_sign_quoting_keyId :
    let config : SigningConfig :=
      { keyId := "a\")=(\"nonce=", privateKey := some Sample.key, label := "@sig-1"
        components := { method := true, headers := ["date"], contentDigest := true } }
    let s : Signer := ⟨config, Sample.key⟩
    let o : SigningOptions := { nonce := some Sample.nonce, created := some 1700000000 }
    let w : World := { clock := ⟨0, 0⟩, random := fun _ => .zero 16 }
    Ascii.semicolon ∉ config.keyId ∧ create config = .ok s ∧
      ∃ r, (s.sign Sample.suite Sample.request o w).1 = .ok r ∧
        (FormatReport.inspect r.headers).labels = [("@sig-1" : Bytes)] ∧
        (FormatReport.inspect r.headers).issues = [] := by
  intro config s o w
  have hkeyId : Ascii.semicolon ∉ config.keyId := by decide
  have hs : create config = .ok s := rfl
  rcases exists_ok_of_isOk (show (s.sign Sample.suite Sample.request o w).1.isOk = true from rfl)
    with ⟨r, hr⟩
  rcases inspect_sign hs hkeyId rfl hr with ⟨c, hc, -, hlabels, hissues⟩
  -- Something is covered, so the one issue that is left is not reported.
  have hcovered : (s.canonical o Sample.request r.params).map CanonicalMessage.covered
      = .ok [("@method" : Bytes), ("date" : Bytes), ("content-digest" : Bytes)] := rfl
  rw [hc] at hcovered
  rw [if_neg (Except.ok.inj hcovered ▸ List.cons_ne_nil _ _)] at hissues
  exact ⟨hkeyId, hs, r, hr, hlabels, hissues⟩

end Signer

end SignedHttp
