import SignedHttp.Proofs.Signature.Binding
import SignedHttp.Proofs.Text.Flip
import SignedHttp.Proofs.Verify.RoundTrip

/-!
# A Flipped Bit Is Noticed

A signed message is changed in one bit, of its `Signature` header or of a header that is
covered, and then it is not accepted any more. What is assumed for this of the suite is
that the key of the signer accepts what was signed, with the signature that was made, and
nothing else (`Suite.AcceptsOnly`). Two requests that are genuine under the key are then
requests with the same signed bytes and the same signature. The bytes determine the value
of every covered header (`header_eq_of_genuine`), so in these there is no difference.

The `Signature` header is not among what is signed. It has a label, which has to be that
of the other header, and the digits of the signature. A change of the label is noticed
for what it is, and a change of the digits if they stand for other bytes. They do not if
only the case of a letter is changed, so this is the one change that goes unnoticed.

## Main definitions

* `Message.flipBit`: A message with one bit of a header flipped.
* `Suite.AcceptsOnly`: One signature of one text is all that a key accepts.
* `Verifier.UsesKey`: The key that a verifier finds.
* `IsCaseFlip`: The flip changes the case of a letter among the digits of a signature.

## Theorems

* `of_genuine`: What a genuine signature was made of.
* `UsesKey.flipBit`: The key is found as before if the header that names it is not changed.
* `header_eq_of_genuine`: Covered headers of genuine requests are the same.
* `isCaseFlip_of_genuine`: What is left to be changed in the `Signature` header.
* `genuine_of_isCaseFlip`: This change goes unnoticed.
* `flipBit_rejected`: A flipped bit makes a signed message invalid.
-/

namespace SignedHttp

/-- The message with one bit flipped in the value of a header. -/
def Message.flipBit (name : Bytes) (place : Nat) (bit : Fin 8) (m : Message) : Message :=
  { m with headers := m.headers.modify name (Bytes.flipBit place bit) }

/-- Under the key the suite accepts one signature of one text, and nothing else. -/
def Suite.AcceptsOnly (suite : Suite) (key : PublicKey) (text : Bytes) (signature : RawSignature) :
    Prop :=
  ∀ t s, suite.verify key t s = true → t = text ∧ s = signature

/-- If the verifier finds a key, it is this one. -/
def Verifier.UsesKey (v : Verifier) (key : PublicKey) (headers : Fields) (o : VerifyOptions)
    (abort : Abort) : Prop :=
  ∀ e, (v.gather headers o abort).result = .ok e → e.key = key

/-- In a `Signature` header with a label, the flip changes the case of a letter among the
digits. -/
def IsCaseFlip (label value : Bytes) (place : Nat) (bit : Fin 8) : Prop :=
  label.length + 2 ≤ place ∧ (∃ b, value[place]? = some b ∧ Ascii.isLetter b = true) ∧
    bit = Ascii.caseBit

theorem Message.find?_flipBit_other {name other : Bytes} (hname : sameName name "signature" = true)
    (hother : sameName other "signature" = false) (place : Nat) (bit : Fin 8) (m : Message) :
    (m.flipBit name place bit).headers.find? other = m.headers.find? other := by
  refine Fields.find?_modify_other ?_ _
  by_contra hsame
  rw [Bool.not_eq_false] at hsame
  rw [sameName_trans hsame hname] at hother
  exact Bool.noConfusion hother

theorem Message.find?_flipBit_signature {name : Bytes} (hname : sameName name "signature" = true)
    (place : Nat) (bit : Fin 8) (m : Message) :
    (m.flipBit name place bit).headers.find? "signature"
      = (m.headers.find? "signature").map (Bytes.flipBit place bit) :=
  Fields.find?_modify_same (sameName_comm _ _ ▸ hname) _

/-- If only the `Signature` header was changed, the label of the signature is the same, and the
rest of the header is the flipped one. -/
theorem Received.render_of_flipBit {m : Message} {name : Bytes} {place : Nat} {bit : Fin 8}
    {r r' : Received} (hr : ofHeaders m.headers = .ok r)
    (hr' : ofHeaders (m.flipBit name place bit).headers = .ok r')
    (hname : sameName name "signature" = true) :
    m.header "signature" = some (Delimited.render r.label r.signature) ∧
      Ascii.equals ∉ r.label ∧
      Delimited.render r.label r'.signature
        = (Delimited.render r.label r.signature).flipBit place bit := by
  rcases ofHeaders_eq_ok_iff.1 hr with ⟨_, s, _, _, hs, _, _, hread, _⟩
  rcases ofHeaders_eq_ok_iff.1 hr' with ⟨_, s', _, _, hs', _, _, hread', _⟩
  rcases Delimited.parse?_eq_some_iff.1 hread with ⟨rfl, -, hequals, -⟩
  rcases Delimited.parse?_eq_some_iff.1 hread' with ⟨rfl, -⟩
  -- The other header of the signature stays as it is, and the two labels are its label.
  have hlabel := (claims_congr hr hr' (Message.find?_flipBit_other hname (by decide) _ _ m)).1
  rw [Message.find?_flipBit_signature hname, hs, Option.map_some, hlabel] at hs'
  exact ⟨hs, hequals, (Option.some.inj hs').symm⟩

/-- A flipped bit of a digit is one of the signature that is read, if it makes no colon. -/
theorem Received.ofHeaders_flipBit {m : Message} {name : Bytes} {i : Nat} {bit : Fin 8}
    {r : Received} (hr : ofHeaders m.headers = .ok r) (hname : sameName name "signature" = true)
    (hi : i < r.signature.length) (hcolon : Ascii.colon ∉ r.signature.flipBit i bit) :
    ofHeaders (m.flipBit name (r.label.length + 2 + i) bit).headers
      = .ok { r with signature := r.signature.flipBit i bit } := by
  rcases ofHeaders_eq_ok_iff.1 hr with
    ⟨input, s, parts, hinput, hs, hparts, hparams, hread, hlabel, hdigest, hcovered, hheader⟩
  rcases Delimited.parse?_eq_some_iff.1 hread with ⟨rfl, hne, hequals, -⟩
  -- A flip does not make the signature shorter, so there is still one.
  have hnonempty : r.signature.flipBit i bit ≠ [] := by
    intro hempty
    have hlength := Bytes.length_flipBit i bit r.signature
    rw [hempty, List.length_nil] at hlength
    omega
  refine ofHeaders_eq_ok_iff.2 ⟨input, _, parts, ?_, ?_, hparts, hparams,
    Delimited.parse?_eq_some_iff.2 ⟨rfl, hne, hequals, hnonempty, hcolon⟩, hlabel, ?_, hcovered, ?_⟩
  · rw [Message.find?_flipBit_other hname (by decide), hinput]
  · rw [Message.find?_flipBit_signature hname, hs, Option.map_some, Delimited.render_flipBit _ hi]
  · rw [Message.find?_flipBit_other hname (by decide)]
    exact hdigest
  · rw [Message.find?_flipBit_other hname (by decide)]
    exact hheader

namespace Verifier

variable {suite : Suite} {key : PublicKey} {text : Bytes} {signature : RawSignature}
  {v : Verifier} {o : VerifyOptions} {abort : Abort} {w w' : World} {a b : Message}
  {received : Received}

/-- A genuine signature under the key is the one signature, of the one text. -/
theorem of_genuine {headers : Fields} (hexact : suite.AcceptsOnly key text signature)
    (hkey : v.UsesKey key headers o abort)
    (h : (v.verify suite a headers o abort w).1.checks.cryptographic = true) :
    ∃ r c, Received.ofHeaders headers = .ok r ∧ r.canonical a = .ok c ∧ c.text = text ∧
      Octets.ofHex? 64 r.signature = some signature := by
  rcases verify_cryptographic_iff.1 h with ⟨e, hgather, hgenuine⟩
  rcases checkCryptographic_iff.1 hgenuine with ⟨-, s, c, hhex, hc, hverify⟩
  rw [hkey e hgather] at hverify
  rcases hexact _ _ hverify with ⟨htext, hsignature⟩
  exact ⟨e.received, c, (gather_eq_ok_iff.1 hgather).1, hc, htext, hsignature ▸ hhex⟩

theorem usesKey_of_given {headers : Fields} (h : o.publicKey = some key) :
    v.UsesKey key headers o abort := by
  intro e he
  have hkey := (gather_eq_ok_iff.1 he).2.2
  simp only [findKey, knownKey?, h] at hkey
  exact (Except.ok.inj hkey).symm

/-- The key is found under the identifier that the other header of the signature names, so it
stays the same as long as that header does. -/
theorem UsesKey.flipBit (h : v.UsesKey key a.headers o abort)
    (hA : (v.verify suite a a.headers o abort w).1.checks.cryptographic = true) {name : Bytes}
    (hname : sameName "signature-input" name = false) (place : Nat) (bit : Fin 8) :
    v.UsesKey key (a.flipBit name place bit).headers o abort := by
  intro e' hgather'
  rcases verify_cryptographic_iff.1 hA with ⟨e, hgather, -⟩
  rcases gather_eq_ok_iff.1 hgather with ⟨hr, -, hfound⟩
  rcases gather_eq_ok_iff.1 hgather' with ⟨hr', -, hfound'⟩
  have hstays : (a.flipBit name place bit).headers.find? "signature-input"
      = a.headers.find? "signature-input" := Fields.find?_modify_other hname _
  rw [(Received.claims_congr hr hr' hstays).2.2, hfound] at hfound'
  rw [← Except.ok.inj hfound']
  exact h e hgather

/-- A covered header has the same value in all genuine requests. -/
theorem header_eq_of_genuine (hexact : suite.AcceptsOnly key text signature)
    (hkeyA : v.UsesKey key a.headers o abort) (hkeyB : v.UsesKey key b.headers o abort)
    (hA : (v.verify suite a a.headers o abort w).1.checks.cryptographic = true)
    (hB : (v.verify suite b b.headers o abort w').1.checks.cryptographic = true)
    (hr : Received.ofHeaders a.headers = .ok received) {name : Bytes}
    (hname : name ∈ received.covered) (hat : name.head? ≠ some Ascii.atSign) :
    b.header name = a.header name := by
  rcases of_genuine hexact hkeyA hA with ⟨r, c, hrA, hcA, htextA, -⟩
  rcases of_genuine hexact hkeyB hB with ⟨r', c', hrB, hcB, htextB, -⟩
  rw [hr] at hrA
  rw [← Except.ok.inj hrA] at hcA
  -- One text was signed, so the line of the header is the same in both.
  rcases Received.exists_value_of_text_eq hr hrB hcA hcB (htextA.trans htextB.symm) hname with
    ⟨value, hvalueA, hvalueB⟩
  -- The digests were read from the messages themselves.
  rcases Received.ofHeaders_eq_ok_iff.1 hr with ⟨_, _, _, _, _, _, _, _, _, _, _, hdigestA⟩
  rcases Received.ofHeaders_eq_ok_iff.1 hrB with ⟨_, _, _, _, _, _, _, _, _, _, _, hdigestB⟩
  rw [hdigestA] at hvalueA
  rw [hdigestB] at hvalueB
  exact (hvalueB.header_eq hat).trans (hvalueA.header_eq hat).symm

/-- A flipped bit of the `Signature` header that goes unnoticed changes the case of a letter. -/
theorem isCaseFlip_of_genuine (hexact : suite.AcceptsOnly key text signature)
    {name : Bytes} {place : Nat} {bit : Fin 8} (hkeyA : v.UsesKey key a.headers o abort)
    (hkeyB : v.UsesKey key (a.flipBit name place bit).headers o abort)
    (hA : (v.verify suite a a.headers o abort w).1.checks.cryptographic = true)
    (hB : (v.verify suite (a.flipBit name place bit) (a.flipBit name place bit).headers o abort
      w').1.checks.cryptographic = true)
    (hname : sameName name "signature" = true) :
    ∃ label hex, a.header "signature" = some (Delimited.render label hex) ∧
      Ascii.equals ∉ label ∧ (place < (Delimited.render label hex).length →
        IsCaseFlip label (Delimited.render label hex) place bit) := by
  rcases of_genuine hexact hkeyA hA with ⟨r, -, hrA, -, -, hhexA⟩
  rcases of_genuine hexact hkeyB hB with ⟨r', -, hrB, -, -, hhexB⟩
  rcases Octets.ofHex?_eq_some_iff.1 hhexA with ⟨hlengthA, hdecodeA⟩
  rcases Octets.ofHex?_eq_some_iff.1 hhexB with ⟨hlengthB, hdecodeB⟩
  rcases Received.render_of_flipBit hrA hrB hname with ⟨hheader, hequals, hflip⟩
  refine ⟨r.label, r.signature, hheader, hequals, fun hplace => ?_⟩
  -- The flipped bit is one of the digits, and both texts stand for the same signature.
  rcases Delimited.place_of_flipBit (hlengthB.trans hlengthA.symm) hplace hflip with
    ⟨i, rfl, hi, hdigit⟩
  rcases Hex.isLetter_of_flipBit hdecodeA hdecodeB hi hdigit with ⟨b, hb, hletter, hbit⟩
  refine ⟨Nat.le_add_right _ _, ⟨b, ?_, hletter⟩, hbit⟩
  rw [Delimited.getElem?_render, if_neg (by omega), Nat.add_sub_cancel_left, if_pos hi, hb]

/-- A flip that changes the case of a digit goes unnoticed, if the `Signature` header is not
covered itself. -/
theorem genuine_of_isCaseFlip {name value : Bytes} {place : Nat} {bit : Fin 8}
    (hA : (v.verify suite a a.headers o abort w).1.checks.cryptographic = true)
    (hr : Received.ofHeaders a.headers = .ok received)
    (hname : sameName name "signature" = true) (hvalue : a.header "signature" = some value)
    (hflip : IsCaseFlip received.label value place bit)
    (hcovered : ∀ n ∈ received.covered, sameName n "signature" = false) :
    (v.verify suite (a.flipBit name place bit) (a.flipBit name place bit).headers o abort
      w').1.checks.cryptographic = true := by
  rcases verify_cryptographic_iff.1 hA with ⟨e, hgather, hgenuine⟩
  rcases gather_eq_ok_iff.1 hgather with ⟨hreceived, hpolicy, hkey⟩
  rcases checkCryptographic_iff.1 hgenuine with ⟨halgorithm, s, c, hhex, hc, hverify⟩
  rw [hr] at hreceived
  rw [← Except.ok.inj hreceived] at hkey halgorithm hhex hc
  rcases Received.ofHeaders_eq_ok_iff.1 hr with ⟨_, text, _, _, htext, _, _, hread, _⟩
  rcases Delimited.parse?_eq_some_iff.1 hread with ⟨rfl, -⟩
  rw [← Option.some.inj (htext.symm.trans hvalue)] at hflip
  rcases hflip with ⟨hplace, ⟨b, hb, hletter⟩, rfl⟩
  rcases Nat.exists_eq_add_of_le hplace with ⟨i, rfl⟩
  -- A letter is not the colon at the end, so it is one of the digits.
  have hletterNe : b ≠ Ascii.colon := by
    rintro rfl
    exact absurd hletter (by decide)
  rcases Delimited.getElem?_of_render hb hletterNe with ⟨hi, hdigit⟩
  rw [← Octets.ofHex?_flipBit hdigit hletter] at hhex
  have hcolon := Hex.colon_not_mem_of_decode (Octets.ofHex?_eq_some_iff.1 hhex).2
  have hflipped := Received.ofHeaders_flipBit hr hname hi hcolon
  -- What is covered is the same, and so is what was signed.
  have hcanonical : received.canonical (a.flipBit name (received.label.length + 2 + i)
      Ascii.caseBit) = .ok c := by
    rw [← hc, Received.canonical, Received.canonical, CanonicalMessage.ofCovered,
      CanonicalMessage.ofCovered]
    refine congrArg _ (CanonicalMessage.coveredValues_congr rfl rfl fun n hn => ?_)
    exact Message.find?_flipBit_other hname (hcovered n hn) _ _ a
  refine verify_cryptographic_iff.2 ⟨⟨_, e.policy, e.key⟩,
    gather_eq_ok_iff.2 ⟨hflipped, hpolicy, hkey⟩, ?_⟩
  exact checkCryptographic_iff.2 ⟨halgorithm, s, c, hhex, hcanonical, hverify⟩

end Verifier

namespace Sample

/-- A signer of the request. -/
def signer : Signer :=
  ⟨{ keyId := "k", privateKey := some key, components := .create true false ["date"] false }, key⟩

/-- The call in which the request was signed. -/
def signing : SigningOptions := { nonce := some nonce, created := some 1700000000 }

/-- A verifier of the request. -/
def verifier : Verifier := ⟨{ policies := ⟨.ofList [("standard", { name := "standard" })]⟩ }⟩

def verifying : VerifyOptions := { publicKey := some publicKey }

/-- A minute after the request was signed. -/
def world : World := { clock := ⟨1700000060, 0⟩, random := fun _ => .zero 16 }

theorem sign_eq :
    ∃ r, (signer.sign suite request signing world).1 = .ok r ∧ r.canonicalMessage = text ∧
      r.apply request = signed := by
  rcases map_eq_ok.1 (show (signer.sign suite request signing world).1.map
    (fun r => (r.canonicalMessage, r.apply request)) = .ok (text, signed) by decide +kernel) with
    ⟨r, hr, hsigned⟩
  exact ⟨r, hr, congrArg (·.1) hsigned, congrArg (·.2) hsigned⟩

theorem acceptsOnly :
    suite.AcceptsOnly (suite.publicKey signer.key) text (suite.sign signer.key text) := by
  intro t s h
  rw [suite, Suite.single_sign]
  exact (Suite.single_verify_iff.1 h).2

end Sample

namespace Signer

variable {suite : Suite} {config : SigningConfig} {s : Signer} {so : SigningOptions}
  {m : Message} {r : SigningResult} {v : Verifier} {o : VerifyOptions} {abort : Abort}
  {w w₁ w₂ : World}

/-- The label of the `Signature` header is that of the configuration. -/
theorem label_of_header (hs : Signer.create config = .ok s)
    (hsign : (s.sign suite m so w).1 = .ok r) {label hex : Bytes}
    (hheader : (r.apply m).header "signature" = some (Delimited.render label hex))
    (hequals : Ascii.equals ∉ label) : label = config.label := by
  rcases create_eq_ok hs with ⟨rfl, hvalid⟩
  rcases SigningConfig.validate_eq_ok_iff.1 hvalid with ⟨-, -, -, -, hlabel⟩
  rcases sign_eq_ok hsign with ⟨c, h⟩
  rw [Message.header, h.find?_apply, h.find?_signature, Option.some_or] at hheader
  -- Both labels end at the first equals sign of the header.
  exact (Bytes.append_cons_inj (equals_not_mem_of_isValidLabel hlabel).2 hequals
    (Option.some.inj hheader)).1.symm

/-- A signed message that is genuine under the key of the signer is so no longer, and not valid,
if a bit is flipped in a header that is covered, or in the `Signature` header, except for a flip
there that changes the case of a letter among the digits. A covered `Signature-Input` header names
the key, so for a flip in it the verifier is asked for the same key once more. -/
theorem flipBit_rejected (hs : Signer.create config = .ok s)
    (hsign : (s.sign suite m so w).1 = .ok r)
    (hexact : suite.AcceptsOnly (suite.publicKey s.key) r.canonicalMessage
      (suite.sign s.key r.canonicalMessage))
    (hgenuine : (v.verify suite (r.apply m) (r.apply m).headers o abort
      w₁).1.checks.cryptographic = true)
    {received : Received} (hr : Received.ofHeaders (r.apply m).headers = .ok received)
    {name value : Bytes} {place : Nat} (hvalue : (r.apply m).header name = some value)
    (hplace : place < value.length) (bit : Fin 8)
    (hname : (name ∈ received.covered ∧ name.head? ≠ some Ascii.atSign) ∨
      (sameName name "signature" = true ∧ ¬ IsCaseFlip config.label value place bit))
    (hkey : v.UsesKey (suite.publicKey s.key) (r.apply m).headers o abort)
    (hinput : sameName "signature-input" name = true → v.UsesKey (suite.publicKey s.key)
      ((r.apply m).flipBit name place bit).headers o abort) :
    let flipped := (r.apply m).flipBit name place bit
    let verdict := (v.verify suite flipped flipped.headers o abort w₂).1
    verdict.checks.cryptographic = false ∧ verdict.status ≠ .valid := by
  intro flipped verdict
  have hkeyFlipped : v.UsesKey (suite.publicKey s.key) flipped.headers o abort := by
    cases hsame : sameName "signature-input" name with
    | true => exact hinput hsame
    | false => exact hkey.flipBit hgenuine hsame place bit
  have hrejected : verdict.checks.cryptographic = false := by
    -- Were it still genuine, the suite would have accepted the one text and the one signature.
    by_contra hB
    rw [Bool.not_eq_false] at hB
    rcases hname with ⟨hcovered, hat⟩ | ⟨hsignature, hcase⟩
    · -- The header would have the same value as before.
      have hsame := Verifier.header_eq_of_genuine hexact hkey hkeyFlipped hgenuine hB hr hcovered
        hat
      have hflipped : flipped.header name = some (value.flipBit place bit) :=
        (Fields.find?_modify_same (beq_self_eq_true _) _).trans (congrArg _ hvalue)
      rw [hflipped, hvalue] at hsame
      exact Bytes.getElem?_flipBit_ne hplace bit (congrArg (·[place]?) (Option.some.inj hsame))
    · rcases Verifier.isCaseFlip_of_genuine hexact hkey hkeyFlipped hgenuine hB hsignature with
        ⟨label, hex, hheader, hequals, hflip⟩
      rw [← label_of_header hs hsign hheader hequals] at hcase
      rw [Message.header, Fields.find?_congr hsignature] at hvalue
      rw [← Option.some.inj (hvalue.symm.trans hheader)] at hflip
      exact hcase (hflip hplace)
  exact ⟨hrejected, fun hvalid => by
    rw [show verdict.checks.cryptographic = true from
      Verifier.verify_cryptographic_of_valid hvalid] at hrejected
    exact Bool.noConfusion hrejected⟩

/-- A signed request with a flipped bit in a header that is covered, and in a digit. -/
theorem flipBit_rejected_sample :
    let verdict (m : Message) : Verdict :=
      (Sample.verifier.verify Sample.suite m m.headers Sample.verifying .never Sample.world).1
    (verdict Sample.signed).status = .valid ∧
      (verdict (Sample.signed.flipBit "date" 0 0)).checks.cryptographic = false ∧
      (verdict (Sample.signed.flipBit "Signature" 6 0)).checks.cryptographic = false := by
  intro verdict
  rcases Sample.sign_eq with ⟨r, hsign, htext, happly⟩
  have hexact := Sample.acceptsOnly
  rw [← htext] at hexact
  have hvalid : (verdict Sample.signed).status = .valid := by decide +kernel
  have hgenuine := Verifier.verify_cryptographic_of_valid hvalid
  have hkey : ∀ headers, Sample.verifier.UsesKey (Sample.suite.publicKey Sample.signer.key) headers
      Sample.verifying .never := fun _ => Verifier.usesKey_of_given rfl
  rcases map_eq_ok.1 (show (Received.ofHeaders Sample.signed.headers).map (·.covered)
    = .ok ["@method", "date"] by decide +kernel) with ⟨received, hr, hcovered⟩
  have hdate : Sample.signed.header "date" = some "today" := by decide +kernel
  have hsignature : Sample.signed.header "Signature"
      = some (Delimited.render "sig1" Sample.signature.toHex) := by decide +kernel
  rw [← happly] at hgenuine hr hdate hsignature
  have hs : create Sample.signer.config = .ok Sample.signer := rfl
  have hcase : ¬ IsCaseFlip Sample.signer.config.label
      (Delimited.render "sig1" Sample.signature.toHex) 6 0 := fun hflip =>
    absurd hflip.2.2 (by decide)
  refine ⟨hvalid, ?_, ?_⟩
  · rw [← happly]
    exact (flipBit_rejected hs hsign hexact hgenuine hr hdate (by decide) 0
      (Or.inl (by rw [hcovered]; decide)) (hkey _) (fun _ => hkey _)).1
  · rw [← happly]
    exact (flipBit_rejected hs hsign hexact hgenuine hr hsignature (by decide +kernel) 0
      (Or.inr ⟨by decide, hcase⟩) (hkey _) (fun _ => hkey _)).1

/-- A flip that changes the case of a digit leaves a signed request valid. -/
theorem flipBit_caseFlip_valid :
    let verdict (m : Message) : Verdict :=
      (Sample.verifier.verify Sample.suite m m.headers Sample.verifying .never Sample.world).1
    ∃ r, (Sample.signer.sign Sample.suite Sample.request Sample.signing Sample.world).1 = .ok r ∧
      Sample.suite.AcceptsOnly (Sample.suite.publicKey Sample.signer.key) r.canonicalMessage
        (Sample.suite.sign Sample.signer.key r.canonicalMessage) ∧
      (verdict (r.apply Sample.request)).checks.cryptographic = true ∧
      (verdict ((r.apply Sample.request).flipBit "signature" 8 5)).checks.cryptographic = true ∧
      (verdict ((r.apply Sample.request).flipBit "signature" 8 5)).status = .valid := by
  intro verdict
  rcases Sample.sign_eq with ⟨r, hsign, htext, happly⟩
  refine ⟨r, hsign, ?_, ?_⟩
  · rw [htext]
    exact Sample.acceptsOnly
  · rw [happly]
    decide +kernel

end Signer

end SignedHttp
