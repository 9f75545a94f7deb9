import SignedHttp.Signature.Canonical
import SignedHttp.Text.Split

/-!
# Received Signatures

What the headers of a message say about its signature. Nothing in it is trusted
before the signature verifies; reading only fixes what is claimed.

The input header has the form `label=(components);parameters`. The components are
the quoted, non-empty names in the list, and whatever stands between them is
passed over. The parameters are separated by semicolons, each a name and a value
with an equals sign between; the value may be quoted, and of several values for a
name the last one stands. Names that are not known are passed over too. Reading is
thus more generous than writing, and it is the canonical message, made from what
was read, that has to agree with what was signed.

The faults of a header are looked for in a fixed order, and the first is reported
(`Received.ofHeaders`).

## Main definitions

* `Received`: The claims of the signature headers.
* `Received.ofHeaders`: The claims, or the first fault.
* `InputHeader.parse?`: The parts of the input header.
* `quotedNames`: The quoted names in a list.
-/

namespace SignedHttp

/-- The parts of the input header: the label, the list of components, the parameters. -/
structure InputHeader where
  label : Bytes
  components : Bytes
  params : Bytes
  deriving DecidableEq

namespace InputHeader

/-- The parts of `label=(components);params`, none of them empty. -/
def parse? (s : Bytes) : Option InputHeader :=
  match Bytes.cut Ascii.equals s with
  | some (label, b :: rest) =>
    if label.isEmpty ∨ b ≠ Ascii.openParen then none
    else
      match Bytes.cut Ascii.closeParen rest with
      | some (components, c :: params) =>
        if components.isEmpty ∨ c ≠ Ascii.semicolon ∨ params.isEmpty then none
        else some ⟨label, components, params⟩
      | _ => none
  | _ => none

end InputHeader

/-- The quoted names in a list, where `opened` holds the bytes since an opening quote, the last
one first. Two quotes in a row enclose no name: the second one opens. -/
def quotedNamesFrom (opened : Option Bytes) : Bytes → List Bytes
  | [] => []
  | b :: s =>
    match opened with
    | none => quotedNamesFrom (if b = Ascii.quote then some [] else none) s
    | some [] => quotedNamesFrom (if b = Ascii.quote then some [] else some [b]) s
    | some (c :: name) =>
      if b = Ascii.quote then (c :: name).reverse :: quotedNamesFrom none s
      else quotedNamesFrom (some (b :: c :: name)) s

/-- The quoted, non-empty names in a list, left to right. -/
def quotedNames (list : Bytes) : List Bytes := quotedNamesFrom none list

/-- The name and the value of a parameter; a value may be quoted. -/
def readParameter (item : Bytes) : Bytes × Bytes :=
  let (name, value) := Bytes.splitPair Ascii.equals item
  (name, value.unquote)

/-- The parameters of a list, the last value of each name. -/
def readParameters (params : Bytes) : Table Bytes :=
  .ofList (((Bytes.split Ascii.semicolon params).filter (!·.isEmpty)).map readParameter)

/-- What the headers of a message say about its signature. -/
structure Received where
  label : Bytes := defaultLabel
  /-- The signature, as the text that was sent. -/
  signature : Bytes
  covered : List Bytes
  params : Params
  digest : Option ContentDigest := none
  /-- The header value that the digest was read from. -/
  digestHeader : Option Bytes := none
  deriving DecidableEq

namespace Received

/-- Is a component covered? -/
def covers (component : Bytes) (r : Received) : Bool := r.covered.contains component

/-- The names of the parameters that have to be there. -/
def requiredParameters : List Bytes := ["created", "keyid", "alg", "nonce"]

/-- The parameters of an input header. -/
def params? (input : Bytes) (text : Bytes) : Except VerificationError Params :=
  let table := readParameters text
  match requiredParameters.find? (!table.contains ·) with
  | some name => .error (.missingParameter input name)
  | none =>
    let value (name : Bytes) := (table.find? name).getD []
    match IntKind.int64.wholeNumber (value "created") with
    | none => .error (.createdNotNumber input)
    | some created =>
      .ok { created, keyId := value "keyid", algorithm := value "alg", nonce := value "nonce" }

/-- The claims of the signature headers, or the first of their faults. -/
def ofHeaders (headers : Fields) : Except VerificationError Received := do
  let some input := headers.find? "signature-input" | .error .missingSignatureInput
  let some signature := headers.find? "signature" | .error .missingSignature
  let some parts := InputHeader.parse? input | .error (.malformedInput input)
  let params ← params? input parts.params
  -- The two headers belong together only if they have the same label.
  let some (label, hex) := Delimited.parse? signature | .error (.malformedSignature signature)
  if label ≠ parts.label then .error (.labelMismatch parts.label label)
  let digestHeader := headers.find? "content-digest"
  let digest ← digestHeader.mapM ContentDigest.parse
  let covered := quotedNames parts.components
  return ⟨label, hex, covered, params, digest, digestHeader⟩

/-- Are both signature headers there? -/
def isSigned (headers : Fields) : Bool :=
  headers.contains "signature-input" && headers.contains "signature"

/-- The canonical message that must have been signed. -/
def canonical (m : Message) (r : Received) : Except VerificationError CanonicalMessage :=
  CanonicalMessage.ofCovered m r.covered r.params r.digestHeader

end Received

end SignedHttp
