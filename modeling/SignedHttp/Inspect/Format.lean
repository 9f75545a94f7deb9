import SignedHttp.Signature.Received
import SignedHttp.Verify.Security

/-!
# Inspecting the Format

A look at the signature headers of a message that reports everything that is wrong or
odd about them, where reading stops at the first fault. Some of what is reported is
an error, the rest a warning; headers without errors are in accordance with RFC 9421.

Inspecting is neither stricter nor more lenient than reading (`Received.ofHeaders`). What
reading passes over is reported here, such as a component that cannot exist. But the two
labels are not compared, the digest is not decoded, and a parameter counts as present
where its name and an equals sign occur in the text.

## Main definitions

* `FormatIssue`: What can be reported, with severity, code and wording.
* `componentFault?`: What is wrong with the name of a component.
* `FormatReport.inspect`: The issues of some headers.
-/

namespace SignedHttp

/-- How much an issue matters. -/
inductive Severity
  | error
  | warning
  deriving DecidableEq, Repr

def Severity.name : Severity → Bytes
  | error => "error"
  | warning => "warning"

/-- What can be wrong with the name of a component. -/
inductive ComponentFault
  | unknownDerived (component : Bytes)
  | invalidHeaderName (component : Bytes)
  deriving DecidableEq

def ComponentFault.message : ComponentFault → Bytes
  | unknownDerived c => "Unknown pseudo-component: " ++ c
  | invalidHeaderName c => "Invalid header name: " ++ c

/-- The derived components that are known. -/
def derivedComponents : List Bytes :=
  ["@method", "@target-uri", "@authority", "@scheme", "@request-target"]

/-- What is wrong with the name of a component. -/
def componentFault? (component : Bytes) : Option ComponentFault :=
  if isDerived component then
    if derivedComponents.contains component then none else some (.unknownDerived component)
  else if isValidHeaderName component then none
  else some (.invalidHeaderName component)

/-- What can be reported about signature headers. -/
inductive FormatIssue
  | missingInput
  | missingSignature
  | invalidInput
  | unreadableInput
  | missingParameter (name : Bytes)
  | unquotedComponents
  | invalidTimestamp
  | invalidNonce
  | unsupportedAlgorithm (algorithm : Bytes)
  | noComponents
  | component (fault : ComponentFault)
  | invalidSignature
  | signatureLength (length : Nat)
  | invalidDigest
  | unsupportedDigest (algorithm : Bytes)
  deriving DecidableEq

namespace FormatIssue

def severity : FormatIssue → Severity
  | unquotedComponents => .warning
  | invalidNonce => .warning
  | unsupportedAlgorithm _ => .warning
  | component (.unknownDerived _) => .warning
  | signatureLength _ => .warning
  | unsupportedDigest _ => .warning
  | _ => .error

def code : FormatIssue → Bytes
  | missingInput => "MISSING_SIGNATURE_INPUT"
  | missingSignature => "MISSING_SIGNATURE"
  | invalidInput => "INVALID_FORMAT"
  | unreadableInput => "INVALID_SIGNATURE_INPUT_FORMAT"
  | missingParameter _ => "MISSING_PARAMETER"
  | unquotedComponents => "UNQUOTED_COMPONENTS"
  | invalidTimestamp => "INVALID_TIMESTAMP"
  | invalidNonce => "INVALID_NONCE_FORMAT"
  | unsupportedAlgorithm _ => "UNSUPPORTED_ALGORITHM"
  | noComponents => "NO_COMPONENTS"
  | component (.unknownDerived _) => "UNKNOWN_PSEUDO_COMPONENT"
  | component (.invalidHeaderName _) => "INVALID_HEADER_NAME"
  | invalidSignature => "INVALID_SIGNATURE_FORMAT"
  | signatureLength _ => "UNEXPECTED_SIGNATURE_LENGTH"
  | invalidDigest => "INVALID_CONTENT_DIGEST_FORMAT"
  | unsupportedDigest _ => "UNSUPPORTED_DIGEST_ALGORITHM"

def message : FormatIssue → Bytes
  | missingInput => "Signature-Input header is required"
  | missingSignature => "Signature header is required"
  | invalidInput => "Signature-Input header format is invalid"
  | unreadableInput => "Failed to parse signature-input"
  | missingParameter name => "Missing required parameter: " ++ name
  | unquotedComponents => "Components should be quoted according to RFC 9421"
  | invalidTimestamp => "Invalid created timestamp"
  | invalidNonce => "Nonce does not follow UUID v4 format"
  | unsupportedAlgorithm a => "Algorithm " ++ a ++ " is not ed25519"
  | noComponents => "No signature components specified"
  | component fault => fault.message
  | invalidSignature => "Signature header format is invalid (should be name=:hex:)"
  | signatureLength n =>
    "Signature length is " ++ Decimal.ofNat n ++ " hex chars, expected 128 for Ed25519"
  | invalidDigest => "Content-Digest header format is invalid"
  | unsupportedDigest a => "Digest algorithm may not be supported: " ++ a

/-- What the issue is about. -/
def subject : FormatIssue → Bytes
  | missingInput => "signature-input"
  | missingSignature => "signature"
  | invalidInput => "signature-input"
  | unreadableInput => "signature-input"
  | missingParameter _ => "signature-input"
  | unquotedComponents => "signature-input"
  | invalidTimestamp => "created"
  | invalidNonce => "nonce"
  | unsupportedAlgorithm _ => "alg"
  | noComponents => "components"
  | component _ => "components"
  | invalidSignature => "signature"
  | signatureLength _ => "signature"
  | invalidDigest => "content-digest"
  | unsupportedDigest _ => "content-digest"

end FormatIssue

/-- The parts of `label=(components)` and what follows, empty or beginning with a semicolon. -/
def inputParts? (input : Bytes) : Option InputHeader :=
  match Bytes.cut Ascii.equals input with
  | some (label, b :: rest) =>
    if label.isEmpty ∨ b ≠ Ascii.openParen then none
    else
      match Bytes.cut Ascii.closeParen rest with
      | some (components, params) =>
        if params.isEmpty ∨ params.head? = some Ascii.semicolon then
          some ⟨label, components, params⟩
        else none
      | none => none
  | _ => none

namespace FormatIssue

/-- The issue, if there is one. -/
def whenever (holds : Bool) (issue : FormatIssue) : List FormatIssue :=
  if holds then [issue] else []

/-- The issues of the parameters. -/
def ofParameters (params : Table Bytes) : List FormatIssue :=
  let badCreated (text : Bytes) : Bool :=
    !(IntKind.int64.wholeNumber text).any isValidTimestamp
  let algorithm := params.find? "alg"
  whenever ((params.find? "created").any badCreated) invalidTimestamp
    ++ whenever (!isValidNonce ((params.find? "nonce").getD [])) invalidNonce
    ++ (match algorithm with
      | some a => whenever (a != signatureAlgorithm) (unsupportedAlgorithm a)
      | none => [])

/-- The components of a list that is separated by spaces. -/
def listedComponents (list : Bytes) : List Bytes :=
  ((Bytes.split Ascii.space list).filter (!·.isEmpty)).map Bytes.unquote

/-- The issues of the components. -/
def ofComponents (components : List Bytes) : List FormatIssue :=
  if components.isEmpty then [noComponents]
  else (components.filterMap componentFault?).map component

/-- The issues of an input header with these parts. -/
def ofInputParts (input : Bytes) (parts : InputHeader) : List FormatIssue :=
  let missing (name : Bytes) : List FormatIssue :=
    whenever (!Bytes.occursIn (name ++ [Ascii.equals]) input) (missingParameter name)
  let list := parts.components
  -- A missing nonce is reported as a nonce without the right form, so it is not listed here.
  (["created", "keyid", "alg"] : List Bytes).flatMap missing
    ++ whenever (!list.isEmpty && !list.contains Ascii.quote) unquotedComponents
    ++ ofParameters (readParameters parts.params)
    ++ ofComponents (listedComponents list)

/-- The issues of an input header. -/
def ofInput (input : Bytes) : List FormatIssue :=
  if [Ascii.equals, Ascii.openParen, Ascii.closeParen].all input.contains then
    match inputParts? input with
    | some parts => ofInputParts input parts
    | none => [unreadableInput]
  else [invalidInput]

/-- The length of the first run of hexadecimal digits between two colons. -/
def hexRunLength? : Bytes → Option Nat
  | [] => none
  | b :: rest =>
    if b = Ascii.colon then
      -- An empty run between two colons is passed over: the second colon may begin another one.
      let run := rest.takeWhile Ascii.isHexDigit
      if run ≠ [] ∧ (rest.drop run.length).head? = some Ascii.colon then some run.length
      else hexRunLength? rest
    else hexRunLength? rest

/-- The issues of a signature header. -/
def ofSignature (signature : Bytes) : List FormatIssue :=
  let wellFormed := (Delimited.parse? signature).any fun part => Hex.isHex part.2
  whenever (!wellFormed) invalidSignature
    ++ (match hexRunLength? signature with
      | some n => whenever (n != 128) (signatureLength n)
      | none => [])

/-- Is a text made of digits of base 64 and then equals signs? -/
def isBase64Shaped (value : Bytes) : Bool :=
  let isDigit (b : UInt8) := (Base64.charValue b).isSome
  !(value.takeWhile isDigit).isEmpty && (value.dropWhile isDigit).all (· == Ascii.equals)

/-- What comes before the first `=:`. -/
def beforeMark? : Bytes → Option Bytes
  | [] => none
  | b :: rest =>
    if b = Ascii.equals ∧ rest.head? = some Ascii.colon then some []
    else (beforeMark? rest).map (b :: ·)

/-- The issues of a digest header. -/
def ofDigest (digest : Bytes) : List FormatIssue :=
  let wellFormed := (Delimited.parse? digest).any fun part => isBase64Shaped part.2
  let algorithm := (beforeMark? digest).getD "unknown"
  whenever (!wellFormed) invalidDigest
    ++ whenever (DigestAlgorithm.parse? algorithm).isNone (unsupportedDigest algorithm)

end FormatIssue

/-- What was found out about the signature headers of a message. -/
structure FormatReport where
  issues : List FormatIssue
  /-- The names of the headers that are there. -/
  present : List Bytes
  labels : List Bytes
  deriving DecidableEq

namespace FormatReport

/-- Is none of the issues an error? -/
def isValid (r : FormatReport) : Bool := r.issues.all (·.severity != .error)

/-- The issues of some headers. -/
def inspect (headers : Fields) : FormatReport :=
  let input := headers.find? "signature-input"
  let signature := headers.find? "signature"
  let digest := headers.find? "content-digest"
  let labels := input.bind inputParts? |>.map (·.label)
  { issues :=
      FormatIssue.whenever input.isNone .missingInput
        ++ FormatIssue.whenever signature.isNone .missingSignature
        ++ (input.map FormatIssue.ofInput).getD []
        ++ (signature.map FormatIssue.ofSignature).getD []
        ++ (digest.map FormatIssue.ofDigest).getD []
    present :=
      (["signature-input", "signature", "content-digest"] : List Bytes).filter headers.contains
    labels := labels.toList }

/-- A short text of what was found out. -/
def text (r : FormatReport) : Bytes :=
  let issue (i : FormatIssue) : Bytes := "\n  [" ++ i.severity.name.upper ++ "] " ++ i.message
  "=== Quick Signature Diagnostic ===\nRFC 9421 Compliant: " ++ (if r.isValid then "YES" else "NO")
    ++ "\nSignature Headers Found: " ++ Bytes.join ", " r.present
    ++ "\nSignature IDs: " ++ Bytes.join ", " r.labels
    ++ (if r.issues.isEmpty then [] else ("\n\nIssues Found:" : Bytes) ++ r.issues.flatMap issue)

end FormatReport

end SignedHttp
