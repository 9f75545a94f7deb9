import SignedHttp.Error.Code

/-!
# Causes of Failure

What can go wrong, one constructor a cause, each with the facts of its case. The
code, the wording and the details follow from the cause in one place for each
kind of failure (`report`), so no other module of the library words an error.

`Failure` is whatever can stop an operation that runs code of its caller: a
failure of the library, a value it does not accept, or a failure that the caller's
code raised, of which only the text is known.

## Main definitions

* `SigningError`, `VerificationError`, `ConfigError`: The causes, by kind.
* `PolicyFlaw`: What can be wrong with a policy.
* `ArgumentError`: A value that no operation accepts.
* `Failure`: Any of these, and failures of caller-supplied code.
-/

namespace SignedHttp

/-- Why a signer cannot be configured, or a message cannot be signed. -/
inductive SigningError
  | invalidKeyId (keyId : Bytes)
  | missingPrivateKey
  | privateKeyLength (length : Nat)
  | zeroPrivateKey
  | noComponents
  | invalidHeaderName (name : Bytes)
  | invalidLabel (label : Bytes)
  | missingConfiguration
  | invalidNonce (nonce : Bytes)
  | invalidTimestamp (created : Int)
  | missingHeader (name : Bytes)
  | invalidUrl (url : Bytes)
  deriving DecidableEq

namespace SigningError

def code : SigningError → SigningCode
  | invalidKeyId _ => .invalidKeyId
  | missingPrivateKey => .invalidPrivateKey
  | privateKeyLength _ => .invalidPrivateKey
  | zeroPrivateKey => .invalidPrivateKey
  | noComponents => .invalidSignatureComponents
  | invalidHeaderName _ => .invalidSignatureComponents
  | invalidLabel _ => .invalidConfig
  | missingConfiguration => .invalidConfig
  | invalidNonce _ => .invalidNonce
  | invalidTimestamp _ => .invalidTimestamp
  | missingHeader _ => .missingRequiredHeader
  | invalidUrl _ => .invalidUrl

def message : SigningError → Bytes
  | invalidKeyId _ =>
    "Key id must be a non-empty string without whitespace of at most 256 characters"
  | missingPrivateKey => "Private key is required"
  | privateKeyLength _ => "Private key must be 32 bytes"
  | zeroPrivateKey => "Private key must not be all zero"
  | noComponents => "At least one signature component must be enabled"
  | invalidHeaderName name => "Invalid header name: " ++ name
  | invalidLabel _ => "Invalid signature label"
  | missingConfiguration => "Signing configuration is required unless signing is disabled"
  | invalidNonce _ => "Nonce must be a version 4 UUID"
  | invalidTimestamp _ => "Timestamp must lie between the years 2000 and 2100"
  | missingHeader name => "Required header missing: " ++ name
  | invalidUrl _ => "Invalid URL for @target-uri"

def details : SigningError → List (Bytes × Bytes)
  | invalidKeyId keyId => [("key_id", keyId)]
  | missingPrivateKey => []
  | privateKeyLength length => [("length", Decimal.ofNat length)]
  | zeroPrivateKey => []
  | noComponents => []
  | invalidHeaderName name => [("header", name)]
  | invalidLabel label => [("label", label)]
  | missingConfiguration => []
  | invalidNonce nonce => [("nonce", nonce)]
  | invalidTimestamp created => [("created", Decimal.ofInt created)]
  | missingHeader name => [("header", name)]
  | invalidUrl url => [("url", url)]

def report (e : SigningError) : Report := ⟨.signing e.code, e.message, .ofList e.details⟩

end SigningError

/-- What can be wrong with a policy. -/
inductive PolicyFlaw
  | noName
  | noAlgorithm
  | nonPositiveAge
  | emptyComponent
  | unnamedRule
  | ruleWithoutPredicate (rule : Bytes)
  deriving DecidableEq

def PolicyFlaw.message : PolicyFlaw → Bytes
  | noName => "Policy name must be a non-empty string"
  | noAlgorithm => "Policy must allow at least one algorithm"
  | nonPositiveAge => "Maximum timestamp age must be positive"
  | emptyComponent => "Empty required component"
  | unnamedRule => "Custom rule without a name"
  | ruleWithoutPredicate rule => "Custom rule " ++ rule ++ " has no predicate"

/-- Which message a verification guard was given. -/
inductive Exchanged
  | request
  | response
  deriving DecidableEq, Repr

/-- Why a message cannot be verified, or is turned away. -/
inductive VerificationError
  | invalidStatus (status : Nat)
  | missingSignatureInput
  | missingSignature
  | malformedInput (input : Bytes)
  | missingParameter (input name : Bytes)
  | createdNotNumber (input : Bytes)
  | malformedSignature (signature : Bytes)
  | labelMismatch (inputLabel signatureLabel : Bytes)
  | malformedDigest (header : Bytes)
  | unsupportedDigest (header algorithm : Bytes)
  | invalidDigestValue (header : Bytes)
  | uncoveredTarget (component : Bytes)
  | missingDigest (component : Bytes)
  | unsupportedComponent (component : Bytes)
  | missingCoveredHeader (component : Bytes)
  | invalidPolicy (policy : Bytes) (flaw : PolicyFlaw)
  | unknownPolicy (policy : Bytes)
  | keyNotFound (keyId : Bytes)
  | keyNotInSources (keyId : Bytes)
  | keyRetrieval (keyId : Bytes) (cause : SystemError)
  | rejected (kind : Exchanged) (url status : Bytes)
  | unverifiable (kind : Exchanged) (cause : Bytes)
  deriving DecidableEq

namespace VerificationError

def code : VerificationError → VerificationCode
  | invalidStatus _ => .invalidMessage
  | missingSignatureInput => .missingSignatureInput
  | missingSignature => .missingSignature
  | malformedInput _ => .invalidSignatureInputFormat
  | missingParameter _ _ => .invalidSignatureInputFormat
  | createdNotNumber _ => .invalidSignatureInputFormat
  | malformedSignature _ => .invalidSignatureFormat
  | labelMismatch _ _ => .signatureIdMismatch
  | malformedDigest _ => .invalidContentDigestFormat
  | unsupportedDigest _ _ => .invalidContentDigestFormat
  | invalidDigestValue _ => .invalidContentDigestFormat
  | uncoveredTarget _ => .canonicalMessageReconstructionFailed
  | missingDigest _ => .canonicalMessageReconstructionFailed
  | unsupportedComponent _ => .canonicalMessageReconstructionFailed
  | missingCoveredHeader _ => .canonicalMessageReconstructionFailed
  | invalidPolicy _ _ => .invalidPolicy
  | unknownPolicy _ => .unknownPolicy
  | keyNotFound _ => .publicKeyNotFound
  | keyNotInSources _ => .publicKeyNotFound
  | keyRetrieval _ _ => .keyRetrievalFailed
  | rejected .request _ _ => .requestVerificationFailed
  | rejected .response _ _ => .responseVerificationFailed
  | unverifiable _ _ => .middlewareError

def message : VerificationError → Bytes
  | invalidStatus status => "Invalid HTTP status code: " ++ Decimal.ofNat status
  | missingSignatureInput => "Signature-Input header not found"
  | missingSignature => "Signature header not found"
  | malformedInput _ => "Invalid Signature-Input header format"
  | missingParameter _ name => "Missing signature parameter: " ++ name
  | createdNotNumber _ => "Signature parameter `created` is not a number"
  | malformedSignature _ => "Invalid Signature header format"
  | labelMismatch _ _ => "Signature label does not match Signature-Input"
  | malformedDigest _ => "Invalid Content-Digest header format"
  | unsupportedDigest _ algorithm => "Unsupported content digest algorithm: " ++ algorithm
  | invalidDigestValue _ => "Content digest value is not a valid base64 digest"
  | uncoveredTarget _ => "Invalid URL for @target-uri"
  | missingDigest _ => "Covered content-digest is missing"
  | unsupportedComponent c => "Unsupported derived component: " ++ c
  | missingCoveredHeader c => "Covered header missing: " ++ c
  | invalidPolicy _ flaw => flaw.message
  | unknownPolicy policy => "Unknown verification policy: " ++ policy
  | keyNotFound keyId => "Public key not found: " ++ keyId
  | keyNotInSources keyId => "Public key not found in any key source: " ++ keyId
  | keyRetrieval _ cause => "Key retrieval failed: " ++ cause.message
  | rejected .request _ _ => "Request signature verification failed"
  | rejected .response _ _ => "Response signature verification failed"
  | unverifiable .request cause => "Request verification failed: " ++ cause
  | unverifiable .response cause => "Response verification failed: " ++ cause

def details : VerificationError → List (Bytes × Bytes)
  | invalidStatus status => [("status", Decimal.ofNat status)]
  | missingSignatureInput => []
  | missingSignature => []
  | malformedInput input => [("signature_input", input)]
  | missingParameter input _ => [("signature_input", input)]
  | createdNotNumber input => [("signature_input", input)]
  | malformedSignature signature => [("signature", signature)]
  | labelMismatch inputLabel signatureLabel =>
    [("signature_input_label", inputLabel), ("signature_label", signatureLabel)]
  | malformedDigest header => [("content_digest", header)]
  | unsupportedDigest header _ => [("content_digest", header)]
  | invalidDigestValue header => [("content_digest", header)]
  | uncoveredTarget c => [("component", c)]
  | missingDigest c => [("component", c)]
  | unsupportedComponent c => [("component", c)]
  | missingCoveredHeader c => [("component", c)]
  | invalidPolicy policy _ => [("policy", policy)]
  | unknownPolicy policy => [("policy", policy)]
  | keyNotFound keyId => [("key_id", keyId)]
  | keyNotInSources keyId => [("key_id", keyId)]
  | keyRetrieval keyId _ => [("key_id", keyId)]
  | rejected _ url status => [("url", url), ("status", status)]
  | unverifiable _ _ => []

def report (e : VerificationError) : Report :=
  ⟨.verification e.code, e.message, .ofList e.details⟩

end VerificationError

/-- Why a configuration is refused. -/
inductive ConfigError
  | invalidJson
  | notPolicies
  | policyNotObject (policy : Bytes)
  | invalidField (policy : Bytes)
  | rulesNotArray (policy : Bytes)
  | invalidPolicy (policy : Bytes) (flaw : PolicyFlaw)
  | malformedRule (descriptor : Bytes)
  | invalidRuleArguments (rule : Bytes)
  | unknownRule (rule : Bytes)
  | missingFile (path : Bytes)
  | undefinedDefault (policy : Bytes)
  | invalidSkipPattern (pattern : Bytes)
  /-- A failure of the text that was read from a file. -/
  | inFile (path : Bytes) (cause : ConfigError)
  deriving DecidableEq

namespace ConfigError

def code : ConfigError → ConfigCode
  | invalidJson => .malformedSource
  | notPolicies => .malformedSource
  | policyNotObject _ => .malformedSource
  | invalidField _ => .malformedSource
  | rulesNotArray _ => .malformedSource
  | invalidPolicy _ _ => .invalidPolicy
  | malformedRule _ => .malformedSource
  | invalidRuleArguments _ => .malformedSource
  | unknownRule _ => .unknownRule
  | missingFile _ => .missingSource
  | undefinedDefault _ => .invalidOption
  | invalidSkipPattern _ => .invalidOption
  | inFile _ cause => cause.code

def message : ConfigError → Bytes
  | invalidJson => "Policy source is not valid JSON: "
  | notPolicies => "Policy source must map policy names to policies"
  | policyNotObject policy => "Policy " ++ policy ++ " must be an object"
  | invalidField policy => "Invalid field in policy " ++ policy ++ ": "
  | rulesNotArray policy => "custom_rules of policy " ++ policy ++ " must be an array"
  | invalidPolicy _ flaw => flaw.message
  | malformedRule _ => "Rule descriptor must be an object with a \"rule\" name"
  | invalidRuleArguments rule => "Invalid arguments for rule " ++ rule ++ ": "
  | unknownRule rule => "Unknown verification rule: " ++ rule
  | missingFile path => "Policy file not found: " ++ path
  | undefinedDefault policy => "Default policy is not defined: " ++ policy
  | invalidSkipPattern _ => "Invalid skip pattern: "
  | inFile _ cause => cause.message

def details : ConfigError → List (Bytes × Bytes)
  | invalidJson => []
  | notPolicies => []
  | policyNotObject policy => [("policy", policy)]
  | invalidField policy => [("policy", policy)]
  | rulesNotArray policy => [("policy", policy)]
  | invalidPolicy policy _ => [("policy", policy)]
  | malformedRule descriptor => [("descriptor", descriptor)]
  | invalidRuleArguments rule => [("rule", rule)]
  | unknownRule rule => [("rule", rule)]
  | missingFile path => [("path", path)]
  | undefinedDefault policy => [("policy", policy)]
  | invalidSkipPattern pattern => [("pattern", pattern)]
  | inFile path cause => cause.details ++ ([("path", path)] : List (Bytes × Bytes))

def report (e : ConfigError) : Report := ⟨.config e.code, e.message, .ofList e.details⟩

end ConfigError

/-- A value that is refused before there is anything to fail. -/
inductive ArgumentError
  | unsupportedMethod (name : Bytes)
  | missingTransport
  deriving DecidableEq

def ArgumentError.message : ArgumentError → Bytes
  | unsupportedMethod name => "Unsupported HTTP method: " ++ name
  | missingTransport => "SigningClient requires a transport"

/-- What stops an operation that runs code of its caller. -/
inductive Failure
  | signing (e : SigningError)
  | verification (e : VerificationError)
  | config (e : ConfigError)
  | argument (e : ArgumentError)
  | system (e : SystemError)
  /-- A failure raised by the caller's code, known by its text. -/
  | raised (text : Bytes)
  deriving DecidableEq

instance : Coe SigningError Failure := ⟨.signing⟩

instance : Coe VerificationError Failure := ⟨.verification⟩

instance : Coe ConfigError Failure := ⟨.config⟩

instance : Coe ArgumentError Failure := ⟨.argument⟩

namespace Failure

/-- The failure in the common form, if it is one of the library's. -/
def report? : Failure → Option Report
  | signing e => some e.report
  | verification e => some e.report
  | config e => some e.report
  | _ => none

/-- The failure as a text. -/
def text : Failure → Bytes
  | signing e => e.report.text
  | verification e => e.report.text
  | config e => e.report.text
  | argument e => e.message
  | system e => e.message
  | raised t => t

end Failure

end SignedHttp
