import SignedHttp.Text.Decimal
import SignedHttp.Text.Table

/-!
# Error Codes

Every failure the library reports has a code of one of three categories, or is a
code of the operating system. A code of the library has a stable name for
machines, such as `INVALID_NONCE`, and a short description. Codes are also
numbers, counted from one in the order of declaration; a number that is no code
of its category has a name and a description all the same.

`Report` is the common form of a failure: its code, a message that says what went
wrong in this case, and details keyed by name.

## Main definitions

* `SigningCode`, `VerificationCode`, `ConfigCode`: The codes.
* `SystemError`: The failures of the operating system that occur.
* `ErrorCode`: A code of any category, `ErrorCode.name`, `ErrorCode.description`.
* `Report`: A code with a message and details.
-/

namespace SignedHttp

/-- Failures of signing. -/
inductive SigningCode
  | invalidConfig
  | invalidPrivateKey
  | invalidKeyId
  | invalidSignatureComponents
  | invalidNonce
  | invalidTimestamp
  | missingRequiredHeader
  | invalidUrl
  | canonicalMessageFailed
  | digestCalculationFailed
  | signingFailed
  | cryptoError
  deriving DecidableEq, Repr

namespace SigningCode

/-- The codes in the order of their numbers. -/
def all : List SigningCode :=
  [invalidConfig, invalidPrivateKey, invalidKeyId, invalidSignatureComponents, invalidNonce,
    invalidTimestamp, missingRequiredHeader, invalidUrl, canonicalMessageFailed,
    digestCalculationFailed, signingFailed, cryptoError]

def name : SigningCode → Bytes
  | invalidConfig => "INVALID_CONFIG"
  | invalidPrivateKey => "INVALID_PRIVATE_KEY"
  | invalidKeyId => "INVALID_KEY_ID"
  | invalidSignatureComponents => "INVALID_SIGNATURE_COMPONENTS"
  | invalidNonce => "INVALID_NONCE"
  | invalidTimestamp => "INVALID_TIMESTAMP"
  | missingRequiredHeader => "MISSING_REQUIRED_HEADER"
  | invalidUrl => "INVALID_URL"
  | canonicalMessageFailed => "CANONICAL_MESSAGE_FAILED"
  | digestCalculationFailed => "DIGEST_CALCULATION_FAILED"
  | signingFailed => "SIGNING_FAILED"
  | cryptoError => "CRYPTO_ERROR"

def description : SigningCode → Bytes
  | invalidConfig => "invalid signing configuration"
  | invalidPrivateKey => "invalid private key"
  | invalidKeyId => "invalid key identifier"
  | invalidSignatureComponents => "invalid signature components"
  | invalidNonce => "invalid nonce"
  | invalidTimestamp => "invalid timestamp"
  | missingRequiredHeader => "missing required header"
  | invalidUrl => "invalid URL"
  | canonicalMessageFailed => "canonical message construction failed"
  | digestCalculationFailed => "content digest calculation failed"
  | signingFailed => "signing failed"
  | cryptoError => "cryptographic library error"

end SigningCode

/-- Failures of verification. -/
inductive VerificationCode
  | invalidConfig
  | invalidPolicy
  | unknownPolicy
  | invalidMessage
  | missingSignatureInput
  | missingSignature
  | invalidSignatureFormat
  | invalidSignatureInputFormat
  | signatureIdMismatch
  | invalidContentDigestFormat
  | publicKeyNotFound
  | keyRetrievalFailed
  | invalidPublicKey
  | cryptographicVerificationFailed
  | canonicalMessageReconstructionFailed
  | verificationFailed
  | responseVerificationFailed
  | requestVerificationFailed
  | batchVerificationError
  | middlewareError
  deriving DecidableEq, Repr

namespace VerificationCode

/-- The codes in the order of their numbers. -/
def all : List VerificationCode :=
  [invalidConfig, invalidPolicy, unknownPolicy, invalidMessage, missingSignatureInput,
    missingSignature, invalidSignatureFormat, invalidSignatureInputFormat, signatureIdMismatch,
    invalidContentDigestFormat, publicKeyNotFound, keyRetrievalFailed, invalidPublicKey,
    cryptographicVerificationFailed, canonicalMessageReconstructionFailed, verificationFailed,
    responseVerificationFailed, requestVerificationFailed, batchVerificationError,
    middlewareError]

def name : VerificationCode → Bytes
  | invalidConfig => "INVALID_CONFIG"
  | invalidPolicy => "INVALID_POLICY"
  | unknownPolicy => "UNKNOWN_POLICY"
  | invalidMessage => "INVALID_MESSAGE"
  | missingSignatureInput => "MISSING_SIGNATURE_INPUT"
  | missingSignature => "MISSING_SIGNATURE"
  | invalidSignatureFormat => "INVALID_SIGNATURE_FORMAT"
  | invalidSignatureInputFormat => "INVALID_SIGNATURE_INPUT_FORMAT"
  | signatureIdMismatch => "SIGNATURE_ID_MISMATCH"
  | invalidContentDigestFormat => "INVALID_CONTENT_DIGEST_FORMAT"
  | publicKeyNotFound => "PUBLIC_KEY_NOT_FOUND"
  | keyRetrievalFailed => "KEY_RETRIEVAL_FAILED"
  | invalidPublicKey => "INVALID_PUBLIC_KEY"
  | cryptographicVerificationFailed => "CRYPTOGRAPHIC_VERIFICATION_FAILED"
  | canonicalMessageReconstructionFailed => "CANONICAL_MESSAGE_RECONSTRUCTION_FAILED"
  | verificationFailed => "VERIFICATION_FAILED"
  | responseVerificationFailed => "RESPONSE_VERIFICATION_FAILED"
  | requestVerificationFailed => "REQUEST_VERIFICATION_FAILED"
  | batchVerificationError => "BATCH_VERIFICATION_ERROR"
  | middlewareError => "MIDDLEWARE_ERROR"

def description : VerificationCode → Bytes
  | invalidConfig => "invalid verification configuration"
  | invalidPolicy => "invalid verification policy"
  | unknownPolicy => "unknown verification policy"
  | invalidMessage => "invalid message"
  | missingSignatureInput => "missing Signature-Input header"
  | missingSignature => "missing Signature header"
  | invalidSignatureFormat => "malformed Signature header"
  | invalidSignatureInputFormat => "malformed Signature-Input header"
  | signatureIdMismatch => "signature label mismatch"
  | invalidContentDigestFormat => "malformed Content-Digest header"
  | publicKeyNotFound => "public key not found"
  | keyRetrievalFailed => "public key retrieval failed"
  | invalidPublicKey => "invalid public key"
  | cryptographicVerificationFailed => "cryptographic verification failed"
  | canonicalMessageReconstructionFailed => "canonical message reconstruction failed"
  | verificationFailed => "verification failed"
  | responseVerificationFailed => "response verification failed"
  | requestVerificationFailed => "request verification failed"
  | batchVerificationError => "batch verification error"
  | middlewareError => "verification middleware error"

end VerificationCode

/-- Failures of a configuration source. -/
inductive ConfigCode
  | missingSource
  | malformedSource
  | invalidPolicy
  | unknownRule
  | invalidOption
  | invalidKey
  deriving DecidableEq, Repr

namespace ConfigCode

/-- The codes in the order of their numbers. -/
def all : List ConfigCode :=
  [missingSource, malformedSource, invalidPolicy, unknownRule, invalidOption, invalidKey]

def name : ConfigCode → Bytes
  | missingSource => "MISSING_SOURCE"
  | malformedSource => "MALFORMED_SOURCE"
  | invalidPolicy => "INVALID_POLICY"
  | unknownRule => "UNKNOWN_RULE"
  | invalidOption => "INVALID_OPTION"
  | invalidKey => "INVALID_KEY"

def description : ConfigCode → Bytes
  | missingSource => "configuration source not found"
  | malformedSource => "malformed configuration source"
  | invalidPolicy => "invalid policy definition"
  | unknownRule => "unknown verification rule"
  | invalidOption => "invalid option"
  | invalidKey => "invalid key material"

end ConfigCode

/-- Failures of the operating system that a key lookup or a timer reports. -/
inductive SystemError
  | timedOut
  | connectionRefused
  | canceled
  deriving DecidableEq, Repr

namespace SystemError

def number : SystemError → Int
  | timedOut => 110
  | connectionRefused => 111
  | canceled => 125

def message : SystemError → Bytes
  | timedOut => "Connection timed out"
  | connectionRefused => "Connection refused"
  | canceled => "Operation canceled"

end SystemError

/-- Where a code belongs. -/
inductive Category
  | signing
  | verification
  | config
  | system
  deriving DecidableEq, Repr

def Category.name : Category → Bytes
  | signing => "httpsig_signing"
  | verification => "httpsig_verification"
  | config => "httpsig_config"
  | system => "system"

/-- A code of any category. -/
inductive ErrorCode
  | signing (code : SigningCode)
  | verification (code : VerificationCode)
  | config (code : ConfigCode)
  | system (number : Int)
  /-- A number that is no code of its category. -/
  | unknown (category : Category)
  deriving DecidableEq, Repr

namespace ErrorCode

/-- The entry that a number counts from one. -/
def codeAt? {α : Type} (codes : List α) (number : Int) : Option α :=
  if number < 1 then none else codes[(number - 1).toNat]?

/-- The code that a number stands for in a category. -/
def ofNumber (category : Category) (number : Int) : ErrorCode :=
  match category with
  | .signing => ((codeAt? SigningCode.all number).map signing).getD (unknown .signing)
  | .verification =>
    ((codeAt? VerificationCode.all number).map verification).getD (unknown .verification)
  | .config => ((codeAt? ConfigCode.all number).map config).getD (unknown .config)
  | .system => system number

def category : ErrorCode → Category
  | signing _ => .signing
  | verification _ => .verification
  | config _ => .config
  | system _ => .system
  | unknown c => c

/-- The stable name; for a code of the operating system its category and number. -/
def name : ErrorCode → Bytes
  | signing c => c.name
  | verification c => c.name
  | config c => c.name
  | system n => "system:" ++ Decimal.ofInt n
  | unknown _ => "UNKNOWN_ERROR"

def description : ErrorCode → Bytes
  | signing c => c.description
  | verification c => c.description
  | config c => c.description
  | system n =>
    match [SystemError.timedOut, .connectionRefused, .canceled].find? (·.number == n) with
    | some e => e.message
    | none => "Unknown error " ++ Decimal.ofInt n
  | unknown c => "unknown " ++ c.name ++ " error"

end ErrorCode

/-- What a failure says about its case, keyed by name. -/
abbrev Details := Table Bytes

/-- A failure: its code, what went wrong, and the details. -/
structure Report where
  code : ErrorCode
  message : Bytes
  details : Details := {}
  deriving DecidableEq

/-- The message with the description of the code after it, as shown where no code can be. -/
def Report.text (r : Report) : Bytes := r.message ++ ": " ++ r.code.description

end SignedHttp
