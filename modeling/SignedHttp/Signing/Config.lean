import SignedHttp.Digest
import SignedHttp.Signature.Components
import SignedHttp.Signature.Params
import SignedHttp.World

/-!
# Signing Configurations

What a signer signs with: a key and its identifier, the components to cover, the
algorithm for digests of bodies, the label of the signature, and where nonces and
time stamps come from. Any combination of these can be written down; whether one
can be signed with is decided by `SigningConfig.validate`, which names the first
fault. A configuration without fault has a private key that is not all zero, and
that key is what validation gives.

The tests are there for what is written on the wire. A label without any of the
delimiters of the header, and header names that are tokens, are read back as they
were written.

## Main definitions

* `SigningConfig`: The configuration of a signer.
* `SigningConfig.validate`: Its private key, or its first fault.
* `isValidLabel`: Can a label stand before a signature?
-/

namespace SignedHttp

/-- The configuration of a signer. -/
structure SigningConfig where
  keyId : Bytes := []
  privateKey : Option PrivateKey := none
  components : Components := {}
  digestAlgorithm : DigestAlgorithm := .sha256
  /-- Is it a fault if a message lacks one of the headers to cover? -/
  strictHeaders : Bool := false
  /-- The headers that every message must have. -/
  requiredHeaders : List Bytes := []
  label : Bytes := defaultLabel
  /-- Where nonces come from, if they are not random. -/
  nonces : Option (Feed Bytes) := none
  /-- Where time stamps come from, if they are not the present. -/
  timestamps : Option (Feed Int) := none

/-- The bytes that a label cannot hold. -/
def labelDelimiters : Bytes := "=:;() \t\""

/-- Can a label stand before a signature? -/
def isValidLabel (label : Bytes) : Bool :=
  !label.isEmpty && !label.any labelDelimiters.contains

/-- A private key, unless it is all zero. -/
def usableKey (key : PrivateKey) : Except SigningError PrivateKey :=
  if key.isZero then .error .zeroPrivateKey else .ok key

namespace SigningConfig

/-- The private key, if there is a usable one. -/
def key (c : SigningConfig) : Except SigningError PrivateKey :=
  match c.privateKey with
  | none => .error .missingPrivateKey
  | some key => usableKey key

/-- The first header name, of those to cover and those required, that is no token. -/
def invalidHeader? (c : SigningConfig) : Option Bytes :=
  (c.components.headers ++ c.requiredHeaders).find? (!isValidHeaderName ·)

/-- The first fault of what is to be covered and how the signature is labelled. -/
def wireFault? (c : SigningConfig) : Option SigningError :=
  if c.components.isEmpty then some .noComponents
  else
    match c.invalidHeader? with
    | some name => some (.invalidHeaderName name)
    | none => if isValidLabel c.label then none else some (.invalidLabel c.label)

/-- The private key of a configuration without fault, or the first fault. -/
def validate (c : SigningConfig) : Except SigningError PrivateKey :=
  if isValidKeyId c.keyId then
    match c.key with
    | .error e => .error e
    | .ok key =>
      match c.wireFault? with
      | some e => .error e
      | none => .ok key
  else .error (.invalidKeyId c.keyId)

end SigningConfig

end SignedHttp
