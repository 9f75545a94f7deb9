import SignedHttp.Crypto.Ed25519

/-!
# The Cryptographic Suite

Signing, verifying and fingerprinting use four operations of a cryptographic
library and nothing else about it. They are gathered in a record, and everything
that signs or verifies takes the record as a parameter. What is then said of the
library holds for every suite with the properties named, for instance that a
signature made under a private key verifies under its public key; `Suite.standard`
is the one that is run.

Digests of bodies are not part of the record: a digest travels by the name of its
algorithm, so its algorithm is fixed.

## Main definitions

* `Suite`: The operations.
* `Suite.standard`: Ed25519 signatures and SHA-256 fingerprints.
-/

namespace SignedHttp

/-- The operations that signing, verifying and fingerprinting are built on. -/
structure Suite where
  publicKey : PrivateKey → PublicKey
  sign : PrivateKey → Bytes → RawSignature
  verify : PublicKey → Bytes → RawSignature → Bool
  /-- The hash that identifies a request in the signature cache. -/
  fingerprint : Bytes → Bytes

namespace Suite

/-- Ed25519 signatures and SHA-256 fingerprints. -/
def standard : Suite :=
  { publicKey := Ed25519.publicKey
    sign := Ed25519.sign
    verify := Ed25519.verify
    fingerprint := Sha2.sha256 }

end Suite

end SignedHttp
