import SignedHttp.Text.Hex

/-!
# Keys and Signatures

Public keys, private keys and raw signatures are byte sequences of a fixed
length. The length is part of the type, so a value of the wrong length cannot be
handed to the signature scheme; it is refused where bytes or hexadecimal text
become a key.

The private key whose bytes are all zero is a value of the type. It is the
signing configuration that refuses it.

## Main definitions

* `Octets`: Byte sequences of a fixed length.
* `PublicKey`, `PrivateKey`, `RawSignature`: The lengths in use.
* `Octets.ofBytes?`, `Octets.ofHex?`: Checked construction.
-/

namespace SignedHttp

/-- A byte sequence of length `n`. -/
structure Octets (n : Nat) where
  bytes : Bytes
  length_eq : bytes.length = n
  deriving DecidableEq

/-- An encoded point of the curve, or any 32 bytes in its place. -/
abbrev PublicKey := Octets 32

/-- The seed of a key pair. -/
abbrev PrivateKey := Octets 32

/-- A signature: an encoded point and a scalar. -/
abbrev RawSignature := Octets 64

namespace Octets

/-- The bytes, if there are `n` of them. -/
def ofBytes? (n : Nat) (s : Bytes) : Option (Octets n) :=
  if h : s.length = n then some ⟨s, h⟩ else none

/-- The bytes of a hexadecimal text, if it has `2 * n` digits. -/
def ofHex? (n : Nat) (text : Bytes) : Option (Octets n) :=
  if text.length = 2 * n then (Hex.decode text).bind (ofBytes? n) else none

/-- The bytes in hexadecimal. -/
def toHex {n : Nat} (o : Octets n) : Bytes := Hex.encode o.bytes

/-- Are all bytes zero? -/
def isZero {n : Nat} (o : Octets n) : Bool := o.bytes.all (· == 0)

end Octets

end SignedHttp
