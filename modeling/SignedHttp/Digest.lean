import SignedHttp.Crypto.Sha2
import SignedHttp.Error.Cause
import SignedHttp.Text.Base64
import SignedHttp.Text.Delimited

/-!
# Content Digests

The digest of a body, as the `Content-Digest` header carries it: the name of the
algorithm, and the digest in base 64 between colons. The value is kept as the text
it was written in, so a digest that was read is written back unchanged
(`headerValue_of_parse`), and two digests are compared as texts: of the several
texts that decode to the same bytes only the one that is computed matches.

A header value is accepted if it has the form, names a supported algorithm, and
its value decodes to as many bytes as the algorithm gives.

## Main definitions

* `DigestAlgorithm`: The supported algorithms.
* `ContentDigest`: An algorithm and a digest in base 64.
* `ContentDigest.ofBody`: The digest of a body.
* `ContentDigest.parse`: The digest that a header value carries.
* `ContentDigest.matchesBody`: Is it the digest of a body?

## Theorems

* `headerValue_of_parse`: A digest that was read is written back unchanged.
-/

namespace SignedHttp

/-- An algorithm for digests of bodies. -/
inductive DigestAlgorithm
  | sha256
  | sha512
  deriving DecidableEq, Repr

namespace DigestAlgorithm

def name : DigestAlgorithm → Bytes
  | sha256 => "sha-256"
  | sha512 => "sha-512"

def parse? (name : Bytes) : Option DigestAlgorithm :=
  [sha256, sha512].find? (·.name == name)

theorem name_of_parse? {name : Bytes} {a : DigestAlgorithm} (h : parse? name = some a) :
    a.name = name := by
  simpa using List.find?_some h

/-- The member of the hash family. -/
def hash : DigestAlgorithm → Sha2.Algorithm
  | sha256 => .sha256
  | sha512 => .sha512

end DigestAlgorithm

/-- The digest of a body: the algorithm and the digest in base 64. -/
structure ContentDigest where
  algorithm : DigestAlgorithm
  value : Bytes
  deriving DecidableEq

namespace ContentDigest

/-- The value of the `Content-Digest` header. -/
def headerValue (d : ContentDigest) : Bytes := Delimited.render d.algorithm.name d.value

/-- The digest of a sequence of bytes. -/
def ofBytes (algorithm : DigestAlgorithm) (content : Bytes) : ContentDigest :=
  ⟨algorithm, Base64.encode (algorithm.hash.digest content)⟩

/-- The digest of a body, an absent one counting as empty. -/
def ofBody (algorithm : DigestAlgorithm) (body : Option Bytes) : ContentDigest :=
  ofBytes algorithm (body.getD [])

/-- The digest that a header value carries. -/
def parse (header : Bytes) : Except VerificationError ContentDigest :=
  match Delimited.parse? header with
  | none => .error (.malformedDigest header)
  | some (name, value) =>
    match DigestAlgorithm.parse? name with
    | none => .error (.unsupportedDigest header name)
    | some algorithm =>
      match Base64.decode value with
      | none => .error (.invalidDigestValue header)
      | some raw =>
        if raw.length = algorithm.hash.size then .ok ⟨algorithm, value⟩
        else .error (.invalidDigestValue header)

theorem headerValue_of_parse {header : Bytes} {d : ContentDigest} (h : parse header = .ok d) :
    d.headerValue = header := by
  simp only [parse] at h
  split at h
  · cases h
  · next hd =>
    split at h
    · cases h
    · next ha =>
      split at h
      · cases h
      · split at h
        · simp only [Except.ok.injEq] at h
          subst h
          rw [headerValue, DigestAlgorithm.name_of_parse? ha, (Delimited.parse?_eq_some_iff.1 hd).1]
        · cases h

/-- Is this the digest of the body, by its own algorithm? -/
def matchesBody (d : ContentDigest) (body : Option Bytes) : Bool :=
  (ofBody d.algorithm body).value == d.value

end ContentDigest

end SignedHttp
