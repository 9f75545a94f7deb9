import SignedHttp.Digest
import SignedHttp.Proofs.Text.Base64

/-!
# Digests That Were Computed

The digest of a body is one that a reader accepts: its value is base 64 for as many
bytes as the algorithm gives, and the header that carries it is read as the same
digest. It matches the body that it was computed from, and it is the only text that
does.

## Main definitions

* `ContentDigest.IsDecodable`: A digest header that can be decoded.

## Theorems

* `parse_headerValue_ofBody`: A computed digest is read as it was written.
* `exists_parse_iff`: A header is read if it can be decoded.
* `code_of_parse`: A header that is no digest is reported under one code.
* `matchesBody_iff`: A digest matches a body exactly if it is the one computed from it.
* `ofBody_eq_of_headerValue`: A computed header determines algorithm and digest.
* `parse_matchesBody_iff`: Of all texts only the computed ones are accepted for a body.
-/

namespace SignedHttp

/-- The name of an algorithm is read as this algorithm. -/
theorem DigestAlgorithm.parse?_name (a : DigestAlgorithm) : parse? a.name = some a := by
  cases a <;> decide

namespace ContentDigest

/-- A digest that was computed is read back from the header that it is written to, whatever the body
was: the name is known, and the value decodes to as many bytes as the algorithm gives. -/
theorem parse_headerValue_ofBody (a : DigestAlgorithm) (body : Option Bytes) :
    parse (ofBody a body).headerValue = .ok (ofBody a body) := by
  have hsize : (a.hash.digest (body.getD [])).length = a.hash.size :=
    Sha2.Algorithm.length_digest a.hash _
  -- A value that is empty would not be read, but every algorithm gives some bytes.
  have hne : a.hash.digest (body.getD []) ≠ [] := by
    intro h
    rw [h] at hsize
    cases a <;> exact absurd hsize (by decide)
  have hdelimited : Delimited.parse? (ofBody a body).headerValue
      = some (a.name, (ofBody a body).value) := by
    refine Delimited.parse?_eq_some_iff.2 ⟨rfl, ?_, ?_, Base64.encode_ne_nil hne,
      Base64.colon_not_mem_encode _⟩
    · cases a <;> decide
    · cases a <;> decide
  rw [parse, hdelimited]
  simp only [DigestAlgorithm.parse?_name, ofBody, ofBytes, Base64.decode_encode, hsize, if_true]

/-- A digest header that names an algorithm and decodes to as many bytes as that gives. -/
def IsDecodable (header : Bytes) : Prop :=
  ∃ (a : DigestAlgorithm) (value raw : Bytes), Delimited.parse? header = some (a.name, value) ∧
    Base64.decode value = some raw ∧ raw.length = a.hash.size

/-- A header is read exactly if it can be decoded. The body has no part in this. -/
theorem exists_parse_iff {header : Bytes} :
    (∃ d, parse header = .ok d) ↔ IsDecodable header := by
  constructor
  · rintro ⟨d, h⟩
    simp only [parse] at h
    split at h
    · cases h
    next name value hform =>
    split at h
    · cases h
    next algorithm halgorithm =>
    split at h
    · cases h
    next raw hraw =>
    split at h
    next hsize =>
      rw [← DigestAlgorithm.name_of_parse? halgorithm] at hform
      exact ⟨algorithm, value, raw, hform, hraw, hsize⟩
    · cases h
  · -- The name in the header is that of an algorithm, so it is the one that is looked up.
    rintro ⟨a, value, raw, hform, hraw, hsize⟩
    refine ⟨⟨a, value⟩, ?_⟩
    simp only [parse, hform, DigestAlgorithm.parse?_name, hraw, if_pos hsize]

/-- Whatever is wrong with the header of a digest, it is reported under one code. -/
theorem code_of_parse {header : Bytes} {e : VerificationError} (h : parse header = .error e) :
    e.code = .invalidContentDigestFormat := by
  rw [parse] at h
  -- Each of the four ways to fail ends the reading with an error of its own.
  split at h
  · rw [← Except.error.inj h]
    rfl
  · split at h
    · rw [← Except.error.inj h]
      rfl
    · split at h
      · rw [← Except.error.inj h]
        rfl
      · split at h
        · cases h
        · rw [← Except.error.inj h]
          rfl

/-- A digest matches a body if the digest of the body under the same algorithm is the same text. -/
theorem matchesBody_iff {d : ContentDigest} {body : Option Bytes} :
    d.matchesBody body = true ↔ d = ofBody d.algorithm body := by
  -- Texts are compared, not the bytes that they stand for.
  rw [matchesBody, beq_iff_eq]
  constructor
  · intro h
    cases d
    rw [ContentDigest.mk.injEq]
    exact ⟨rfl, h.symm⟩
  · intro h
    rw [← h]

/-- A header that was computed determines the algorithm, and the bytes of the digest. -/
theorem ofBody_eq_of_headerValue {a b : DigestAlgorithm} {x y : Option Bytes}
    (h : (ofBody a x).headerValue = (ofBody b y).headerValue) :
    a = b ∧ a.hash.digest (x.getD []) = a.hash.digest (y.getD []) := by
  have hread := parse_headerValue_ofBody a x
  rw [h, parse_headerValue_ofBody] at hread
  have hsame := Except.ok.inj hread
  simp only [ofBody, ofBytes, ContentDigest.mk.injEq] at hsame
  rcases hsame with ⟨rfl, hvalue⟩
  -- Of the texts of a digest only one is written, so equal texts are texts of the same bytes.
  have hdecoded := congrArg Base64.decode hvalue
  rw [Base64.decode_encode, Base64.decode_encode] at hdecoded
  exact ⟨rfl, (Option.some.inj hdecoded).symm⟩

theorem matchesBody_ofBody (a : DigestAlgorithm) (body : Option Bytes) :
    (ofBody a body).matchesBody body = true :=
  matchesBody_iff.2 rfl

/-- A header is read as a digest that matches the body exactly if it is one of those that are
computed from the body. A digest that is read, whether it matches or not, is written as it was. -/
theorem parse_matchesBody_iff (body : Option Bytes) (header : Bytes) :
    ((∃ d, parse header = .ok d ∧ d.matchesBody body = true) ↔
      header = (ofBody .sha256 body).headerValue ∨ header = (ofBody .sha512 body).headerValue) ∧
    ∀ d, parse header = .ok d → d.headerValue = header := by
  refine ⟨⟨?_, ?_⟩, fun d hread => headerValue_of_parse hread⟩
  · rintro ⟨d, hread, hmatches⟩
    -- The match is one of texts, so other texts for the same bytes are not among these.
    have hcomputed : header = (ofBody d.algorithm body).headerValue := by
      rw [← matchesBody_iff.1 hmatches, headerValue_of_parse hread]
    cases halgorithm : d.algorithm with
    | sha256 => exact Or.inl (halgorithm ▸ hcomputed)
    | sha512 => exact Or.inr (halgorithm ▸ hcomputed)
  · rintro (rfl | rfl)
    · exact ⟨_, parse_headerValue_ofBody .sha256 body, matchesBody_ofBody .sha256 body⟩
    · exact ⟨_, parse_headerValue_ofBody .sha512 body, matchesBody_ofBody .sha512 body⟩

/-- The digest of an empty body, and a text that differs from it in bits that the reader ignores:
it is read and written as it was, but does not match. -/
theorem parse_matchesBody_iff_spare_bits :
    let computed : Bytes := "sha-256=:47DEQpj8HBSa+/TImW+5JCeuQeRkm5NMpJWZG3hSuFU=:"
    let other : Bytes := "sha-256=:47DEQpj8HBSa+/TImW+5JCeuQeRkm5NMpJWZG3hSuFV=:"
    let value : Bytes := "47DEQpj8HBSa+/TImW+5JCeuQeRkm5NMpJWZG3hSuFV="
    (∃ d, parse computed = .ok d ∧ d.matchesBody none = true) ∧
      parse other = .ok ⟨.sha256, value⟩ ∧ (ContentDigest.mk .sha256 value).headerValue = other ∧
      ¬ ∃ d, parse other = .ok d ∧ d.matchesBody none = true := by
  intro computed other value
  have hcomputed : computed = (ofBody .sha256 none).headerValue := by decide +kernel
  have hread : parse other = .ok ⟨.sha256, value⟩ := by rfl
  refine ⟨(parse_matchesBody_iff none computed).1.2 (Or.inl hcomputed), hread,
    (parse_matchesBody_iff none other).2 _ hread, fun hmatches => ?_⟩
  rcases (parse_matchesBody_iff none other).1.1 hmatches with h | h
  · rw [← hcomputed] at h
    exact absurd h (by decide)
  · -- The longer digest is longer as a text.
    have hlength := congrArg List.length h
    exact absurd hlength (by decide +kernel)

end ContentDigest

end SignedHttp
