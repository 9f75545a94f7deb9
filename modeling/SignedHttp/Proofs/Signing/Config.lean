import SignedHttp.Signing.Config

/-!
# What Validation Promises

A configuration without fault has a usable private key, and everything in it that
will be written on the wire has the form that a reader expects: a key identifier
without whitespace, header names that are tokens, a label without delimiters.

Nothing is promised of the bytes of the key identifier beyond that. Quotes and equals
signs do no harm where it is written, but a semicolon ends it for the reader.

## Theorems

* `validate_eq_ok_iff`: What a configuration without fault is.
* `not_mem_of_isValidLabel`: A label holds no delimiter.
* `equals_not_mem_of_isValidLabel`: A label is read back from before an equals sign.
-/

namespace SignedHttp

/-- A label holds none of the bytes that end it somewhere. -/
theorem not_mem_of_isValidLabel {label : Bytes} (h : isValidLabel label = true) {b : UInt8}
    (hb : b ∈ labelDelimiters) : b ∉ label := by
  rw [isValidLabel, Bool.and_eq_true, Bool.not_eq_true', Bool.not_eq_true', List.any_eq_false] at h
  -- The delimiters are tested one by one, and the byte is one of them.
  exact fun hmem => h.2 b hmem (List.contains_iff_mem.2 hb)

/-- A label holds no equals sign, which is where a reader takes it to end. -/
theorem equals_not_mem_of_isValidLabel {label : Bytes} (h : isValidLabel label = true) :
    label ≠ [] ∧ Ascii.equals ∉ label := by
  refine ⟨?_, not_mem_of_isValidLabel h (by decide)⟩
  rintro rfl
  exact absurd h (by decide)

/-- A key is usable as it is, unless all its bytes are zero. -/
theorem usableKey_eq_ok_iff {key key' : PrivateKey} :
    usableKey key = .ok key' ↔ key.isZero = false ∧ key' = key := by
  rw [usableKey]
  split
  · next hzero =>
    constructor
    · intro h
      cases h
    · intro h
      rcases h with ⟨hkey, -⟩
      rw [hzero] at hkey
      exact Bool.noConfusion hkey
  · next hzero =>
    rw [Bool.not_eq_true] at hzero
    exact ⟨fun h => ⟨hzero, (Except.ok.inj h).symm⟩, fun h => by rw [h.2]⟩

namespace SigningConfig

variable {c : SigningConfig}

/-- Nothing that will be written has a form that a reader does not expect. -/
theorem wireFault?_eq_none_iff :
    c.wireFault? = none ↔ c.components.isEmpty = false ∧
      (∀ name ∈ c.components.headers ++ c.requiredHeaders, isValidHeaderName name = true) ∧
      isValidLabel c.label = true := by
  -- Only the headers take a search; the other two checks look at one thing each.
  have hheaders : c.invalidHeader? = none ↔
      ∀ name ∈ c.components.headers ++ c.requiredHeaders, isValidHeaderName name = true := by
    simp only [invalidHeader?, List.find?_eq_none, Bool.not_eq_true', Bool.not_eq_false]
  rw [← hheaders]
  constructor
  · intro h
    rw [wireFault?] at h
    split at h
    · cases h
    · next hempty =>
      split at h
      · cases h
      · next hinvalid =>
        split at h
        · next hlabel => exact ⟨Bool.not_eq_true _ ▸ hempty, hinvalid, hlabel⟩
        · cases h
  · intro h
    rcases h with ⟨hempty, hinvalid, hlabel⟩
    rw [wireFault?, hempty, if_neg Bool.false_ne_true, hinvalid, hlabel]
    rfl

/-- The key that a configuration signs with is the one that it was given. -/
theorem key_eq_ok_iff {key : PrivateKey} :
    c.key = .ok key ↔ c.privateKey = some key ∧ key.isZero = false := by
  rw [SigningConfig.key]
  cases c.privateKey with
  | none =>
      constructor
      · intro h
        cases h
      · rintro ⟨⟨⟩, -⟩
  | some given =>
      simp only [usableKey_eq_ok_iff, Option.some.injEq]
      constructor
      · intro h
        rcases h with ⟨hzero, rfl⟩
        exact ⟨rfl, hzero⟩
      · intro h
        rcases h with ⟨rfl, hzero⟩
        exact ⟨hzero, rfl⟩

/-- A configuration without fault is one that passes every check, whatever their order. -/
theorem validate_eq_ok_iff {key : PrivateKey} :
    c.validate = .ok key ↔ isValidKeyId c.keyId = true ∧
      (c.privateKey = some key ∧ key.isZero = false) ∧ c.components.isEmpty = false ∧
      (∀ name ∈ c.components.headers ++ c.requiredHeaders, isValidHeaderName name = true) ∧
      isValidLabel c.label = true := by
  rw [← key_eq_ok_iff, ← wireFault?_eq_none_iff]
  constructor
  · intro h
    rw [validate] at h
    split at h
    · next hkeyId =>
      split at h
      · cases h
      · next hkey =>
        split at h
        · cases h
        · next hwire =>
          rw [Except.ok.inj h] at hkey
          exact ⟨hkeyId, hkey, hwire⟩
    · cases h
  · intro h
    rcases h with ⟨hkeyId, hkey, hwire⟩
    rw [validate, if_pos hkeyId, hkey]
    simp only [hwire]

end SigningConfig

end SignedHttp
