import SignedHttp.Proofs.Verify.Checks

/-!
# What a Verification Needs, and Why It Has Nothing to Check

A verification needs headers that can be read, a policy, and a key, in this order. What it finds
and what it misses are said here as relations, one constructor for each way in which it can go,
and the gathering is what they say (`gather_eq_ok_iff_gathers`, `gather_eq_error_iff`). The order
is in the premises: a reason that comes later holds only if all before it do not.

A key is the one that is given with the call. If none is, it is the one that is configured under
the identifier, and if there is none either the key sources are asked, unless they are to be
skipped.

## Main definitions

* `Verifier.FindsKey`, `Verifier.LacksKey`: Where the key comes from, and why there is none.
* `Verifier.Gathers`, `Verifier.Refuses`: What there is to check, and why there is nothing.

## Theorems

* `findKey_cases`: One of the two comes of the search for the key.
* `findKey_eq_ok_iff`, `findKey_eq_error_iff`: Which of them it is.
* `gather_eq_ok_iff_gathers`, `gather_eq_error_iff`: The gathering.
* `refuses_or_gathers`: One of the two is the case.
-/

namespace SignedHttp

namespace Verifier

/-- The key to check with, and the time that is spent on finding it. -/
inductive FindsKey (v : Verifier) (o : VerifyOptions) (keyId : Bytes) (abort : Abort) :
    PublicKey → Nat → Prop
  | given {key : PublicKey} (h : o.publicKey = some key) : FindsKey v o keyId abort key 0
  | configured {key : PublicKey} (hgiven : o.publicKey = none)
      (h : v.config.publicKeys.find? keyId = some key) : FindsKey v o keyId abort key 0
  | retrieved {key : PublicKey} (hgiven : o.publicKey = none)
      (hconfigured : v.config.publicKeys.find? keyId = none) (hskip : o.skipKeyRetrieval = false)
      (h : (resolve v.config.keyTimeout keyId v.config.keySources abort).result = .ok key) :
      FindsKey v o keyId abort key
        (resolve v.config.keyTimeout keyId v.config.keySources abort).elapsed

/-- Why there is no key. -/
inductive LacksKey (v : Verifier) (o : VerifyOptions) (keyId : Bytes) (abort : Abort) :
    VerificationError → Prop
  | skipped (hgiven : o.publicKey = none) (hconfigured : v.config.publicKeys.find? keyId = none)
      (h : o.skipKeyRetrieval = true ∨ v.config.keySources = []) :
      LacksKey v o keyId abort (.keyNotFound keyId)
  | unknown (hgiven : o.publicKey = none) (hconfigured : v.config.publicKeys.find? keyId = none)
      (hskip : o.skipKeyRetrieval = false) (hsources : v.config.keySources ≠ [])
      (h : (resolve v.config.keyTimeout keyId v.config.keySources abort).result
        = .error .notFound) :
      LacksKey v o keyId abort (.keyNotInSources keyId)
  | canceled (hgiven : o.publicKey = none) (hconfigured : v.config.publicKeys.find? keyId = none)
      (hskip : o.skipKeyRetrieval = false)
      (h : (resolve v.config.keyTimeout keyId v.config.keySources abort).result
        = .error .canceled) :
      LacksKey v o keyId abort (.keyRetrieval keyId .canceled)

/-- What there is to check, and the time that is spent on gathering it. -/
structure Gathers (v : Verifier) (headers : Fields) (o : VerifyOptions) (abort : Abort)
    (e : Evidence) (elapsed : Nat) : Prop where
  received : Received.ofHeaders headers = .ok e.received
  policy : v.config.policies.find? (o.policy.getD v.config.defaultPolicy) = some e.policy
  key : v.FindsKey o (o.keyId.getD e.received.params.keyId) abort e.key elapsed

/-- Why there is nothing to check: the first reason that applies. -/
inductive Refuses (v : Verifier) (headers : Fields) (o : VerifyOptions) (abort : Abort) :
    VerificationError → Prop
  | extraction {err : VerificationError} (h : Received.ofHeaders headers = .error err) :
      Refuses v headers o abort err
  | policy {r : Received} (hreceived : Received.ofHeaders headers = .ok r)
      (h : v.config.policies.find? (o.policy.getD v.config.defaultPolicy) = none) :
      Refuses v headers o abort (.unknownPolicy (o.policy.getD v.config.defaultPolicy))
  | key {r : Received} {p : Policy} {err : VerificationError}
      (hreceived : Received.ofHeaders headers = .ok r)
      (hpolicy : v.config.policies.find? (o.policy.getD v.config.defaultPolicy) = some p)
      (h : v.LacksKey o (o.keyId.getD r.params.keyId) abort err) :
      Refuses v headers o abort err

variable {v : Verifier} {o : VerifyOptions} {keyId : Bytes} {abort : Abort} {headers : Fields}
  {key : PublicKey} {err : VerificationError} {elapsed : Nat} {e : Evidence}

/-- A key that is found at once is given or configured. -/
theorem knownKey?_eq_some_iff :
    v.knownKey? o keyId = some key ↔ o.publicKey = some key ∨
      (o.publicKey = none ∧ v.config.publicKeys.find? keyId = some key) := by
  unfold knownKey?
  cases o.publicKey with
  | none =>
      simp only [Option.orElse_eq_orElse, Option.orElse_eq_or, Option.none_or, reduceCtorEq,
        true_and, false_or]
  | some given =>
      simp only [Option.orElse_eq_orElse, Option.orElse_eq_or, Option.some_or, reduceCtorEq,
        false_and, or_false]

theorem knownKey?_eq_none_iff :
    v.knownKey? o keyId = none ↔
      o.publicKey = none ∧ v.config.publicKeys.find? keyId = none := by
  unfold knownKey?
  cases o.publicKey with
  | none => simp only [Option.orElse_eq_orElse, Option.orElse_eq_or, Option.none_or, true_and]
  | some given =>
      simp only [Option.orElse_eq_orElse, Option.orElse_eq_or, Option.some_or, reduceCtorEq,
        false_and]

theorem findKey_of_known (h : v.knownKey? o keyId = some key) :
    v.findKey o keyId abort = (.ok key, 0, []) := by
  rw [findKey, h]

/-- Sources are asked, or not, if no key is found at once. -/
theorem findKey_of_unknown (h : v.knownKey? o keyId = none) :
    v.findKey o keyId abort = v.retrieveKey o keyId abort := by
  rw [findKey, h]

theorem retrieveKey_of_skipped
    (h : o.skipKeyRetrieval = true ∨ v.config.keySources = []) :
    v.retrieveKey o keyId abort = (.error (.keyNotFound keyId), 0, []) := by
  have hskipped : (o.skipKeyRetrieval || v.config.keySources.isEmpty) = true := by
    rw [Bool.or_eq_true, List.isEmpty_iff]
    exact h
  rw [retrieveKey, if_pos hskipped]

/-- What is found by asking sources is what the lookup gives, under the name of this step. -/
theorem retrieveKey_of_asked (hskip : o.skipKeyRetrieval = false)
    (hsources : v.config.keySources ≠ []) :
    let lookup := resolve v.config.keyTimeout keyId v.config.keySources abort
    v.retrieveKey o keyId abort =
      (match lookup.result with
        | .ok key => .ok key
        | .error .notFound => .error (.keyNotInSources keyId)
        | .error .canceled => .error (.keyRetrieval keyId .canceled),
        lookup.elapsed, lookup.log) := by
  have hasked : ¬ (o.skipKeyRetrieval || v.config.keySources.isEmpty) = true := by
    rw [Bool.or_eq_true, List.isEmpty_iff, not_or]
    exact ⟨Bool.not_eq_true _ ▸ hskip, hsources⟩
  intro lookup
  unfold retrieveKey
  exact if_neg hasked

/-- There are sources if anything but the absence of a key comes of asking them. -/
theorem sources_ne_nil {result : Except LookupError PublicKey}
    (h : (resolve v.config.keyTimeout keyId v.config.keySources abort).result = result)
    (hresult : result ≠ .error .notFound) : v.config.keySources ≠ [] := by
  intro hnil
  rw [hnil] at h
  exact hresult h.symm

/-- The search ends with a key that is there or with the reason why there is none. -/
theorem findKey_cases (v : Verifier) (o : VerifyOptions) (keyId : Bytes) (abort : Abort) :
    (∃ key, (v.findKey o keyId abort).1 = .ok key ∧
      v.FindsKey o keyId abort key (v.findKey o keyId abort).2.1) ∨
    ∃ err, (v.findKey o keyId abort).1 = .error err ∧ v.LacksKey o keyId abort err := by
  -- The places are looked at in order: the call, the configuration, the sources.
  cases hknown : v.knownKey? o keyId with
  | some key =>
      rw [findKey_of_known hknown]
      rcases knownKey?_eq_some_iff.1 hknown with hgiven | ⟨hgiven, hconfigured⟩
      · exact Or.inl ⟨key, rfl, .given hgiven⟩
      · exact Or.inl ⟨key, rfl, .configured hgiven hconfigured⟩
  | none =>
      rcases knownKey?_eq_none_iff.1 hknown with ⟨hgiven, hconfigured⟩
      rw [findKey_of_unknown hknown]
      -- Sources are asked if there are some and the call does not forbid it.
      by_cases hskipped : o.skipKeyRetrieval = true ∨ v.config.keySources = []
      · rw [retrieveKey_of_skipped hskipped]
        exact Or.inr ⟨_, rfl, .skipped hgiven hconfigured hskipped⟩
      · rw [not_or, Bool.not_eq_true] at hskipped
        rcases hskipped with ⟨hskip, hsources⟩
        rw [retrieveKey_of_asked hskip hsources]
        cases hresult : (resolve v.config.keyTimeout keyId v.config.keySources abort).result with
        | ok key => exact Or.inl ⟨key, rfl, .retrieved hgiven hconfigured hskip hresult⟩
        | error cause =>
            cases cause with
            | notFound => exact Or.inr ⟨_, rfl, .unknown hgiven hconfigured hskip hsources hresult⟩
            | canceled => exact Or.inr ⟨_, rfl, .canceled hgiven hconfigured hskip hresult⟩

theorem FindsKey.findKey_eq (h : v.FindsKey o keyId abort key elapsed) :
    (v.findKey o keyId abort).1 = .ok key ∧ (v.findKey o keyId abort).2.1 = elapsed := by
  cases h with
  | given h =>
      rw [findKey_of_known (knownKey?_eq_some_iff.2 (Or.inl h))]
      exact ⟨rfl, rfl⟩
  | configured hgiven h =>
      rw [findKey_of_known (knownKey?_eq_some_iff.2 (Or.inr ⟨hgiven, h⟩))]
      exact ⟨rfl, rfl⟩
  | retrieved hgiven hconfigured hskip h =>
      rw [findKey_of_unknown (knownKey?_eq_none_iff.2 ⟨hgiven, hconfigured⟩),
        retrieveKey_of_asked hskip (sources_ne_nil h nofun), h]
      exact ⟨rfl, rfl⟩

theorem LacksKey.findKey_eq (h : v.LacksKey o keyId abort err) :
    (v.findKey o keyId abort).1 = .error err := by
  -- Each reason says how far the search went.
  cases h with
  | skipped hgiven hconfigured h =>
      rw [findKey_of_unknown (knownKey?_eq_none_iff.2 ⟨hgiven, hconfigured⟩),
        retrieveKey_of_skipped h]
  | unknown hgiven hconfigured hskip hsources h =>
      rw [findKey_of_unknown (knownKey?_eq_none_iff.2 ⟨hgiven, hconfigured⟩),
        retrieveKey_of_asked hskip hsources, h]
  | canceled hgiven hconfigured hskip h =>
      rw [findKey_of_unknown (knownKey?_eq_none_iff.2 ⟨hgiven, hconfigured⟩),
        retrieveKey_of_asked hskip (sources_ne_nil h nofun), h]

/-- A key is found exactly in one of the ways in which it can be. -/
theorem findKey_eq_ok_iff :
    (v.findKey o keyId abort).1 = .ok key ∧ (v.findKey o keyId abort).2.1 = elapsed ↔
      v.FindsKey o keyId abort key elapsed := by
  refine ⟨fun h => ?_, FindsKey.findKey_eq⟩
  rcases h with ⟨hkey, rfl⟩
  -- The search ends in one way, so the way in which it ended is the one.
  rcases findKey_cases v o keyId abort with ⟨found, heq, hfound⟩ | ⟨err, heq, -⟩
  · rw [hkey] at heq
    cases heq
    exact hfound
  · rw [hkey] at heq
    cases heq

/-- Otherwise there is one reason for it. -/
theorem findKey_eq_error_iff :
    (v.findKey o keyId abort).1 = .error err ↔ v.LacksKey o keyId abort err := by
  refine ⟨fun h => ?_, LacksKey.findKey_eq⟩
  rcases findKey_cases v o keyId abort with ⟨found, heq, -⟩ | ⟨cause, heq, hlacks⟩
  · rw [h] at heq
    cases heq
  · rw [h] at heq
    cases heq
    exact hlacks

/-- There is something to check exactly if all parts of it are there. -/
theorem gather_eq_ok_iff_gathers :
    (v.gather headers o abort).result = .ok e ∧ (v.gather headers o abort).elapsed = elapsed ↔
      v.Gathers headers o abort e elapsed := by
  constructor
  · rintro ⟨hresult, helapsed⟩
    rcases gather_eq_ok_iff.1 hresult with ⟨hreceived, hpolicy, hkey⟩
    rw [gather_elapsed hresult] at helapsed
    exact ⟨hreceived, hpolicy, findKey_eq_ok_iff.1 ⟨hkey, helapsed⟩⟩
  · intro h
    rcases findKey_eq_ok_iff.2 h.key with ⟨hkey, helapsed⟩
    have hresult := gather_eq_ok_iff.2 ⟨h.received, h.policy, hkey⟩
    exact ⟨hresult, (gather_elapsed hresult).trans helapsed⟩

/-- If not, the first part that is missing is the reason. -/
theorem gather_eq_error_iff :
    (v.gather headers o abort).result = .error err ↔ v.Refuses headers o abort err := by
  constructor
  · intro h
    -- The three parts in the order in which they are looked for; the first one missing is the
    -- reason.
    cases hreceived : Received.ofHeaders headers with
    | error cause =>
        simp only [gather, hreceived] at h
        cases h
        exact .extraction hreceived
    | ok r =>
        cases hpolicy : v.config.policies.find? (o.policy.getD v.config.defaultPolicy) with
        | none =>
            simp only [gather, hreceived, PolicyRegistry.get, hpolicy] at h
            cases h
            exact .policy hreceived hpolicy
        | some p =>
            simp only [gather, hreceived, PolicyRegistry.get, hpolicy] at h
            cases hkey : (v.findKey o (o.keyId.getD r.params.keyId) abort).1 with
            | error cause =>
                simp only [hkey] at h
                cases h
                exact .key hreceived hpolicy (findKey_eq_error_iff.1 hkey)
            | ok key =>
                simp only [hkey] at h
                cases h
  · intro h
    cases h with
    | extraction h => simp only [gather, h]
    | policy hreceived h => simp only [gather, hreceived, PolicyRegistry.get, h]
    | key hreceived hpolicy h =>
        simp only [gather, hreceived, PolicyRegistry.get, hpolicy, findKey_eq_error_iff.2 h]

/-- There is something to check, or a reason why there is not. -/
theorem refuses_or_gathers (v : Verifier) (headers : Fields) (o : VerifyOptions) (abort : Abort) :
    (∃ err, v.Refuses headers o abort err) ∨
      ∃ e elapsed, v.Gathers headers o abort e elapsed := by
  cases hresult : (v.gather headers o abort).result with
  | error err => exact Or.inl ⟨err, gather_eq_error_iff.1 hresult⟩
  | ok e => exact Or.inr ⟨e, _, gather_eq_ok_iff_gathers.1 ⟨hresult, rfl⟩⟩

end Verifier

end SignedHttp
