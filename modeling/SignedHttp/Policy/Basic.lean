import SignedHttp.Policy.Rule

/-!
# Verification Policies

A policy says what is asked of a signature beyond being genuine: which components it
has to cover, which algorithms it may use, how old it may be, whether nonce and body
digest are looked at, and which further rules it has to pass.

Two policies are merged into one that overrides the first by the second. Its lists are
those of the base with what the other one adds at the end; a rule of a name that the
base has is not added. Flags are those of the other one, and so are its name,
description and greatest age, where it has them.

## Main definitions

* `Policy`: A policy.
* `Policy.flaw?`: What makes a policy unusable.
* `Policy.merge`: A policy with what another one adds or overrides.
-/

namespace SignedHttp

/-- What is asked of a signature. -/
structure Policy where
  name : Bytes := []
  description : Bytes := []
  verifyTimestamp : Bool := true
  /-- The greatest age in seconds, if there is one. -/
  maxTimestampAge : Option Int := none
  verifyNonce : Bool := true
  verifyContentDigest : Bool := true
  requiredComponents : List Bytes := []
  allowedAlgorithms : List Bytes := [signatureAlgorithm]
  /-- Is it a fault to cover more than what is required? -/
  rejectExtraComponents : Bool := false
  customRules : List Rule := []

/-- A rule that no policy may contain. -/
def Rule.flaw? (r : Rule) : Option PolicyFlaw :=
  if r.name.isEmpty then some .unnamedRule
  else if r.predicate.isNone then some (.ruleWithoutPredicate r.name)
  else none

namespace Policy

def requires (component : Bytes) (p : Policy) : Bool := p.requiredComponents.contains component

def allows (algorithm : Bytes) (p : Policy) : Bool := p.allowedAlgorithms.contains algorithm

/-- The first thing that makes the policy unusable. -/
def flaw? (p : Policy) : Option PolicyFlaw :=
  if p.name.isEmpty then some .noName
  else if p.allowedAlgorithms.isEmpty then some .noAlgorithm
  else if p.maxTimestampAge.any (· ≤ 0) then some .nonPositiveAge
  else if p.requiredComponents.any (·.isEmpty) then some .emptyComponent
  else p.customRules.findSome? Rule.flaw?

/-- The policy is usable. -/
def validate (p : Policy) : Except VerificationError Unit :=
  match p.flaw? with
  | some flaw => .error (.invalidPolicy p.name flaw)
  | none => .ok ()

/-- A list with those entries of another one, one after the other, whose key it does not have. -/
def appendMissing {α κ : Type} [BEq κ] (key : α → κ) (base added : List α) : List α :=
  added.foldl (fun all a => if all.any (key · == key a) then all else all ++ [a]) base

/-- The base with what another policy adds or overrides. -/
def merge (base override : Policy) : Policy :=
  { override with
    name := override.name.orElse base.name
    description := override.description.orElse base.description
    maxTimestampAge := override.maxTimestampAge <|> base.maxTimestampAge
    requiredComponents := appendMissing id base.requiredComponents override.requiredComponents
    allowedAlgorithms := appendMissing id base.allowedAlgorithms override.allowedAlgorithms
    customRules := appendMissing Rule.name base.customRules override.customRules }

end Policy

end SignedHttp
