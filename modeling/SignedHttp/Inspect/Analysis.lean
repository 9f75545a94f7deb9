import SignedHttp.Inspect.Format

/-!
# Analysing a Signature

What can be said of a signature that was read, without a key and without a policy:
which of its components make sense and what they are good for, and which of its
parameters are admissible.

## Main definitions

* `ComponentAnalysis.ofCovered`: The covered components.
* `ParameterAnalysis.ofParams`: The parameters, at a moment.
* `SecurityReport.ofReceived`: Both.
-/

namespace SignedHttp

/-- What can be said of covered components. -/
structure ComponentAnalysis where
  valid : List Bytes
  /-- The components that make no sense, each with its fault. -/
  invalid : List (Bytes × ComponentFault)
  /-- The components that should be covered and are not. -/
  missing : List Bytes
  security : ComponentSecurity
  deriving DecidableEq

namespace ComponentAnalysis

/-- The components that every signature should cover. -/
def recommended : List Bytes := ["@method", "@target-uri"]

/-- What can be said of covered components. -/
def ofCovered (covered : List Bytes) : ComponentAnalysis :=
  { valid := covered.filter fun c => (componentFault? c).isNone
    invalid := covered.filterMap fun c => (componentFault? c).map fun fault => (c, fault)
    missing := recommended.filter (!covered.contains ·)
    security := .assess covered }

end ComponentAnalysis

/-- What can be said of parameters: what is wrong with each, and what is worth knowing. -/
structure ParameterAnalysis where
  created : Option Bytes := none
  keyId : Option Bytes := none
  algorithm : Option Bytes := none
  nonce : Option Bytes := none
  insights : List Bytes := []
  deriving DecidableEq

namespace ParameterAnalysis

/-- The parameters by name, each with what is wrong with it. -/
def items (a : ParameterAnalysis) : List (Bytes × Option Bytes) :=
  [("created", a.created), ("keyid", a.keyId), ("alg", a.algorithm), ("nonce", a.nonce)]

/-- Is nothing wrong with any parameter? -/
def allValid (a : ParameterAnalysis) : Bool := a.items.all (·.2.isNone)

/-- What is worth knowing about an age in seconds. -/
def insightsOf (age : Int) : List Bytes :=
  let old : List Bytes := ["Timestamp is " ++ Decimal.ofInt (age / 60) ++ " minutes old"]
  let early : List Bytes := ["Timestamp is from the future (possible clock skew)"]
  (if 3600 < age then old else []) ++ (if age < 0 then early else [])

/-- What can be said of parameters, at a moment. -/
def ofParams (now : Int) (p : Params) : ParameterAnalysis :=
  let timely := isValidTimestamp p.created
  { created := if timely then none else some "Invalid timestamp format or value"
    keyId := if p.keyId.trim.isEmpty then some "Key ID must be a non-empty string" else none
    algorithm :=
      if p.algorithm = signatureAlgorithm then none
      else some ("Unsupported algorithm: " ++ p.algorithm)
    nonce :=
      if isValidNonce p.nonce then none else some "Invalid nonce format (should be UUID v4)"
    insights := if timely then insightsOf (now - p.created) else [] }

end ParameterAnalysis

/-- What can be said of a signature. -/
structure SecurityReport where
  components : ComponentAnalysis
  parameters : ParameterAnalysis
  deriving DecidableEq

namespace SecurityReport

/-- What can be said of a signature, at a moment. -/
def ofReceived (now : Int) (r : Received) : SecurityReport :=
  ⟨.ofCovered r.covered, .ofParams now r.params⟩

def score (r : SecurityReport) : Nat := r.components.security.score

/-- The level of the components; it is not high if a parameter is invalid. -/
def level (r : SecurityReport) : SecurityLevel :=
  if !r.parameters.allValid && r.components.security.level == .high then .medium
  else r.components.security.level

end SecurityReport

end SignedHttp
