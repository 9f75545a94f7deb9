import SignedHttp.Error.Cause
import SignedHttp.Text.Milliseconds
import SignedHttp.Verify.Security

/-!
# Verdicts

What is found out about a signature. If all checks could be made, the verdict says
for each of them whether it was passed, and the signature is valid if all were. If
they could not be made, because there was no signature, no policy or no key, the
verdict is an error: it names the fault, and no check counts as passed.

How long each step took is part of the verdict.

## Main definitions

* `Status`: Valid, invalid, or not decided.
* `Verdict`: What was found out.
* `Verdict.ofReport`: The verdict of a failure.
-/

namespace SignedHttp

/-- Whether a signature is valid. -/
inductive Status
  | valid
  | invalid
  | unknown
  | error
  deriving DecidableEq, Repr

namespace Status

def all : List Status := [valid, invalid, unknown, error]

def name : Status → Bytes
  | valid => "valid"
  | invalid => "invalid"
  | unknown => "unknown"
  | error => "error"

def parse? (name : Bytes) : Option Status := all.find? (·.name == name)

end Status

/-- The parameters of the signature. -/
structure SignatureAnalysis where
  algorithm : Bytes := []
  keyId : Bytes := []
  created : Int := 0
  /-- Seconds since the signature was made. -/
  age : Int := 0
  nonce : Bytes := []
  covered : List Bytes := []
  deriving DecidableEq

/-- The content of the message. -/
structure ContentAnalysis where
  hasDigest : Bool := false
  digestAlgorithm : Option Bytes := none
  size : Nat := 0
  contentType : Option Bytes := none
  deriving DecidableEq

/-- What a rule said. -/
structure RuleOutcome where
  rule : Bytes
  passed : Bool := false
  message : Bytes := []
  details : Details := {}
  deriving DecidableEq

/-- How the signature stands to the policy. -/
structure Compliance where
  policy : Bytes := []
  missing : List Bytes := []
  extra : List Bytes := []
  rules : List RuleOutcome := []
  deriving DecidableEq

/-- How long the verification took, and each of its steps. -/
structure Performance where
  total : Milliseconds := {}
  steps : List (Bytes × Milliseconds) := []
  deriving DecidableEq

/-- Why nothing could be checked: the name of an error code, a message and details. -/
structure Fault where
  code : Bytes
  message : Bytes
  details : Details := {}
  deriving DecidableEq

/-- What was found out about a signature. -/
structure Verdict where
  status : Status := .unknown
  /-- Is the signature genuine and well-formed, whatever the policy says? -/
  signatureValid : Bool := false
  checks : Checks := {}
  signature : SignatureAnalysis := {}
  content : ContentAnalysis := {}
  compliance : Compliance := {}
  security : SecurityAnalysis := {}
  performance : Performance := {}
  fault : Option Fault := none
  deriving DecidableEq

namespace Verdict

def isValid (v : Verdict) : Bool := v.status == .valid

/-- The verdict of a failure: nothing was checked. -/
def ofReport (r : Report) (performance : Performance) : Verdict :=
  { status := .error
    security := { level := .low, concerns := ["Verification error: " ++ r.message] }
    performance
    fault := some ⟨r.code.name, r.message, r.details⟩ }

end Verdict

end SignedHttp
