import SignedHttp.Json.Writer
import SignedHttp.Policy.Basic

/-!
# Policy Registries

The policies that a verifier knows, by name. They are read from a JSON text, which
maps names to policies, or added one by one; either way a policy that is not usable
is refused, so every policy of a registry is usable and stands under its own name.

Reading reports the first fault, policies taken in the order of their names: a text
that is no JSON, a field of the wrong type, an unknown rule or one with wrong
arguments, and at last a policy that is not usable. Rules that track nonces get the
guard that is given.

Which texts are JSON, and of which values, is up to a reader that is an argument of all
that reads. It gives a value or says that there is none; `Json.parse?` is one.

## Main definitions

* `LibraryRule.ofJson`: The rule that a descriptor stands for.
* `Policy.ofJson`: The policy that an object describes.
* `PolicyRegistry`: Policies by name.
* `PolicyRegistry.loadJson`, `PolicyRegistry.loadFile`: Reading.
* `PolicyRegistry.add`, `remove`, `find?`, `get`: The operations.
-/

namespace SignedHttp

/-- The value, or an error if there is none. -/
def orFail {ε α : Type} (e : ε) : Option α → Except ε α
  | some a => .ok a
  | none => .error e

/-- The rule of a name with the arguments of its descriptor. -/
def LibraryRule.ofName (guard : GuardId) (name : Bytes) (descriptor : Json) :
    Except ConfigError LibraryRule :=
  let argument {α : Type} (key : Bytes) (read : Json → Option α) : Except ConfigError α :=
    orFail (.invalidRuleArguments name) ((descriptor.member? key).bind read)
  if name = "timestamp-freshness" then
    (argument "max_age" Json.asInt64?).map .timestampFreshness
  else if name = "required-headers" then
    (argument "headers" Json.asTexts?).map .requiredHeaders
  else if name = "key-id-validation" then
    (argument "key_ids" Json.asTexts?).map .keyIdValidation
  else if name = "content-type-consistency" then .ok .contentTypeConsistency
  else if name = "nonce-uniqueness" then .ok (.nonceUniqueness guard)
  else if name = "replay-protection" then .ok (.replayProtection guard)
  else if name = "algorithm-strength" then .ok .algorithmStrength
  else if name = "basic-replay-protection" then .ok .basicReplayProtection
  else .error (.unknownRule name)

/-- The rule that a descriptor stands for; nonces are tracked by the guard. -/
def LibraryRule.ofJson (guard : GuardId) (descriptor : Json) : Except ConfigError LibraryRule :=
  match (descriptor.member? "rule").bind Json.asText? with
  | none => .error (.malformedRule descriptor.write)
  | some name => LibraryRule.ofName guard name descriptor

namespace Policy

/-- A field of an object, if it is there; it has to be of the right type. -/
def field? {α : Type} (read : Json → Option α) (key : Bytes) (j : Json) :
    Option (Option α) :=
  match j.member? key with
  | none => some none
  | some value => (read value).map some

/-- The greatest age that an object gives, where `null` stands for none. -/
def ageField? (j : Json) : Option (Option Int) :=
  match j.member? "max_timestamp_age" with
  | some .null => some none
  | _ => field? Json.asInt64? "max_timestamp_age" j

/-- The fields of an object, except the rules. -/
def fields? (name : Bytes) (j : Json) : Option Policy := do
  let description ← field? Json.asText? "description" j
  let verifyTimestamp ← field? Json.asFlag? "verify_timestamp" j
  let verifyNonce ← field? Json.asFlag? "verify_nonce" j
  let verifyContentDigest ← field? Json.asFlag? "verify_content_digest" j
  let rejectExtraComponents ← field? Json.asFlag? "reject_extra_components" j
  let maxTimestampAge ← ageField? j
  let requiredComponents ← field? Json.asTexts? "required_components" j
  let allowedAlgorithms ← field? Json.asTexts? "allowed_algorithms" j
  return {
    name
    description := description.getD []
    verifyTimestamp := verifyTimestamp.getD true
    maxTimestampAge
    verifyNonce := verifyNonce.getD true
    verifyContentDigest := verifyContentDigest.getD true
    requiredComponents := requiredComponents.getD []
    allowedAlgorithms := allowedAlgorithms.getD [signatureAlgorithm]
    rejectExtraComponents := rejectExtraComponents.getD false }

/-- The rules that an object lists. -/
def rulesOfJson (guard : GuardId) (name : Bytes) (j : Json) : Except ConfigError (List Rule) :=
  match j.member? "custom_rules" with
  | none => .ok []
  | some (.array items) => items.mapM fun d => (LibraryRule.ofJson guard d).map Rule.ofLibrary
  | some _ => .error (.rulesNotArray name)

/-- The policy that an object describes. -/
def ofJson (guard : GuardId) (name : Bytes) (j : Json) : Except ConfigError Policy :=
  match j with
  | .object _ =>
    match fields? name j with
    | none => .error (.invalidField name)
    | some p =>
      match rulesOfJson guard name j with
      | .error e => .error e
      | .ok customRules =>
        let p := { p with customRules }
        match p.flaw? with
        | some flaw => .error (.invalidPolicy name flaw)
        | none => .ok p
  | _ => .error (.policyNotObject name)

end Policy

/-- Policies by name. -/
structure PolicyRegistry where
  policies : Table Policy := {}

namespace PolicyRegistry

/-- The registry that a JSON text describes, where the reader makes out the value. -/
def ofText (read : Bytes → Option Json) (guard : GuardId) (text : Bytes) :
    Except ConfigError PolicyRegistry :=
  match read text with
  | none => .error .invalidJson
  | some (.object members) =>
    (members.mapM fun m => (Policy.ofJson guard m.1 m.2).map fun p => (m.1, p)).map
      fun policies => ⟨.ofList policies⟩
  | some _ => .error .notPolicies

def names (r : PolicyRegistry) : List Bytes := r.policies.keys

def size (r : PolicyRegistry) : Nat := r.policies.size

/-- The registry that a JSON text describes, and what is logged. -/
def loadJson (read : Bytes → Option Json) (guard : GuardId) (text : Bytes) :
    Except ConfigError PolicyRegistry × Log :=
  match ofText read guard text with
  | .error e => (.error e, [])
  | .ok r =>
    (.ok r, [.debug ("Loaded " ++ Decimal.ofNat r.size ++ " verification policies")])

/-- The registry that a file describes, whose text is there or not. -/
def loadFile (read : Bytes → Option Json) (guard : GuardId) (path : Bytes)
    (text : Option Bytes) : Except ConfigError PolicyRegistry × Log :=
  match text with
  | none => (.error (.missingFile path), [])
  | some text =>
    let (result, log) := loadJson read guard text
    (result.mapError (.inFile path), log)

/-- The registry with a policy, which takes the place of one of the same name. -/
def add (p : Policy) (r : PolicyRegistry) : Except VerificationError PolicyRegistry :=
  p.validate.map fun _ => ⟨r.policies.insert p.name p⟩

def remove (name : Bytes) (r : PolicyRegistry) : PolicyRegistry := ⟨r.policies.erase name⟩

def find? (name : Bytes) (r : PolicyRegistry) : Option Policy := r.policies.find? name

def contains (name : Bytes) (r : PolicyRegistry) : Bool := r.policies.contains name

/-- What is logged about a name under which there is no policy. -/
def unknownLog (name : Bytes) : Log := [.warn ("Unknown verification policy: " ++ name)]

/-- The policy of a name, and what is logged. -/
def get (name : Bytes) (r : PolicyRegistry) : Except VerificationError Policy × Log :=
  match r.find? name with
  | some p => (.ok p, [])
  | none => (.error (.unknownPolicy name), unknownLog name)

end PolicyRegistry

end SignedHttp
