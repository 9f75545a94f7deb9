import SignedHttp.Message.Basic
import SignedHttp.Signature.Received
import SignedHttp.World

/-!
# Verification Rules

A rule is a named question about a signature, asked beside the checks that every
signature undergoes. The library has eight of them. An application may add its own,
which may take time and may fail with a failure of their own.

Two of the library's rules show the nonce to a replay guard. They do so only if the
signature verified: the nonce of a forged message must not use up that of a genuine
one.

## Main definitions

* `RuleContext`: What a rule gets to look at.
* `RuleResult`: What a rule says.
* `LibraryRule`: The rules of the library, and `LibraryRule.judge`, what they say.
* `Rule`: A named rule, and `Rule.run`, what it says.
-/

namespace SignedHttp

/-- What a rule gets to look at. -/
structure RuleContext where
  message : Message
  received : Received
  policyName : Bytes
  publicKey : PublicKey
  /-- Did the signature verify under the key? -/
  verified : Bool

/-- What a rule says. -/
structure RuleResult where
  passed : Bool
  message : Bytes
  details : Details := {}
  deriving DecidableEq

namespace RuleResult

def pass (message : Bytes) : RuleResult := { passed := true, message }

def fail (message : Bytes) (details : List (Bytes × Bytes)) : RuleResult :=
  { passed := false, message, details := .ofList details }

end RuleResult

/-- The rules of the library. -/
inductive LibraryRule
  | timestampFreshness (maxAge : Int)
  | requiredHeaders (headers : List Bytes)
  | keyIdValidation (keyIds : List Bytes)
  | contentTypeConsistency
  | nonceUniqueness (guard : GuardId)
  | replayProtection (guard : GuardId)
  | algorithmStrength
  | basicReplayProtection
  deriving DecidableEq

/-- How many seconds a time stamp may lie in the future. -/
def clockSkew : Int := 60

namespace LibraryRule

def name : LibraryRule → Bytes
  | timestampFreshness _ => "timestamp-freshness"
  | requiredHeaders _ => "required-headers"
  | keyIdValidation _ => "key-id-validation"
  | contentTypeConsistency => "content-type-consistency"
  | nonceUniqueness _ => "nonce-uniqueness"
  | replayProtection _ => "replay-protection"
  | algorithmStrength => "algorithm-strength"
  | basicReplayProtection => "basic-replay-protection"

/-- The names of the rules. -/
def names : List Bytes :=
  [timestampFreshness 0, requiredHeaders [], keyIdValidation [], contentTypeConsistency,
    nonceUniqueness 0, replayProtection 0, algorithmStrength, basicReplayProtection].map name

def description : LibraryRule → Bytes
  | timestampFreshness maxAge =>
    "Ensure timestamp is within " ++ Decimal.ofInt maxAge ++ " seconds"
  | requiredHeaders headers =>
    "Ensure required headers are present: " ++ Bytes.join ", " (headers.map Bytes.lower)
  | keyIdValidation _ => "Validate key ID against allowed list"
  | contentTypeConsistency => "Ensure content-type is covered when body is present"
  | nonceUniqueness _ => "Ensure nonce has not been used before"
  | replayProtection _ => "Ensure nonce is fresh and not reused"
  | algorithmStrength => "Ensure strong cryptographic algorithm"
  | basicReplayProtection => "Basic nonce format validation"

/-- What is said of a time stamp at a moment. -/
def judgeAge (maxAge now created : Int) : RuleResult :=
  let age := now - created
  let seconds : Bytes := Decimal.ofInt age ++ "s"
  let facts : List (Bytes × Bytes) :=
    [("age", Decimal.ofInt age), ("created", Decimal.ofInt created), ("now", Decimal.ofInt now)]
  if !isValidTimestamp created then
    .fail "Invalid timestamp" [("created", Decimal.ofInt created)]
  else if maxAge < age then
    .fail ("Timestamp too old: " ++ seconds ++ " > " ++ Decimal.ofInt maxAge ++ "s")
      (("max_age", Decimal.ofInt maxAge) :: facts)
  else if age < -clockSkew then .fail ("Timestamp from future: " ++ seconds) facts
  else .pass ("Timestamp is fresh: " ++ seconds ++ " old")

/-- What is said of covered headers. -/
def judgeHeaders (headers : List Bytes) (r : Received) : RuleResult :=
  let missing := (headers.map Bytes.lower).filter (!r.covers ·)
  if missing.isEmpty then .pass "All required headers present"
  else .fail ("Missing required headers: " ++ Bytes.join ", " missing)
    [("missing", Bytes.join "," missing)]

/-- What is said of a nonce that is shown to a replay guard, if the signature verified. -/
def judgeNonce (guard : GuardId) (accepted : Bytes) (c : RuleContext) (w : World) :
    RuleResult × World × Log :=
  let nonce := c.received.params.nonce
  if c.verified then
    let (isNew, w, log) := w.checkNonce guard nonce c.received.params.created
    if isNew then (.pass accepted, w, log)
    else (.fail ("Nonce already used: " ++ nonce) [("nonce", nonce)], w, log)
  else (.fail "Nonce not recorded for unverified signature" [("nonce", nonce)], w, [])

/-- What the rule says, the world afterwards, and what is logged. -/
def judge (rule : LibraryRule) (c : RuleContext) (w : World) : RuleResult × World × Log :=
  let p := c.received.params
  match rule with
  | timestampFreshness maxAge => (judgeAge maxAge w.clock.unixTime p.created, w, [])
  | requiredHeaders headers => (judgeHeaders headers c.received, w, [])
  | keyIdValidation keyIds =>
    (if keyIds.contains p.keyId then .pass "Key ID validated"
      else .fail ("Invalid key ID: " ++ p.keyId) [("key_id", p.keyId)], w, [])
  | contentTypeConsistency =>
    (if c.message.body.isSome && !c.received.covers "content-type" then
        .fail "Content-type should be covered when body is present" []
      else .pass "Content-type coverage is appropriate", w, [])
  | nonceUniqueness guard => judgeNonce guard "Nonce is unique" c w
  | replayProtection guard =>
    if isValidNonce p.nonce then judgeNonce guard "Nonce validation passed" c w
    else (.fail "Invalid nonce format" [("nonce", p.nonce)], w, [])
  | algorithmStrength =>
    (if p.algorithm = signatureAlgorithm then .pass "Algorithm strength validated"
      else .fail ("Weak algorithm detected: " ++ p.algorithm) [("algorithm", p.algorithm)], w, [])
  | basicReplayProtection =>
    (if isValidNonce p.nonce then .pass "Nonce format validated"
      else .fail "Invalid nonce format" [("nonce", p.nonce)], w, [])

end LibraryRule

/-- What a rule does when it is run. -/
inductive Predicate
  | library (rule : LibraryRule)
  /-- A rule of an application, which may fail with a text. -/
  | custom (run : RuleContext → World → Except Bytes RuleResult × World)

/-- A named rule. One without a predicate cannot be part of a valid policy. -/
structure Rule where
  name : Bytes
  description : Bytes := []
  predicate : Option Predicate

namespace Rule

/-- The rule of the library under its own name. -/
def ofLibrary (rule : LibraryRule) : Rule := ⟨rule.name, rule.description, some (.library rule)⟩

/-- A failure of the rule itself counts as a result that is not passed. -/
def raised (r : Rule) (text : Bytes) : RuleResult × Log :=
  (.fail ("Rule execution failed: " ++ text) [],
    [.warn ("Verification rule " ++ r.name ++ " failed with exception: " ++ text)])

/-- What the rule says, the world afterwards, and what is logged. -/
def run (r : Rule) (c : RuleContext) (w : World) : RuleResult × World × Log :=
  match r.predicate with
  | some (.library rule) => rule.judge c w
  | some (.custom f) =>
    match f c w with
    | (.ok result, w) => (result, w, [])
    | (.error text, w) =>
      let (result, log) := r.raised text
      (result, w, log)
  | none =>
    let (result, log) := r.raised "bad_function_call"
    (result, w, log)

end Rule

end SignedHttp
