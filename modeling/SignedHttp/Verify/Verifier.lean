import SignedHttp.Crypto.Suite
import SignedHttp.Key.Resolver
import SignedHttp.Policy.Registry
import SignedHttp.Verify.Verdict

/-!
# Verifying

A verifier decides whether a message carries a valid signature. It first gathers what
it needs: what the headers claim, the policy, and the public key. If one of these is
missing there is nothing to check, and the verdict is an error; nothing that was
recorded before is changed. Otherwise it makes all checks, even after one has failed,
and the signature is valid if all are passed.

The key is the one given with the call, or the one configured under its identifier, or
the one that a key source has.

A nonce is shown to the replay guard only if the signature is genuine.

Time passes in two places, while key sources are asked and while rules run. All other
steps take no time.

## Main definitions

* `VerifierConfig`, `VerifyOptions`: What a verifier knows, and what a call overrides.
* `Verifier`: A verifier whose default policy is defined.
* `Verifier.gather`: What there is to check, or why nothing can be checked.
* `Verifier.examine`: The checks.
* `Verifier.verify`: The verdict.
-/

namespace SignedHttp

/-- What a verifier knows. -/
structure VerifierConfig where
  defaultPolicy : Bytes := "standard"
  policies : PolicyRegistry
  publicKeys : Table PublicKey := {}
  keySources : List KeySource := []
  /-- How many milliseconds each key source may take. -/
  keyTimeout : Nat := 5000
  /-- The guard that nonces are shown to, if there is one. -/
  replayGuard : Option GuardId := none

/-- What a call overrides. -/
structure VerifyOptions where
  policy : Option Bytes := none
  publicKey : Option PublicKey := none
  /-- The identifier to look the key up under, in place of the signature's own. -/
  keyId : Option Bytes := none
  skipKeyRetrieval : Bool := false
  deriving DecidableEq

/-- A verifier: what it knows. -/
structure Verifier where
  config : VerifierConfig

/-- A signature, the policy it has to meet, and the key it was made with if it is genuine. -/
structure Evidence where
  received : Received
  policy : Policy
  key : PublicKey

/-- What there is to check, or why nothing can be checked. -/
structure Gathering where
  result : Except VerificationError Evidence
  /-- The milliseconds that asking key sources took. -/
  elapsed : Nat := 0
  /-- The steps that were finished. -/
  steps : List Bytes := []
  log : Log := []

namespace Verifier

/-- A verifier whose default policy is defined. -/
def create (config : VerifierConfig) : Except ConfigError Verifier :=
  if config.policies.contains config.defaultPolicy then .ok ⟨config⟩
  else .error (.undefinedDefault config.defaultPolicy)

def addKey (keyId : Bytes) (key : PublicKey) (v : Verifier) : Verifier :=
  ⟨{ v.config with publicKeys := v.config.publicKeys.insert keyId key }⟩

def removeKey (keyId : Bytes) (v : Verifier) : Verifier :=
  ⟨{ v.config with publicKeys := v.config.publicKeys.erase keyId }⟩

/-- The world in which the replay guard has seen nothing. -/
def clearReplay (v : Verifier) (w : World) : World :=
  match v.config.replayGuard with
  | none => w
  | some id => { w with guards := w.guards.set id (w.guards id).clear }

/-- The key, if no source has to be asked. -/
def knownKey? (v : Verifier) (o : VerifyOptions) (keyId : Bytes) : Option PublicKey :=
  o.publicKey <|> v.config.publicKeys.find? keyId

/-- The key that a source has. -/
def retrieveKey (v : Verifier) (o : VerifyOptions) (keyId : Bytes) (abort : Abort) :
    Except VerificationError PublicKey × Nat × Log :=
  if o.skipKeyRetrieval || v.config.keySources.isEmpty then (.error (.keyNotFound keyId), 0, [])
  else
    let lookup := resolve v.config.keyTimeout keyId v.config.keySources abort
    let result :=
      match lookup.result with
      | .ok key => .ok key
      | .error .notFound => .error (.keyNotInSources keyId)
      | .error .canceled => .error (.keyRetrieval keyId .canceled)
    (result, lookup.elapsed, lookup.log)

/-- The key that the signature is to be checked with. -/
def findKey (v : Verifier) (o : VerifyOptions) (keyId : Bytes) (abort : Abort) :
    Except VerificationError PublicKey × Nat × Log :=
  match v.knownKey? o keyId with
  | some key => (.ok key, 0, [])
  | none => v.retrieveKey o keyId abort

/-- Headers, policy and key, or the first of them that is missing. -/
def gather (v : Verifier) (headers : Fields) (o : VerifyOptions) (abort : Abort) : Gathering :=
  match Received.ofHeaders headers with
  | .error e => { result := .error e }
  | .ok received =>
    let name := o.policy.getD v.config.defaultPolicy
    match v.config.policies.get name with
    | (.error e, log) => { result := .error e, steps := ["extraction"], log }
    | (.ok policy, _) =>
      let (key, elapsed, log) := v.findKey o (o.keyId.getD received.params.keyId) abort
      match key with
      | .error e =>
        { result := .error e, elapsed, steps := ["extraction", "policy_retrieval"], log }
      | .ok key =>
        { result := .ok { received, policy, key }
          elapsed
          steps := ["extraction", "policy_retrieval", "key_retrieval"]
          log }

/-- Are the parameters complete, the algorithm allowed, and something covered? -/
def checkFormat (e : Evidence) : Bool :=
  let p := e.received.params
  isValidTimestamp p.created && !p.keyId.isEmpty && !p.algorithm.isEmpty && !p.nonce.isEmpty
    && e.policy.allows p.algorithm && !e.received.covered.isEmpty

/-- Is the signature genuine: that of the canonical message, under the key? -/
def checkCryptographic (suite : Suite) (m : Message) (e : Evidence) : Bool × Log :=
  if e.received.params.algorithm ≠ signatureAlgorithm then (false, [])
  else
    match Octets.ofHex? 64 e.received.signature with
    | none => (false, [])
    | some signature =>
      match e.received.canonical m with
      | .ok canonical => (suite.verify e.key canonical.text signature, [])
      | .error cause =>
        (false, [.debug ("Cryptographic verification failed: " ++ cause.report.text)])

/-- Is the signature neither too old nor from the future? -/
def checkTimestamp (now : Int) (e : Evidence) : Bool :=
  let created := e.received.params.created
  let age := now - created
  !e.policy.verifyTimestamp
    || (isValidTimestamp created && -clockSkew ≤ age && e.policy.maxTimestampAge.all (age ≤ ·))

/-- Is the nonce well-formed, and new to the guard if it is to be shown to one? -/
def checkNonce (guard : Option GuardId) (e : Evidence) (w : World) : Bool × World × Log :=
  let p := e.received.params
  if !e.policy.verifyNonce then (true, w, [])
  else if !isValidNonce p.nonce then (false, w, [])
  else
    match guard with
    | none => (true, w, [])
    | some id => w.checkNonce id p.nonce p.created

/-- Is the digest that of the body, and there if it has to be? -/
def checkContentDigest (m : Message) (e : Evidence) : Bool :=
  if !e.policy.verifyContentDigest then true
  else
    match e.received.digest with
    | some digest => digest.matchesBody m.body
    | none => !e.policy.requires "content-digest" && !e.received.covers "content-digest"

/-- The required components that are not covered, and the covered ones that are not required. -/
def coverage (e : Evidence) : Compliance :=
  { policy := e.policy.name
    missing := e.policy.requiredComponents.filter (!e.received.covers ·)
    extra := e.received.covered.filter (!e.policy.requires ·) }

/-- Are all required components covered, and no others if the policy says so? -/
def checkCoverage (e : Evidence) : Bool :=
  let c := coverage e
  c.missing.isEmpty && (!e.policy.rejectExtraComponents || c.extra.isEmpty)

/-- What each of some rules says, one after the other. -/
def runRules (c : RuleContext) : List Rule → World → List RuleOutcome × World × Log
  | [], w => ([], w, [])
  | rule :: rules, w =>
    let (r, w, log) := rule.run c w
    let (outcomes, w, more) := runRules c rules w
    (⟨rule.name, r.passed, r.message, r.details⟩ :: outcomes, w, log ++ more)

/-- What the signature says of itself, at a moment. -/
def signatureAnalysis (now : Int) (r : Received) : SignatureAnalysis :=
  let p := r.params
  { algorithm := p.algorithm
    keyId := p.keyId
    created := p.created
    age := if isValidTimestamp p.created then now - p.created else 0
    nonce := p.nonce
    covered := r.covered }

/-- What the message carries. -/
def contentAnalysis (m : Message) (r : Received) : ContentAnalysis :=
  { hasDigest := r.digest.isSome
    digestAlgorithm := r.digest.map (·.algorithm.name)
    size := m.contentSize
    contentType := m.contentType }

/-- All checks, the world after them, and what is logged. No time passes before the rules run:
the date that the time stamp is compared with and the moment at which the guard is shown the
nonce are both those of the world in which the checks begin. -/
def examine (suite : Suite) (v : Verifier) (m : Message) (e : Evidence) (w : World) :
    Verdict × World × Log :=
  let (cryptographic, log1) := checkCryptographic suite m e
  let timestamp := checkTimestamp w.clock.unixTime e
  -- The nonce of a forged signature is looked at, but not shown to the guard.
  let (nonce, w, log2) := checkNonce (if cryptographic then v.config.replayGuard else none) e w
  let context := ⟨m, e.received, e.policy.name, e.key, cryptographic⟩
  let (rules, w, log3) := runRules context e.policy.customRules w
  let checks : Checks :=
    { format := checkFormat e
      cryptographic
      timestamp
      nonce
      contentDigest := checkContentDigest m e
      componentCoverage := checkCoverage e
      customRules := rules.all (·.passed) }
  ({ status := if checks.all then .valid else .invalid
     signatureValid := checks.format && checks.cryptographic
     checks
     signature := signatureAnalysis w.clock.unixTime e.received
     content := contentAnalysis m e.received
     compliance := { coverage e with rules }
     security :=
       { SecurityAnalysis.ofChecks checks with components := .assess e.received.covered } },
    w, log1 ++ log2 ++ log3)

/-- How many milliseconds a verification may take without a warning. -/
def timeBudget : Nat := 50

/-- The steps of a verification that makes the checks. -/
def checkSteps : List Bytes :=
  ["format", "cryptographic", "timestamp", "nonce", "content_digest", "component_coverage",
    "custom_rules"]

/-- How long the steps took, where time passed in retrieving the key and in the rules only. -/
def stepTimes (retrieval rules : Nat) (steps : List Bytes) : List (Bytes × Milliseconds) :=
  steps.map fun step =>
    (step, .ofNat (if step = "key_retrieval" then retrieval
      else if step = "custom_rules" then rules else 0))

/-- What is logged about a verdict that took some milliseconds. -/
def verdictLog (took : Nat) (r : Received) (status : Status) : Log :=
  (if timeBudget < took then
    [.warn ("Verification took " ++ Milliseconds.general took ++ "ms, more than "
      ++ Milliseconds.general timeBudget ++ "ms")]
  else []) ++
  [.debug ("Verified signature " ++ r.label ++ " keyid: " ++ r.params.keyId ++ " status: "
    ++ status.name)]

/-- The verdict, the world afterwards, and what is logged. -/
def verify (suite : Suite) (v : Verifier) (m : Message) (headers : Fields) (o : VerifyOptions)
    (abort : Abort) (w : World) : Verdict × World × Log :=
  let g := v.gather headers o abort
  let later := w.advance g.elapsed
  match g.result with
  | .error e =>
    let r := e.report
    (.ofReport r { total := .ofNat g.elapsed, steps := stepTimes g.elapsed 0 g.steps }, later,
      g.log ++ [.debug ("Verification error: " ++ r.code.name ++ " " ++ r.message)])
  | .ok e =>
    let (verdict, last, log) := v.examine suite m e later
    let rules := last.clock.elapsed - later.clock.elapsed
    let took := g.elapsed + rules
    let steps := stepTimes g.elapsed rules (g.steps ++ checkSteps)
    ({ verdict with performance := { total := .ofNat took, steps } }, last,
      g.log ++ log ++ verdictLog took e.received verdict.status)

/-- The verdict on a response, whose request gives the method and the target. -/
def verifyResponse (suite : Suite) (v : Verifier) (r : Response) (o : VerifyOptions) (w : World) :
    Except ArgumentError (Verdict × World × Log) :=
  r.asMessage.map fun m => v.verify suite m r.headers o .never w

/-- A message to verify. -/
structure Request where
  message : Message
  headers : Fields
  options : VerifyOptions := {}

/-- The verdicts on messages, verified one after the other. -/
def verifyBatch (suite : Suite) (v : Verifier) : List Request → World → List Verdict × World × Log
  | [], w => ([], w, [])
  | r :: rest, w =>
    let (verdict, w, log) := v.verify suite r.message r.headers r.options .never w
    let (verdicts, w, more) := verifyBatch suite v rest w
    (verdict :: verdicts, w, log ++ more)

end Verifier

end SignedHttp
