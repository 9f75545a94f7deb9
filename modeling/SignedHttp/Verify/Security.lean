import SignedHttp.Text.Decimal

/-!
# Security Assessments

How good a signature is, in words for its reader. The components that it covers give
points (`ComponentSecurity.assess`), and the checks that it passed give a level
(`SecurityAnalysis.ofChecks`). Neither has a part in the verdict.

Points are given for the method, the target and the digest of the body, for headers,
and for each header that bears on security.

## Main definitions

* `Checks`: What was checked of a signature, and with what outcome.
* `ComponentSecurity.assess`: The points of covered components.
* `SecurityAnalysis.ofChecks`: The concerns that checks give rise to.
-/

namespace SignedHttp

/-- How much can be said for something. -/
inductive SecurityLevel
  | low
  | medium
  | high
  deriving DecidableEq, Repr

namespace SecurityLevel

def all : List SecurityLevel := [low, medium, high]

def name : SecurityLevel → Bytes
  | low => "low"
  | medium => "medium"
  | high => "high"

def parse? (name : Bytes) : Option SecurityLevel := all.find? (·.name == name)

end SecurityLevel

/-- The outcome of the checks. -/
structure Checks where
  format : Bool := false
  cryptographic : Bool := false
  timestamp : Bool := false
  nonce : Bool := false
  contentDigest : Bool := false
  componentCoverage : Bool := false
  customRules : Bool := false
  deriving DecidableEq, Repr

namespace Checks

/-- The checks with their names, in order. -/
def items (c : Checks) : List (Bytes × Bool) :=
  [("format_valid", c.format), ("cryptographic_valid", c.cryptographic),
    ("timestamp_valid", c.timestamp), ("nonce_valid", c.nonce),
    ("content_digest_valid", c.contentDigest),
    ("component_coverage_valid", c.componentCoverage), ("custom_rules_valid", c.customRules)]

/-- How many checks were passed. -/
def passed (c : Checks) : Nat := c.items.countP (·.2)

/-- How many checks there are. -/
def count : Nat := 7

/-- Were all checks passed? -/
def all (c : Checks) : Bool := c.passed == count

end Checks

/-- What covered components are good for. -/
structure ComponentSecurity where
  level : SecurityLevel := .low
  /-- Points, at most 100. -/
  score : Nat := 0
  strengths : List Bytes := []
  weaknesses : List Bytes := []
  deriving DecidableEq

/-- Is a component derived from the message, and no header? -/
def isDerived (component : Bytes) : Bool := component.head? == some Ascii.atSign

namespace ComponentSecurity

/-- The headers that bear on security. -/
def securityHeaders : List Bytes := ["authorization", "content-type", "date", "host"]

/-- The covered components that are headers, apart from the digest. -/
def headersOf (covered : List Bytes) : List Bytes :=
  covered.filter fun c => !isDerived c && c != "content-digest"

/-- One thing that is looked at: its points, and what is good or bad about it. -/
structure Aspect where
  points : Nat := 0
  strength : Option Bytes := none
  weakness : Option Bytes := none

/-- A component that is to be covered. -/
def componentAspect (covered : List Bytes) (name : Bytes) (points : Nat)
    (strength weakness : Bytes) : Aspect :=
  if covered.contains name then { points, strength := some strength }
  else { weakness := some weakness }

/-- How many headers are covered. -/
def headerAspect (headers : List Bytes) : Aspect :=
  match headers.length with
  | 0 => { weakness := some "Limited header coverage" }
  | 1 => { points := 10 }
  | n => {
      points := 20
      strength := some ("Good header coverage (" ++ Decimal.ofNat n ++ " headers)") }

/-- Which covered headers bear on security. -/
def securityAspect (headers : List Bytes) : Aspect :=
  let relevant := headers.filter securityHeaders.contains
  if relevant.isEmpty then {}
  else {
    points := 5 * relevant.length
    strength := some ("Security headers covered: " ++ Bytes.join ", " relevant) }

/-- What is looked at, in order. -/
def aspects (covered : List Bytes) : List Aspect :=
  let headers := headersOf covered
  [componentAspect covered "@method" 20 "HTTP method is covered" "HTTP method not covered",
    componentAspect covered "@target-uri" 20 "Target URI is covered" "Target URI not covered",
    componentAspect covered "content-digest" 30 "Content integrity protected"
      "Content integrity not protected",
    headerAspect headers, securityAspect headers]

/-- The level of some points. -/
def levelOf (points : Nat) : SecurityLevel :=
  if 80 ≤ points then .high else if 50 ≤ points then .medium else .low

/-- What covered components are good for. -/
def assess (covered : List Bytes) : ComponentSecurity :=
  let aspects := aspects covered
  let points := aspects.foldl (fun sum a => sum + a.points) 0
  { level := levelOf points
    score := min points 100
    strengths := aspects.filterMap Aspect.strength
    weaknesses := aspects.filterMap Aspect.weakness }

end ComponentSecurity

/-- What gives rise to concern about a signature. -/
structure SecurityAnalysis where
  level : SecurityLevel := .medium
  concerns : List Bytes := []
  recommendations : List Bytes := []
  components : ComponentSecurity := {}
  deriving DecidableEq

namespace SecurityAnalysis

/-- A concern and a recommendation for each check that matters, with its outcome. -/
def matters (c : Checks) : List (Bool × Bytes × Bytes) :=
  [(c.cryptographic, "Cryptographic signature verification failed",
      "Verify signature generation and key management"),
    (c.timestamp, "Timestamp validation failed", "Check system clocks and timestamp policies"),
    (c.nonce, "Nonce validation failed", "Ensure proper nonce generation and format"),
    (c.contentDigest, "Content digest validation failed",
      "Verify content integrity and digest calculation"),
    (c.componentCoverage, "Component coverage requirements not met",
      "Review signature component coverage policy")]

/-- The level that checks give: the high one if all are passed, the low one below seven tenths. -/
def levelOf (c : Checks) : SecurityLevel :=
  if c.all then .high else if Checks.count * 7 ≤ c.passed * 10 then .medium else .low

/-- The concerns that checks give rise to. -/
def ofChecks (c : Checks) : SecurityAnalysis :=
  let failed := (matters c).filter (!·.1)
  { level := levelOf c, concerns := failed.map (·.2.1), recommendations := failed.map (·.2.2) }

end SecurityAnalysis

end SignedHttp
