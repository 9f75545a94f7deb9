import SignedHttp.Exchange.Handled
import SignedHttp.Text.Pattern
import SignedHttp.Verify.Verifier

/-!
# Verifying on the Way

Guards that stand where messages come in. One looks at responses, and lets those pass
that are exempt by their URL or that carry no signature. The other looks at requests,
and verifies all of them.

The application is told of every verdict that is not valid. Whether such a message
is turned away is a matter of configuration.

## Main definitions

* `ResponseVerifier`: The guard for responses.
* `RequestVerifier`: The guard for requests.
-/

namespace SignedHttp

/-- The parts of a guard for responses. -/
structure ResponseVerifierConfig where
  options : VerifyOptions := {}
  /-- Patterns of the URLs whose responses are not verified. -/
  skipPatterns : List Bytes := []
  throwOnFailure : Bool := false
  deriving DecidableEq

/-- A guard for responses. -/
structure ResponseVerifier where
  verifier : Verifier
  options : VerifyOptions := {}
  skip : List Pattern := []
  throwOnFailure : Bool := false

/-- A response that was let pass, and the verdict if it was verified. -/
structure VerifiedResponse where
  response : Response
  verdict : Option Verdict := none
  deriving DecidableEq

namespace ResponseVerifier

/-- The pattern of a text. -/
def readPattern (text : Bytes) : Except ConfigError Pattern :=
  match Pattern.parse? text with
  | some p => .ok p
  | none => .error (.invalidSkipPattern text)

/-- A guard for responses, if its patterns are patterns. -/
def create (verifier : Verifier) (config : ResponseVerifierConfig) :
    Except ConfigError ResponseVerifier :=
  (config.skipPatterns.mapM readPattern).map fun skip =>
    ⟨verifier, config.options, skip, config.throwOnFailure⟩

/-- Is the response of a URL exempt? -/
def skips (url : Bytes) (g : ResponseVerifier) : Bool := g.skip.any (·.occursIn url)

/-- What follows from a verdict on a response. -/
def decide (g : ResponseVerifier) (r : Response) (v : Verdict) (w : World) :
    Handled VerifiedResponse :=
  if v.isValid then .pure ⟨r, some v⟩ w
  else
    let notices := [(⟨v, r.url⟩ : Notice)]
    if g.throwOnFailure then
      ⟨.error (.verification (.rejected .response r.url v.status.name)), w, [], notices⟩
    else
      ⟨.ok ⟨r, some v⟩, w,
        [.warn ("Response signature verification failed for " ++ r.url ++ " status: "
          ++ v.status.name)], notices⟩

/-- A response is looked at. -/
def process (suite : Suite) (g : ResponseVerifier) (r : Response) (w : World) :
    Handled VerifiedResponse :=
  if g.skips r.url then
    ⟨.ok ⟨r, none⟩, w, [.debug ("Skipping response verification for " ++ r.url)], []⟩
  else if !Received.isSigned r.headers then
    ⟨.ok ⟨r, none⟩, w, [.debug ("Response without signature headers: " ++ r.url)], []⟩
  else
    match g.verifier.verifyResponse suite r g.options w with
    | .error e => ⟨.error (.verification (.unverifiable .response e.message)), w, [], []⟩
    | .ok (v, w, log) =>
      let h := g.decide r v w
      { h with log := log ++ h.log }

/-- The guard as a step in the handling of responses. -/
def interceptor (suite : Suite) (g : ResponseVerifier) (r : Response) (w : World) :
    Handled Response :=
  (g.process suite r w).bind fun verified w => .pure verified.response w

end ResponseVerifier

/-- A guard for requests. -/
structure RequestVerifier where
  verifier : Verifier
  options : VerifyOptions := {}
  rejectInvalid : Bool := false

namespace RequestVerifier

/-- What follows from a verdict on a request. -/
def decide (g : RequestVerifier) (m : Message) (v : Verdict) (w : World) : Handled Verdict :=
  if v.isValid then .pure v w
  else
    let notices := [(⟨v, m.url⟩ : Notice)]
    if g.rejectInvalid then
      ⟨.error (.verification (.rejected .request m.url v.status.name)), w, [], notices⟩
    else ⟨.ok v, w, [], notices⟩

/-- A request is looked at. -/
def process (suite : Suite) (g : RequestVerifier) (m : Message) (w : World) : Handled Verdict :=
  let (v, w, log) := g.verifier.verify suite m m.headers g.options .never w
  let h := g.decide m v w
  { h with log := log ++ h.log }

end RequestVerifier

end SignedHttp
