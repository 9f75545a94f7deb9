import SignedHttp.Crypto.Suite
import SignedHttp.Signature.Canonical
import SignedHttp.Signing.Config
import SignedHttp.Text.Milliseconds

/-!
# Signing

A signer signs messages under a valid configuration. Each call may override the
nonce, the time stamp, the digest algorithm and the components.

Signing has two parts. Drawing the parameters depends on the world: the nonce and
the time stamp may come from feeds, from the random source and from the clock
(`Signer.drawParams`). All the rest is a function of configuration, message, options
and parameters (`Signer.signWith`), and gives the headers that carry the signature.
The message itself stays as it is; the headers are put into it by
`SigningResult.apply`.

A body without a content type gets one, if the content type is to be covered.

## Main definitions

* `Signer`: A valid configuration with its private key.
* `SigningOptions`: What a call overrides.
* `SigningResult`: The headers of a signature, and what it was made of.
* `Signer.signWith`: The signature under given parameters.
* `Signer.sign`: The signature under parameters that are drawn.
-/

namespace SignedHttp

/-- What a call overrides. -/
structure SigningOptions where
  nonce : Option Bytes := none
  created : Option Int := none
  digestAlgorithm : Option DigestAlgorithm := none
  components : Option Components := none
  deriving DecidableEq

/-- Does the same message always get the same signature? -/
def SigningOptions.isDeterministic (o : SigningOptions) : Bool :=
  o.nonce.isSome && o.created.isSome

/-- A signature: its headers, and what it was made of. -/
structure SigningResult where
  signatureInput : Bytes
  signature : Bytes
  headers : Fields
  canonicalMessage : Bytes
  params : Params
  deriving DecidableEq

/-- The message with the headers of the signature. -/
def SigningResult.apply (r : SigningResult) (m : Message) : Message := m.withHeaders r.headers

/-- Does a text begin and end with a pair of brackets? -/
def isEnclosed (first last : UInt8) (s : Bytes) : Bool :=
  2 ≤ s.length && s.head? == some first && s.getLast? == some last

/-- The content type of a body that came without one. -/
def defaultContentType (body : Bytes) : Bytes :=
  let body := body.trim
  if isEnclosed Ascii.openBrace Ascii.closeBrace body
      || isEnclosed Ascii.openBracket Ascii.closeBracket body then
    "application/json"
  else "application/octet-stream"

/-- A signer: a valid configuration and its private key. -/
structure Signer where
  config : SigningConfig
  key : PrivateKey

namespace Signer

/-- A signer with a configuration that is valid. -/
def create (config : SigningConfig) : Except SigningError Signer :=
  config.validate.map fun key => ⟨config, key⟩

/-- The components of a call. -/
def components (s : Signer) (o : SigningOptions) : Components :=
  o.components.getD s.config.components

/-- The nonce of a call: the one given, the next one of the feed, or a random one. -/
def drawNonce (s : Signer) (o : SigningOptions) (w : World) : Bytes × World :=
  match o.nonce, s.config.nonces with
  | some nonce, _ => (nonce, w)
  | none, some feed => feed.draw w
  | none, none =>
    let (random, w) := w.randomBytes
    (uuid random.bytes, w)

/-- The time stamp of a call: the one given, the next one of the feed, or the present. -/
def drawCreated (s : Signer) (o : SigningOptions) (w : World) : Int × World :=
  match o.created, s.config.timestamps with
  | some created, _ => (created, w)
  | none, some feed => feed.draw w
  | none, none => (w.clock.unixTime, w)

/-- The parameters of a call, before anything is known to be right about them. -/
def drawParams (s : Signer) (o : SigningOptions) (w : World) : Params × World :=
  let (nonce, w) := s.drawNonce o w
  let (created, w) := s.drawCreated o w
  ({ created, keyId := s.config.keyId, nonce }, w)

/-- The parameters, if nonce and time stamp are admissible. -/
def checkParams (p : Params) : Except SigningError Params :=
  if !isValidNonce p.nonce then .error (.invalidNonce p.nonce)
  else if !isValidTimestamp p.created then .error (.invalidTimestamp p.created)
  else .ok p

/-- The headers that the message gets besides those of the signature: a content type. -/
def addedContentType (m : Message) (c : Components) : Fields :=
  if m.hasBody && m.contentType.isNone && c.coversHeader "content-type" then
    .ofList [("content-type", defaultContentType m.content)]
  else {}

/-- The digest of the body, if it is to be covered. -/
def digest? (s : Signer) (o : SigningOptions) (m : Message) : Option ContentDigest :=
  if (s.components o).contentDigest then
    some (.ofBody (o.digestAlgorithm.getD s.config.digestAlgorithm) m.body)
  else none

/-- Every header that the configuration requires is there. -/
def checkRequired (s : Signer) (m : Message) : Except SigningError Unit :=
  match s.config.requiredHeaders.find? fun name => (m.header name).isNone with
  | some name => .error (.missingHeader name)
  | none => .ok ()

/-- The headers with those of a signature, last. -/
def finish (headers : Fields) (signatureInput signature : Bytes) : Fields :=
  (headers.set "signature-input" signatureInput).set "signature" signature

/-- The signature under given parameters. -/
def signWith (suite : Suite) (s : Signer) (p : Params) (m : Message) (o : SigningOptions) :
    Except SigningError SigningResult := do
  let p ← checkParams p
  let components := s.components o
  let added := addedContentType m components
  let m := m.withHeaders added
  -- A content type that was just added counts as one that is there.
  s.checkRequired m
  let digest := s.digest? o m
  let headers :=
    match digest with
    | some d => added.set "content-digest" d.headerValue
    | none => added
  let canonical ←
    CanonicalMessage.ofComponents m components p digest s.config.strictHeaders
  let hex := (suite.sign s.key canonical.text).toHex
  let signatureInput := s.config.label ++ Ascii.equals :: canonical.signatureParams
  let signature := Delimited.render s.config.label hex
  return {
    signatureInput, signature
    headers := finish headers signatureInput signature
    canonicalMessage := canonical.text
    params := p }

/-- How many milliseconds signing may take without a warning. -/
def timeBudget : Nat := 10

/-- What is logged about a message that was signed in some milliseconds. -/
def timeLog (took : Nat) (m : Message) : Log :=
  let ms : Bytes := Milliseconds.general took ++ "ms"
  if timeBudget < took then
    [.warn ("Signing took " ++ ms ++ ", more than " ++ Milliseconds.general timeBudget ++ "ms")]
  else [.debug ("Signed " ++ m.method.text ++ " " ++ m.url ++ " in " ++ ms)]

/-- The signature under parameters that are drawn, the world afterwards, and what is logged. -/
def sign (suite : Suite) (s : Signer) (m : Message) (o : SigningOptions) (w : World) :
    Except SigningError SigningResult × World × Log :=
  if (s.components o).isEmpty then (.error .noComponents, w, [])
  else
    let (p, later) := s.drawParams o w
    match s.signWith suite p m o with
    | .error e => (.error e, later, [])
    | .ok r => (.ok r, later, timeLog (later.clock.elapsed - w.clock.elapsed) m)

end Signer

end SignedHttp
