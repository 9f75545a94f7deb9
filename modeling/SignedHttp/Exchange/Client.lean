import SignedHttp.Exchange.Handled
import SignedHttp.Signing.Signer
import SignedHttp.Store.Cache

/-!
# Signing Clients

A client sends requests through a fixed chain: request interceptors, signing, the
transport, response interceptors. The transport and the interceptors are the
application's.

Which requests are signed depends on the mode and on the endpoint, the configuration
under the longest prefix of the path. In automatic mode all are, unless their endpoint
is disabled; in manual mode those whose endpoint is configured and enabled.

The headers of a signature are kept for equal requests, unless the options fix the
signature anyway. A signing failure stops the request if its endpoint requires a
signature. Otherwise the request goes out unsigned.

## Main definitions

* `SigningMode`, `Endpoint`, `ClientConfig`: What a client is configured with.
* `Client`: A client, with its cache and its counts.
* `Client.endpoint?`: The endpoint of a URL.
* `Client.prepare`: The request as it goes to the transport.
* `Client.send`: A request is sent.
-/

namespace SignedHttp

/-- Which requests are signed. -/
inductive SigningMode
  /-- All whose endpoint is not disabled. -/
  | automatic
  /-- Those whose endpoint is configured and enabled. -/
  | manual
  | disabled
  deriving DecidableEq, Repr

namespace SigningMode

def name : SigningMode → Bytes
  | automatic => "automatic"
  | manual => "manual"
  | disabled => "disabled"

def parse? (name : Bytes) : Option SigningMode :=
  [automatic, manual, disabled].find? (·.name == name)

end SigningMode

/-- How the requests to some URLs are signed. -/
structure Endpoint where
  enabled : Bool := true
  /-- Does a signing failure stop the request? -/
  required : Bool := false
  options : SigningOptions := {}
  deriving DecidableEq

/-- How often the client signed, and with what outcome. -/
structure SigningMetrics where
  signed : Nat := 0
  hits : Nat := 0
  misses : Nat := 0
  failures : Nat := 0
  /-- The milliseconds that signing took in all. -/
  totalTime : Nat := 0
  deriving DecidableEq, Repr

/-- The mean time of signing a request. -/
def SigningMetrics.averageTime (m : SigningMetrics) : Milliseconds := .mean m.totalTime m.signed

/-- What a client is configured with. -/
structure ClientConfig where
  mode : SigningMode := .automatic
  signing : Option SigningConfig := none
  /-- The endpoints by the prefix of the path. -/
  endpoints : Table Endpoint := {}
  cacheSignatures : Bool := true
  cacheSize : Nat := 1000
  /-- For how many nanoseconds cached headers count. -/
  cacheLifetime : Int64 := 300000000000
  requestInterceptors : List (Message → World → Handled Message) := []
  responseInterceptors : List (Response → World → Handled Response) := []

/-- A client. Without a signer it signs nothing. -/
structure Client where
  transport : Message → World → Handled Response
  config : ClientConfig
  signer : Option Signer
  cache : Option SignatureCache
  metrics : SigningMetrics := {}

/-- What came of a request: the response, the client afterwards, and what the transport got. -/
structure Delivery where
  handled : Handled Response
  client : Client
  sent : Option Message

namespace Client

/-- The signer of a configuration; none if signing is disabled. -/
def signerOf (config : ClientConfig) : Except SigningError (Option Signer) :=
  if config.mode = .disabled then .ok none
  else
    match config.signing with
    | none => .error .missingConfiguration
    | some signing => (Signer.create signing).map some

/-- A client, if there is a transport and the configuration can be signed with. -/
def create (transport : Option (Message → World → Handled Response)) (config : ClientConfig) :
    Except Failure Client :=
  match transport with
  | none => .error (.argument .missingTransport)
  | some transport =>
    match signerOf config with
    | .error e => .error (.signing e)
    | .ok signer =>
      let cache :=
        if config.cacheSignatures then some (.create config.cacheSize config.cacheLifetime)
        else none
      .ok { transport, config, signer, cache }

/-- The path that endpoints are looked up by. -/
def pathOf (url : Bytes) : Bytes :=
  match Url.parse? url with
  | some u => u.path.orElse "/"
  | none => []

/-- Of two entries the one with the longer key, the second one if they are of one length. -/
def longer (best : Option (Bytes × Endpoint)) (e : Bytes × Endpoint) :
    Option (Bytes × Endpoint) :=
  match best with
  | none => some e
  | some b => if b.1.length ≤ e.1.length then some e else some b

/-- The endpoint of a URL: the one under the longest prefix of its path. -/
def endpoint? (config : ClientConfig) (url : Bytes) : Option Endpoint :=
  let fitting := config.endpoints.entries.filter fun e => e.1.isPrefixOf (pathOf url)
  (fitting.foldl longer none).map (·.2)

/-- The endpoint by which a request to a URL is signed, if it is to be signed. -/
def signingEndpoint? (config : ClientConfig) (url : Bytes) : Option Endpoint :=
  match config.mode, endpoint? config url with
  | .disabled, _ => none
  | .manual, none => none
  | .automatic, none => some {}
  | _, some e => if e.enabled then some e else none

/-- The cache for a request, unless its signature is fixed anyway. -/
def cacheFor (c : Client) (e : Endpoint) : Option SignatureCache :=
  if e.options.isDeterministic then none else c.cache

/-- The client with another count. -/
def count (f : SigningMetrics → SigningMetrics) (c : Client) : Client :=
  { c with metrics := f c.metrics }

/-- A request was signed: it is counted, and its headers are cached. -/
def noteSigned (took now : Nat) (key : Bytes) (e : Endpoint) (r : SigningResult) (c : Client) :
    Client × Log :=
  let c := c.count fun m => { m with signed := m.signed + 1, totalTime := m.totalTime + took }
  match c.cacheFor e with
  | none => (c, [])
  | some cache =>
    let (cache, log) := cache.put now key r.headers none
    ({ c with cache := some cache }, log)

/-- What follows from a signing failure. -/
def failed (e : Endpoint) (m : Message) (cause : SigningError) (w : World) : Handled Message :=
  if e.required then ⟨.error (.signing cause), w, [], []⟩
  else
    let r := cause.report
    ⟨.ok m, w,
      [.warn ("Signing failed, sending request unsigned: " ++ r.code.name ++ " " ++ r.message)],
      []⟩

/-- A request is signed anew. -/
def signAnew (suite : Suite) (s : Signer) (e : Endpoint) (m : Message) (key : Bytes) (w : World)
    (c : Client) : Handled Message × Client :=
  let (result, later, log) := s.sign suite m e.options w
  match result with
  | .error cause =>
    let h := failed e m cause later
    ({ h with log := log ++ h.log }, c.count fun m => { m with failures := m.failures + 1 })
  | .ok r =>
    -- The headers are cached when they are made, so their time begins at the later moment.
    let took := later.clock.elapsed - w.clock.elapsed
    let (c, more) := c.noteSigned took later.clock.nanoseconds key e r
    (⟨.ok (r.apply m), later, log ++ more, []⟩, c)

/-- A request is signed, with headers from the cache if it has them. -/
def signRequest (suite : Suite) (s : Signer) (e : Endpoint) (m : Message) (w : World)
    (c : Client) : Handled Message × Client :=
  let key := fingerprint suite m
  match c.cacheFor e with
  | none => c.signAnew suite s e m key w
  | some cache =>
    let (found, cache, log) := cache.get w.clock.nanoseconds key
    let c := { c with cache := some cache }
    match found with
    | some headers =>
      (⟨.ok (m.withHeaders headers), w, log, []⟩,
        c.count fun m => { m with hits := m.hits + 1 })
    | none =>
      let c := c.count fun m => { m with misses := m.misses + 1 }
      let (h, c) := c.signAnew suite s e m key w
      ({ h with log := log ++ h.log }, c)

/-- The request after the interceptors, as it goes to the transport. -/
def signIntercepted (suite : Suite) (m : Message) (w : World) (c : Client) :
    Handled Message × Client :=
  match c.signer, signingEndpoint? c.config m.url with
  | some s, some e => c.signRequest suite s e m w
  | _, _ => (.pure m w, c)

/-- The request as it goes to the transport, and the client afterwards. -/
def prepare (suite : Suite) (m : Message) (w : World) (c : Client) : Handled Message × Client :=
  let h := Handled.chain "Request interceptor" c.config.requestInterceptors m w
  match h.result with
  | .error _ => (h, c)
  | .ok m =>
    let (signed, c) := c.signIntercepted suite m h.world
    (h.bind fun _ _ => signed, c)

/-- A request is sent. -/
def send (suite : Suite) (m : Message) (w : World) (c : Client) : Delivery :=
  -- A request that was stopped never reaches the transport, so nothing was sent.
  let (h, c) := c.prepare suite m w
  { handled := (h.bind c.transport).bind
      (Handled.chain "Response interceptor" c.config.responseInterceptors)
    client := c
    sent := h.result.toOption }

def resetMetrics (c : Client) : Client := { c with metrics := {} }

def clearCache (c : Client) : Client := { c with cache := c.cache.map (·.clear) }

end Client

end SignedHttp
