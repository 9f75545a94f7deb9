import SignedHttp.Proofs.Exchange.Accounting
import SignedHttp.Proofs.Text.Table

/-!
# Which Requests Are Signed

A client looks through its endpoints in the order of their keys and keeps the best that fits: the
one with the longer key, which the path of the URL begins with. The loop knows no more than the
entries that it has seen, and that is its invariant (`IsLongest`): what it has is the longest of
those that fit. Two prefixes of one path that are of one length are the same, and a key is there
once, so the order in which they come does not matter. What the loop ends with is determined by
the table (`endpoint?_eq_some_iff`).

With the endpoint and the mode it is decided whether a request is signed, before anything is
asked of the cache or of the signer (`mustSign_iff`). Whether it was tried can be read off the
counts of the client, as each request that reaches signing is counted once
(`History.tried_signRequest`). A request that is not to be signed leaves everything as the
interceptors left it (`prepare_of_unsigned`).

## Main definitions

* `Client.Applies`: An endpoint is that of a URL.
* `Client.MustSign`: A request to a URL is to be signed.
* `SigningMetrics.tried`: How many requests reached signing.

## Theorems

* `isLongest_foldl`: The loop keeps the longest key so far.
* `endpoint?_eq_some_iff`, `endpoint?_eq_none_iff`: The endpoint that is found applies.
* `mustSign_iff`: Signing has an endpoint to go by exactly if the request is to be signed.
* `History.prepare_of_mustSign`, `prepare_of_unsigned`: What becomes of a request.
* `prepare_signs_iff`: Which requests are signed.
-/

namespace SignedHttp

/-- How many requests reached signing, whatever came of it. -/
def SigningMetrics.tried (x : SigningMetrics) : Nat := x.hits + x.signed + x.failures

namespace Client

variable {suite : Suite} {config : ClientConfig} {url key : Bytes} {e : Endpoint}
  {m m' : Message} {w : World} {c : Client} {events : List ClientEvent}

/-- The endpoint is the one of the URL: of the keys that the path begins with, it has the longest
one. -/
structure Applies (config : ClientConfig) (url key : Bytes) (e : Endpoint) : Prop where
  entry : config.endpoints.find? key = some e
  fits : key <+: pathOf url
  longest : ∀ other f, config.endpoints.find? other = some f → other <+: pathOf url →
    other.length ≤ key.length

/-- A request to the URL is to be signed. -/
def MustSign (config : ClientConfig) (url : Bytes) : Prop :=
  (config.mode = .automatic ∧ ¬∃ key e, Applies config url key e ∧ e.enabled = false) ∨
    (config.mode = .manual ∧ ∃ key e, Applies config url key e ∧ e.enabled = true)

/-! ### The endpoint of a URL -/

/-- A text that is no URL has no path, not even the slash of an empty one. -/
theorem pathOf_of_unread (h : Url.parse? url = none) : pathOf url = [] := by
  rw [pathOf, h]

/-- A URL without a path is taken to be about the root. -/
theorem pathOf_of_read {u : Url} (h : Url.parse? url = some u) :
    pathOf url = if u.path = [] then ("/" : Bytes) else u.path := by
  simp only [pathOf, h, Bytes.orElse, List.isEmpty_iff]

/-- What the loop has after some entries: one with the longest key, or nothing after none. -/
def IsLongest (seen : List (Bytes × Endpoint)) : Option (Bytes × Endpoint) → Prop
  | none => seen = []
  | some best => best ∈ seen ∧ ∀ f ∈ seen, f.1.length ≤ best.1.length

/-- One entry more, and the loop has the longest one again. -/
theorem isLongest_longer {seen : List (Bytes × Endpoint)} {best : Option (Bytes × Endpoint)}
    (h : IsLongest seen best) (e : Bytes × Endpoint) :
    IsLongest (seen ++ [e]) (longer best e) := by
  cases best with
  | none =>
      rw [show seen = [] from h]
      refine ⟨List.mem_singleton_self e, fun f hf => ?_⟩
      rw [List.mem_singleton.1 hf]
  | some b =>
      rcases h with ⟨hmem, hlongest⟩
      rw [longer]
      -- Of two keys of one length the later one is taken, which is as long as the first.
      by_cases hle : b.1.length ≤ e.1.length
      · rw [if_pos hle]
        refine ⟨List.mem_append_right _ (List.mem_singleton_self e), fun f hf => ?_⟩
        rcases List.mem_append.1 hf with hf | hf
        · exact Nat.le_trans (hlongest f hf) hle
        · rw [List.mem_singleton.1 hf]
      · rw [if_neg hle]
        refine ⟨List.mem_append_left _ hmem, fun f hf => ?_⟩
        rcases List.mem_append.1 hf with hf | hf
        · exact hlongest f hf
        · rw [List.mem_singleton.1 hf]
          omega

/-- After all entries the loop has one with the longest key of all. -/
theorem isLongest_foldl (entries : List (Bytes × Endpoint)) :
    IsLongest entries (entries.foldl longer none) := by
  -- By induction from the end, since the loop takes one entry more at the end.
  induction entries using List.reverseRecOn with
  | nil => rfl
  | append_singleton entries e ih =>
      rw [List.foldl_append, List.foldl_cons, List.foldl_nil]
      exact isLongest_longer ih e

/-- The entries whose key the path of the URL begins with. -/
def fitting (config : ClientConfig) (url : Bytes) : List (Bytes × Endpoint) :=
  config.endpoints.entries.filter fun e => e.1.isPrefixOf (pathOf url)

/-- An entry fits if its key is a prefix of the path. A table has one entry for each key, so the
entry is what is found under the key. -/
theorem mem_fitting_iff (h : config.endpoints.Ordered) :
    (key, e) ∈ fitting config url
      ↔ config.endpoints.find? key = some e ∧ key <+: pathOf url := by
  rw [fitting, List.mem_filter, List.isPrefixOf_iff_prefix, h.find?_eq_some_iff]

/-- The loop finds an endpoint that applies, or there is none that fits. -/
theorem endpoint?_cases (h : config.endpoints.Ordered) (url : Bytes) :
    (endpoint? config url = none
      ∧ ∀ key e, config.endpoints.find? key = some e → ¬key <+: pathOf url) ∨
    ∃ key e, endpoint? config url = some e ∧ Applies config url key e := by
  have hfound : endpoint? config url = ((fitting config url).foldl longer none).map (·.2) := rfl
  -- The loop is about the entries that fit only, so the longest of these is what it has at the end.
  have hinv := isLongest_foldl (fitting config url)
  cases hbest : (fitting config url).foldl longer none with
  | none =>
      rw [hbest] at hfound hinv
      refine Or.inl ⟨hfound, fun key e hentry hfits => ?_⟩
      have hmem := (mem_fitting_iff h).2 ⟨hentry, hfits⟩
      rw [show fitting config url = [] from hinv] at hmem
      exact List.not_mem_nil hmem
  | some best =>
      rw [hbest] at hfound hinv
      rcases hinv with ⟨hmem, hlongest⟩
      rcases (mem_fitting_iff h).1 hmem with ⟨hentry, hfits⟩
      refine Or.inr ⟨best.1, best.2, hfound, hentry, hfits, fun other f hother hfits => ?_⟩
      exact hlongest (other, f) ((mem_fitting_iff h).2 ⟨hother, hfits⟩)

/-- Two endpoints that apply are the same: their keys are prefixes of one path, and of one
length. -/
theorem Applies.unique {other : Bytes} {f : Endpoint} (h : Applies config url key e)
    (hf : Applies config url other f) : e = f := by
  have hlength : key.length = other.length :=
    Nat.le_antisymm (hf.longest key e h.entry h.fits) (h.longest other f hf.entry hf.fits)
  -- Two prefixes of one text that are of one length are equal.
  have hkey : key = other :=
    (List.prefix_of_prefix_length_le h.fits hf.fits (Nat.le_of_eq hlength)).eq_of_length hlength
  have hentry := h.entry
  rw [hkey, hf.entry] at hentry
  exact (Option.some.inj hentry).symm

/-- The endpoint that is found is the one that applies. -/
theorem endpoint?_eq_some_iff (h : config.endpoints.Ordered) :
    endpoint? config url = some e ↔ ∃ key, Applies config url key e := by
  rcases endpoint?_cases h url with ⟨hnone, hnothing⟩ | ⟨key, f, hsome, happlies⟩
  · rw [hnone]
    refine ⟨fun hsome => absurd hsome (Option.some_ne_none e).symm, ?_⟩
    rintro ⟨key, happlies⟩
    exact absurd happlies.fits (hnothing key e happlies.entry)
  · rw [hsome, Option.some_inj]
    constructor
    · rintro rfl
      exact ⟨key, happlies⟩
    · rintro ⟨other, hother⟩
      exact happlies.unique hother

/-- No endpoint is found if none of the keys is a prefix of the path. -/
theorem endpoint?_eq_none_iff (h : config.endpoints.Ordered) :
    endpoint? config url = none
      ↔ ∀ key e, config.endpoints.find? key = some e → ¬key <+: pathOf url := by
  rcases endpoint?_cases h url with ⟨hnone, hnothing⟩ | ⟨key, f, hsome, happlies⟩
  · exact ⟨fun _ => hnothing, fun _ => hnone⟩
  · rw [hsome]
    refine ⟨fun hnone => absurd hnone (Option.some_ne_none f), fun hnothing => ?_⟩
    exact absurd happlies.fits (hnothing key f happlies.entry)

/-! ### Whether a request is signed -/

/-- Signing goes by the endpoint of the URL, or by the default one if there is none. -/
theorem signingEndpoint?_cases (config : ClientConfig) (url : Bytes) :
    signingEndpoint? config url = none
      ∨ signingEndpoint? config url = some ((endpoint? config url).getD {}) := by
  unfold signingEndpoint?
  cases endpoint? config url with
  | none => cases config.mode <;> simp
  | some e => cases config.mode <;> cases he : e.enabled <;> simp [he]

/-- What the mode and the endpoints say about a URL is what the code makes of them: a request is to
be signed by the endpoint that applies, or by the default one. -/
theorem mustSign_iff (h : config.endpoints.Ordered) :
    MustSign config url
      ↔ signingEndpoint? config url = some ((endpoint? config url).getD {}) := by
  -- An endpoint that applies is one that is found, with any property.
  have happlies : ∀ b, (∃ key e, Applies config url key e ∧ e.enabled = b)
      ↔ ∃ e, endpoint? config url = some e ∧ e.enabled = b := by
    intro b
    rw [exists_comm]
    simp only [endpoint?_eq_some_iff h, exists_and_right]
  unfold MustSign signingEndpoint?
  rw [happlies, happlies]
  -- What is left is the table of modes, with and without an endpoint.
  cases hendpoint : endpoint? config url with
  | none => cases config.mode <;> simp
  | some e => cases config.mode <;> cases he : e.enabled <;> simp [he]

/-- There is nothing to sign by for a URL that is not to be signed. -/
theorem signingEndpoint?_eq_none (h : config.endpoints.Ordered) (hnot : ¬MustSign config url) :
    signingEndpoint? config url = none :=
  (signingEndpoint?_cases config url).resolve_right fun hsome => hnot ((mustSign_iff h).2 hsome)

/-- A request that was tried is counted under one of the three outcomes. -/
theorem Tallies.tried_eq {as : List Attempt} {x : SigningMetrics} (h : Tallies as x) :
    x.tried = as.length := by
  rw [SigningMetrics.tried, h.hits, h.signed, h.failures, length_eq_outcomes]

/-- A request that reaches signing is counted once, whatever comes of it. -/
theorem History.tried_signRequest (h : History suite events c) (s : Signer) (e : Endpoint)
    (m : Message) (w : World) :
    (c.signRequest suite s e m w).2.metrics.tried = c.metrics.tried + 1 := by
  have htallies := h.kept.tallies
  rw [(htallies.signRequest suite s e m w).tried_eq, htallies.tried_eq, List.length_cons]

/-- A client that has something to sign has a signer, since its mode is not the disabled one. -/
theorem History.exists_signer (h : History suite events c) (hsign : MustSign c.config url) :
    ∃ s, c.signer = some s := by
  cases hs : c.signer with
  | some s => exact ⟨s, rfl⟩
  | none =>
      have hdisabled := h.kept.signer hs
      rcases hsign with ⟨hmode, -⟩ | ⟨hmode, -⟩
      · rw [hdisabled] at hmode
        cases hmode
      · rw [hdisabled] at hmode
        cases hmode

/-- A request that is not to be signed stays as the interceptors left it, and so does the rest. -/
theorem prepare_of_unsigned (suite : Suite) (hm : (c.intercepted m w).result = .ok m')
    (hnone : signingEndpoint? c.config m'.url = none) :
    c.prepare suite m w = (c.intercepted m w, c) := by
  have hpass : c.signIntercepted suite m' (c.intercepted m w).world
      = (.pure m' (c.intercepted m w).world, c) := by
    rw [signIntercepted, hnone]
    cases c.signer <;> rfl
  unfold intercepted at hm hpass ⊢
  simp only [prepare, hm, hpass]
  generalize Handled.chain _ _ m w = handled at hm ⊢
  rcases handled with ⟨result, world, log, notices⟩
  rw [show result = .ok m' from hm]
  simp only [Handled.bind, Handled.pure, List.append_nil]

/-- A request that is to be signed is tried once, by its endpoint or the default one. -/
theorem History.prepare_of_mustSign (h : History suite events c)
    (hordered : c.config.endpoints.Ordered) (hm : (c.intercepted m w).result = .ok m')
    (hsign : MustSign c.config m'.url) :
    ∃ s e, c.signer = some s ∧ e = (endpoint? c.config m'.url).getD {}
      ∧ (c.prepare suite m w).1.result
        = (c.outcome suite s e m' (c.intercepted m w).world).result e m'
      ∧ (c.prepare suite m w).2.metrics.tried = c.metrics.tried + 1 := by
  rcases h.exists_signer hsign with ⟨s, hs⟩
  -- There are a signer and an endpoint, so the request goes to signing.
  have hreached : c.signIntercepted suite m' (c.intercepted m w).world
      = c.signRequest suite s ((endpoint? c.config m'.url).getD {}) m'
        (c.intercepted m w).world := by
    rw [signIntercepted, hs, (mustSign_iff hordered).1 hsign]
  refine ⟨s, _, hs, rfl, ?_, ?_⟩
  · rw [(prepare_eq hm).1, hreached, signRequest_result]
  · rw [(prepare_eq hm).2, hreached, h.tried_signRequest]

/-- The endpoint of a URL is the one whose key is the longest of those that its path begins with,
where the path is a slash if it is empty and nothing if the URL cannot be read. After the
interceptors a request is tried to be signed exactly if the mode is automatic and its endpoint is
not disabled, or the mode is manual and its endpoint is enabled. Otherwise nothing changes. -/
theorem prepare_signs_iff (config : ClientConfig) (hordered : config.endpoints.Ordered) :
    (∀ url, (Url.parse? url = none → pathOf url = [])
      ∧ (∀ u, Url.parse? url = some u
        → pathOf url = if u.path = [] then ("/" : Bytes) else u.path)
      ∧ (∀ e, endpoint? config url = some e ↔ ∃ key, Applies config url key e)
      ∧ (endpoint? config url = none
        ↔ ∀ key e, config.endpoints.find? key = some e → ¬key <+: pathOf url))
    ∧ ∀ suite events c m w m', History suite events c → c.config = config →
      (c.intercepted m w).result = .ok m' →
      ((c.prepare suite m w).2.metrics.tried = c.metrics.tried + 1 ↔ MustSign config m'.url)
      ∧ (MustSign config m'.url → ∃ s e, c.signer = some s
        ∧ e = (endpoint? config m'.url).getD {}
        ∧ (c.prepare suite m w).1.result
          = (c.outcome suite s e m' (c.intercepted m w).world).result e m')
      ∧ (¬MustSign config m'.url → c.prepare suite m w = (c.intercepted m w, c)) := by
  refine ⟨fun url => ⟨pathOf_of_unread, fun u => pathOf_of_read,
    fun e => endpoint?_eq_some_iff hordered, endpoint?_eq_none_iff hordered⟩, ?_⟩
  rintro suite events c m w m' h rfl hm
  -- Either the request is tried, or client and request stay as they are.
  by_cases hsign : MustSign c.config m'.url
  · rcases h.prepare_of_mustSign hordered hm hsign with ⟨s, e, hs, he, hresult, htried⟩
    exact ⟨iff_of_true htried hsign, fun _ => ⟨s, e, hs, he, hresult⟩,
      fun hnot => absurd hsign hnot⟩
  · have hsame := prepare_of_unsigned suite hm (signingEndpoint?_eq_none hordered hsign)
    rw [hsame]
    exact ⟨iff_of_false (Nat.ne_of_lt (Nat.lt_succ_self _)) hsign, fun h => absurd h hsign,
      fun _ => rfl⟩

/-- Among keys that begin one another, and the empty one, the longest that fits decides: a request
below it is signed, one below a longer key that is disabled is not, and neither is one without a
path, to which only the empty key fits. -/
theorem prepare_signs_iff_nested :
    let signing : SigningConfig :=
      { keyId := "k", privateKey := some Sample.key, components := { method := true } }
    let off : Endpoint := { enabled := false }
    let config : ClientConfig :=
      { mode := .manual, signing := some signing
        endpoints := .ofList [("/api/public/", off), ("", off), ("/api/", {}), ("/api", off)] }
    let c : Client := ⟨fun _ w => ⟨.error (.argument .missingTransport), w, [], []⟩, config,
      some ⟨signing, Sample.key⟩, some (.create 1000 300000000000), {}⟩
    let w : World := { clock := ⟨1700000000, 0⟩, random := fun _ => .zero 16 }
    let get (url : Bytes) : Message := { Sample.request with url }
    let signed := get "https://me@h:8443/api/orders?of=/api/public/#a"
    (c.prepare Sample.suite signed w).2.metrics.tried = 1
      ∧ c.prepare Sample.suite (get "http://h/api/public/status") w
        = (c.intercepted (get "http://h/api/public/status") w, c)
      ∧ c.prepare Sample.suite (get "http://h") w = (c.intercepted (get "http://h") w, c)
      ∧ ∃ key, Applies config "http://h" key off := by
  intro signing off config c w get signed
  have hcreate : create (some c.transport) config = .ok c := rfl
  have hordered : config.endpoints.Ordered := Table.ordered_ofList _
  rcases prepare_signs_iff config hordered with ⟨hendpoint, hprepare⟩
  -- The mode is manual, so a request is signed if the endpoint that is found is enabled.
  have hmust : ∀ url e, endpoint? config url = some e →
      (MustSign config url ↔ e.enabled = true) := by
    intro url e he
    rw [mustSign_iff hordered, signingEndpoint?, he]
    cases hb : e.enabled <;> simp [config, hb]
  have hat := fun url => hprepare Sample.suite [] c (get url) w (get url) (.create hcreate) rfl rfl
  have hnone : endpoint? config "http://h" = some off := by decide +kernel
  refine ⟨?_, ?_, ?_, ((hendpoint _).2.2.1 off).1 hnone⟩
  · exact (hat _).1.2 ((hmust _ {} (by decide +kernel)).2 rfl)
  · exact (hat _).2.2 fun h => absurd ((hmust _ off (by decide +kernel)).1 h) (by decide)
  · exact (hat _).2.2 fun h => absurd ((hmust _ off hnone).1 h) (by decide)

end Client

end SignedHttp
