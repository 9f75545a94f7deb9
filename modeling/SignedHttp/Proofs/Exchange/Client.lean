import SignedHttp.Exchange.Client
import SignedHttp.Proofs.Crypto.Suite
import SignedHttp.Proofs.Store.Cache
import SignedHttp.Proofs.Store.Fingerprint

/-!
# The Signature Headers That a Client Reuses

A client keeps the headers of a signature under the fingerprint of the request that it signed,
and gives them to any request with that fingerprint. Whose headers a request gets is thus a
question of fingerprints alone. `Client.After` records the requests that came to be signed in
the life of a client, and what is in its cache are headers of those
(`Client.After.holds`). A request that takes its headers from the cache has the fingerprint of
one of them, so it is the same request if the fingerprints can be told apart.

## Main definitions

* `Client.intercepted`: The request after the interceptors, as it comes to be signed.
* `Client.After`: A client, and the requests that came to be signed.
* `Client.SignedFor`: Headers that were made for one of some requests.

## Theorems

* `create_spec`: What a new client is like.
* `noteSigned_cases`, `signRequest_cases`: What becomes of a request that is to be signed.
* `signAnew_holds`, `signRequest_holds`: A request that is signed keeps the invariant.
* `After.holds`: The cache holds headers of signatures that the client made.
* `signRequest_hit`: A request that counts as a hit has headers from the cache.
* `cached_headers_of_same_request`: Headers are reused for the same request only.
-/

namespace SignedHttp

namespace Client

variable {suite : Suite} {s : Signer} {e : Endpoint} {m : Message} {w : World} {c : Client}
  {origin : Bytes → Fields → Prop}

/-- The request after the interceptors. -/
def intercepted (c : Client) (m : Message) (w : World) : Handled Message :=
  Handled.chain "Request interceptor" c.config.requestInterceptors m w

/-- A client after some calls, and the requests that came to be signed in these. -/
inductive After (suite : Suite) : List Message → Client → Prop
  | create {transport : Option (Message → World → Handled Response)} {config : ClientConfig}
      {c : Client} (h : create transport config = .ok c) : After suite [] c
  | prepare {requests : List Message} {c : Client} {m m' : Message} {w : World}
      (h : After suite requests c) (hm : (c.intercepted m w).result = .ok m') :
      After suite (m' :: requests) (c.prepare suite m w).2
  | resetMetrics {requests : List Message} {c : Client} (h : After suite requests c) :
      After suite requests c.resetMetrics
  | clearCache {requests : List Message} {c : Client} (h : After suite requests c) :
      After suite requests c.clearCache

/-- The headers are those of a signature of one of the requests, which has the fingerprint. -/
def SignedFor (suite : Suite) (signer : Option Signer) (requests : List Message) (key : Bytes)
    (headers : Fields) : Prop :=
  ∃ m ∈ requests, fingerprint suite m = key ∧ ∃ s o w r, signer = some s ∧
    (s.sign suite m o w).1 = .ok r ∧ r.headers = headers

/-- What is in the cache, if there is one, has a property. -/
def Holds (origin : Bytes → Fields → Prop) (c : Client) : Prop :=
  ∀ cache ∈ c.cache, cache.Holds origin

/-- Another count leaves all else as it is. -/
theorem Holds.count (h : c.Holds origin) (f : SigningMetrics → SigningMetrics) :
    (c.count f).Holds origin := h

/-- The cache that is asked for an endpoint is that of the client. -/
theorem cacheFor_eq_some {cache : SignatureCache} (h : c.cacheFor e = some cache) :
    c.cache = some cache := by
  unfold cacheFor at h
  split at h
  · cases h
  · exact h

/-- So what holds of the cache of the client holds of the one that is asked. -/
theorem Holds.of_cacheFor (h : c.Holds origin) {cache : SignatureCache}
    (hcache : c.cacheFor e = some cache) : cache.Holds origin := h cache (cacheFor_eq_some hcache)

/-- A client with another cache. -/
theorem holds_withCache {cache : SignatureCache} (h : cache.Holds origin) (c : Client) :
    Holds origin { c with cache := some cache } :=
  fun _ hmem => Option.mem_some.1 hmem ▸ h

/-- A signature is counted, and put into the cache if the cache was asked for it. -/
theorem noteSigned_cases (took now : Nat) (key : Bytes) (e : Endpoint) (r : SigningResult)
    (c : Client) :
    ((c.noteSigned took now key e r).1.config = c.config ∧
      (c.noteSigned took now key e r).1.signer = c.signer ∧
      (c.noteSigned took now key e r).1.metrics = { c.metrics with
        signed := c.metrics.signed + 1, totalTime := c.metrics.totalTime + took }) ∧
    ((c.cacheFor e = none ∧ (c.noteSigned took now key e r).1.cache = c.cache) ∨
      ∃ cache, c.cacheFor e = some cache ∧
        (c.noteSigned took now key e r).1.cache = some (cache.put now key r.headers none).1) := by
  -- The count comes first and does not change which cache is asked.
  have hcount : (c.count fun x => { x with
      signed := x.signed + 1, totalTime := x.totalTime + took }).cacheFor e = c.cacheFor e := rfl
  unfold noteSigned
  simp only [hcount]
  cases hcache : c.cacheFor e with
  | none => exact ⟨⟨rfl, rfl, rfl⟩, Or.inl ⟨rfl, rfl⟩⟩
  | some cache => exact ⟨⟨rfl, rfl, rfl⟩, Or.inr ⟨cache, rfl, rfl⟩⟩

/-- The headers of a signature are put into the cache under the key of the request. -/
theorem noteSigned_holds {took now : Nat} {key : Bytes} {r : SigningResult} (h : c.Holds origin)
    (horigin : origin key r.headers) : (c.noteSigned took now key e r).1.Holds origin := by
  intro after hmem
  -- The cache is as before, or it has one entry more, which is that of the request.
  rcases (noteSigned_cases took now key e r c).2 with ⟨-, hafter⟩ | ⟨cache, hcache, hafter⟩
  · rw [hafter] at hmem
    exact h after hmem
  · rw [hafter, Option.mem_some] at hmem
    exact hmem ▸ (h.of_cacheFor hcache).put horigin now none

/-- Putting a signature into the cache leaves the signer and the count of hits alone. -/
theorem noteSigned_frame (took now : Nat) (key : Bytes) (e : Endpoint) (r : SigningResult)
    (c : Client) : (c.noteSigned took now key e r).1.signer = c.signer ∧
      (c.noteSigned took now key e r).1.metrics.hits = c.metrics.hits := by
  rcases (noteSigned_cases took now key e r c).1 with ⟨-, hsigner, hmetrics⟩
  exact ⟨hsigner, by rw [hmetrics]⟩

/-- A request that is signed anew keeps the invariant, if its headers have the property. -/
theorem signAnew_holds {key : Bytes} (h : c.Holds origin)
    (horigin : ∀ r, (s.sign suite m e.options w).1 = .ok r → origin key r.headers) :
    (c.signAnew suite s e m key w).2.Holds origin := by
  unfold signAnew
  rcases hsign : s.sign suite m e.options w with ⟨_ | r, later, log⟩
  · exact h.count _
  · exact noteSigned_holds h (horigin r (congrArg Prod.fst hsign))

/-- So does signing anew, whether it succeeds or fails. -/
theorem signAnew_frame (suite : Suite) (s : Signer) (e : Endpoint) (m : Message) (key : Bytes)
    (w : World) (c : Client) : (c.signAnew suite s e m key w).2.signer = c.signer ∧
      (c.signAnew suite s e m key w).2.metrics.hits = c.metrics.hits := by
  unfold signAnew
  rcases s.sign suite m e.options w with ⟨_ | r, later, log⟩
  · exact ⟨rfl, rfl⟩
  · exact noteSigned_frame _ _ key e r c

/-- A request is signed anew without asking the cache, has headers from the cache, or is signed
anew because the cache has none. -/
theorem signRequest_cases (suite : Suite) (s : Signer) (e : Endpoint) (m : Message) (w : World)
    (c : Client) :
    (c.cacheFor e = none ∧
      c.signRequest suite s e m w = c.signAnew suite s e m (fingerprint suite m) w) ∨
    ∃ cache after log, c.cacheFor e = some cache ∧
      ((∃ headers,
          cache.get w.clock.nanoseconds (fingerprint suite m) = (some headers, after, log) ∧
          c.signRequest suite s e m w = (⟨.ok (m.withHeaders headers), w, log, []⟩,
            Client.count (fun x => { x with hits := x.hits + 1 })
              { c with cache := some after })) ∨
        (cache.get w.clock.nanoseconds (fingerprint suite m) = (none, after, log) ∧
          let missed := Client.count (fun x => { x with misses := x.misses + 1 })
            { c with cache := some after }
          (c.signRequest suite s e m w).1.result
            = (missed.signAnew suite s e m (fingerprint suite m) w).1.result ∧
          (c.signRequest suite s e m w).2
            = (missed.signAnew suite s e m (fingerprint suite m) w).2)) := by
  unfold signRequest
  cases hcache : c.cacheFor e with
  | none => exact Or.inl ⟨rfl, rfl⟩
  | some cache =>
      refine Or.inr ⟨cache, ?_⟩
      -- What the lookup gives decides the rest; its log is put before that of the signing.
      rcases hget : cache.get w.clock.nanoseconds (fingerprint suite m) with
        ⟨_ | headers, after, log⟩
      · exact ⟨after, log, rfl, Or.inr ⟨rfl, by simp only [hget], by simp only [hget]⟩⟩
      · exact ⟨after, log, rfl, Or.inl ⟨headers, rfl, by simp only [hget]⟩⟩

/-- A request keeps the invariant, if the headers of its signature have the property. -/
theorem signRequest_holds (h : c.Holds origin)
    (horigin : ∀ r, (s.sign suite m e.options w).1 = .ok r →
      origin (fingerprint suite m) r.headers) :
    (c.signRequest suite s e m w).2.Holds origin := by
  -- In each of the three cases the cache goes through a lookup, through a put or through both.
  rcases signRequest_cases suite s e m w c with
    ⟨-, heq⟩ | ⟨cache, after, log, hcache, ⟨headers, hget, heq⟩ | ⟨hget, -, heq⟩⟩
  · rw [heq]
    exact signAnew_holds h horigin
  · have hafter := (h.of_cacheFor hcache).after_get w.clock.nanoseconds (fingerprint suite m)
    rw [hget] at hafter
    rw [heq]
    exact (holds_withCache hafter c).count _
  · have hafter := (h.of_cacheFor hcache).after_get w.clock.nanoseconds (fingerprint suite m)
    rw [hget] at hafter
    rw [heq]
    exact signAnew_holds ((holds_withCache hafter c).count _) horigin

/-- The signer stays, whatever comes of the request. -/
theorem signRequest_signer (suite : Suite) (s : Signer) (e : Endpoint) (m : Message) (w : World)
    (c : Client) : (c.signRequest suite s e m w).2.signer = c.signer := by
  rcases signRequest_cases suite s e m w c with
    ⟨-, heq⟩ | ⟨cache, after, log, hcache, ⟨headers, hget, heq⟩ | ⟨hget, -, heq⟩⟩
  · rw [heq]
    exact (signAnew_frame suite s e m _ w c).1
  · rw [heq]
    rfl
  · rw [heq]
    exact (signAnew_frame suite s e m _ w _).1

/-- A request that counts as a hit has headers that were found in the cache. -/
theorem signRequest_hit (h : c.Holds origin)
    (hhit : (c.signRequest suite s e m w).2.metrics.hits = c.metrics.hits + 1) :
    ∃ headers, origin (fingerprint suite m) headers ∧
      (c.signRequest suite s e m w).1.result = .ok (m.withHeaders headers) := by
  -- Signing anew leaves the count of hits alone.
  have hnot : ∀ n : Nat, n ≠ n + 1 := fun n => Nat.ne_of_lt (Nat.lt_succ_self n)
  rcases signRequest_cases suite s e m w c with
    ⟨-, heq⟩ | ⟨cache, after, log, hcache, ⟨headers, hget, heq⟩ | ⟨hget, -, heq⟩⟩
  · rw [heq, (signAnew_frame suite s e m _ w c).2] at hhit
    exact absurd hhit (hnot _)
  · rw [heq]
    exact ⟨headers, (h.of_cacheFor hcache).get (congrArg Prod.fst hget), rfl⟩
  · rw [heq, (signAnew_frame suite s e m _ w _).2] at hhit
    exact absurd hhit (hnot _)

/-- A request that came through the interceptors is signed, or goes out as it is. -/
theorem prepare_eq {m' : Message} (hm : (c.intercepted m w).result = .ok m') :
    (c.prepare suite m w).1.result
        = (c.signIntercepted suite m' (c.intercepted m w).world).1.result ∧
      (c.prepare suite m w).2 = (c.signIntercepted suite m' (c.intercepted m w).world).2 := by
  rw [intercepted] at hm
  simp only [prepare, intercepted, hm, Handled.bind, and_self]

/-- The headers of a signature that is made now are those of the request. -/
theorem Holds.signIntercepted {requests : List Message}
    (h : c.Holds (SignedFor suite c.signer requests)) (m : Message) (w : World) :
    (c.signIntercepted suite m w).2.Holds (SignedFor suite c.signer (m :: requests)) := by
  -- With one request more, every entry that was there is still that of one of the requests.
  have hmono : c.Holds (SignedFor suite c.signer (m :: requests)) := by
    intro cache hcache
    refine (h cache hcache).mono fun key headers horigin => ?_
    rcases horigin with ⟨m₀, hmem, hsigned⟩
    exact ⟨m₀, List.mem_cons_of_mem _ hmem, hsigned⟩
  unfold Client.signIntercepted
  split
  · next s e hsigner _ =>
    refine signRequest_holds hmono fun r hr => ?_
    exact ⟨m, List.mem_cons_self, rfl, s, e.options, w, r, hsigner, hr, rfl⟩
  · exact hmono

/-- The signer stays also if the request is not to be signed at all. -/
theorem signIntercepted_signer (suite : Suite) (m : Message) (w : World) (c : Client) :
    (c.signIntercepted suite m w).2.signer = c.signer := by
  unfold signIntercepted
  split
  · exact signRequest_signer suite _ _ m w c
  · rfl

/-- Only a request that is to be signed can count as a hit. -/
theorem signIntercepted_hit (h : c.Holds origin)
    (hhit : (c.signIntercepted suite m w).2.metrics.hits = c.metrics.hits + 1) :
    ∃ headers, origin (fingerprint suite m) headers ∧
      (c.signIntercepted suite m w).1.result = .ok (m.withHeaders headers) := by
  unfold signIntercepted at hhit ⊢
  split at hhit
  · exact signRequest_hit h hhit
  · -- Nothing was counted, so the number of hits would have to exceed itself.
    exact absurd hhit (Nat.ne_of_lt (Nat.lt_succ_self _))

/-- A new client has a signer unless signing is disabled, and its cache is a new one. -/
theorem create_spec {transport : Option (Message → World → Handled Response)}
    {config : ClientConfig} (h : create transport config = .ok c) :
    c.config = config ∧ (c.signer = none → config.mode = .disabled) ∧ c.metrics = {} ∧
      ∀ cache ∈ c.cache, cache = .create config.cacheSize config.cacheLifetime := by
  unfold create at h
  split at h
  · cases h
  · split at h
    · cases h
    · next signer hsigner =>
      injection h with h
      subst h
      refine ⟨rfl, fun hnone => ?_, rfl, fun cache hcache => ?_⟩
      · -- With signing enabled the signer is the one that was made of the configuration.
        by_contra hmode
        rw [signerOf, if_neg hmode, show signer = none from hnone] at hsigner
        split at hsigner
        · cases hsigner
        · next signing _ =>
          cases hvalid : Signer.create signing with
          | error cause =>
              rw [hvalid] at hsigner
              cases hsigner
          | ok s =>
              rw [hvalid] at hsigner
              cases hsigner
      · split at hcache
        · exact (Option.mem_some.1 hcache).symm
        · cases hcache

/-- A new client has nothing in its cache. -/
theorem holds_create {transport : Option (Message → World → Handled Response)}
    {config : ClientConfig} (h : create transport config = .ok c)
    (origin : Bytes → Fields → Prop) : c.Holds origin := by
  intro cache hcache
  rw [(create_spec h).2.2.2 cache hcache]
  exact SignatureCache.holds_create origin _ _

/-- The cache holds headers of signatures that the client made, under the fingerprints of the
requests that it made them for. -/
theorem After.holds {requests : List Message} (h : After suite requests c) :
    c.Holds (SignedFor suite c.signer requests) := by
  -- By induction on what was done to the client; only a request that is signed adds an entry.
  induction h with
  | create hcreate => exact holds_create hcreate _
  | @prepare requests c m m' w _ hm ih =>
      rw [(prepare_eq hm).2, signIntercepted_signer]
      exact ih.signIntercepted m' _
  | resetMetrics _ ih => exact ih
  | @clearCache requests c _ _ =>
      intro cache hcache
      rcases Option.map_eq_some_iff.1 (Option.mem_def.1 hcache) with ⟨old, -, rfl⟩
      exact SignatureCache.holds_clear _ old

/-- Among requests whose parts can be told apart, and which the hash tells apart, two have the
same fingerprint exactly if they are the same. So what is found in a cache for a request was put
there for the same request, and a client gives a request that counts as a hit the headers of a
signature that it made for the same request. -/
theorem cached_headers_of_same_request (suite : Suite) (Known : Message → Prop)
    (hseparable : ∀ m, Known m → m.Separable)
    (hhash : ∀ m₁ m₂, Known m₁ → Known m₂ →
      suite.Separates (fingerprintText m₁) (fingerprintText m₂)) :
    (∀ m₁ m₂, Known m₁ → Known m₂ →
      (fingerprint suite m₁ = fingerprint suite m₂ ↔ m₁.SameRequest m₂)) ∧
    (∀ capacity lifetime calls now m headers, Known m →
      (∀ t m₀ f l, (t, CacheCall.put m₀ f l) ∈ calls → Known m₀) →
      (((SignatureCache.create capacity lifetime).run suite calls).get now
        (fingerprint suite m)).1 = some headers →
      ∃ t m₀ l, (t, CacheCall.put m₀ headers l) ∈ calls ∧ m₀.SameRequest m) ∧
    ∀ requests (c : Client) m m' w, After suite requests c → (∀ m₀ ∈ requests, Known m₀) →
      (c.intercepted m w).result = .ok m' → Known m' →
      (c.prepare suite m w).2.metrics.hits = c.metrics.hits + 1 →
      ∃ m₀ ∈ requests, m₀.SameRequest m' ∧ ∃ s o v r, c.signer = some s ∧
        (s.sign suite m₀ o v).1 = .ok r ∧
        (c.prepare suite m w).1.result = .ok (m'.withHeaders r.headers) := by
  have hiff : ∀ m₁ m₂, Known m₁ → Known m₂ →
      (fingerprint suite m₁ = fingerprint suite m₂ ↔ m₁.SameRequest m₂) := fun m₁ m₂ h₁ h₂ =>
    fingerprint_eq_iff (hseparable m₁ h₁) (hseparable m₂ h₂) (hhash m₁ m₂ h₁ h₂)
  refine ⟨hiff, ?_, ?_⟩
  · -- A cache by itself: what is found was put there under an equal fingerprint.
    intro capacity lifetime calls now m headers hm hcalls hget
    rcases SignatureCache.exists_put_of_get hget with ⟨t, m₀, l, hmem, hkey⟩
    exact ⟨t, m₀, l, hmem, (hiff m₀ m (hcalls t m₀ headers l hmem) hm).1 hkey⟩
  · -- A client: what is found was signed for a request with an equal fingerprint.
    intro requests c m m' w hafter hrequests hm hm' hhit
    rw [(prepare_eq hm).2] at hhit
    rw [(prepare_eq hm).1]
    rcases signIntercepted_hit hafter.holds hhit with
      ⟨headers, ⟨m₀, hmem, hkey, s, o, v, r, hsigner, hsign, rfl⟩, hresult⟩
    exact ⟨m₀, hmem, (hiff m₀ m' (hrequests m₀ hmem) hm').1 hkey, s, o, v, r, hsigner, hsign,
      hresult⟩

/-- Headers in another order and with names in another case are those of the same request, and so
is an empty body: the second request finds what was put for the first one. -/
theorem cached_headers_of_same_request_reordered :
    let suite : Suite := { Sample.suite with fingerprint := id }
    let m₁ : Message := ⟨.post, "http://h/", ⟨[("X-One", "1"), ("x-two", "2:|")]⟩, none⟩
    let m₂ : Message := ⟨.post, "http://h/", ⟨[("x-two", "2:|"), ("x-one", "1")]⟩, some []⟩
    let headers : Fields := ⟨[("signature", "sig1=:00:")]⟩
    let calls := [(0, CacheCall.put m₁ headers none)]
    m₁.Separable ∧ m₂.Separable ∧ fingerprint suite m₁ = fingerprint suite m₂ ∧
      (((SignatureCache.create 10 1000).run suite calls).get 500 (fingerprint suite m₂)).1
        = some headers ∧
      ∃ t m₀ l, (t, CacheCall.put m₀ headers l) ∈ calls ∧ m₀.SameRequest m₂ := by
  intro suite m₁ m₂ headers calls
  have hone : SeparableField ("x-one", "1") := ⟨by decide, by decide, by decide⟩
  have htwo : SeparableField ("x-two", "2:|") := ⟨by decide, by decide, by decide⟩
  have h₁ : m₁.Separable :=
    ⟨by decide, List.forall_mem_cons.2 ⟨hone, List.forall_mem_singleton.2 htwo⟩⟩
  have h₂ : m₂.Separable :=
    ⟨by decide, List.forall_mem_cons.2 ⟨htwo, List.forall_mem_singleton.2 hone⟩⟩
  rcases cached_headers_of_same_request suite Message.Separable (fun _ h => h)
    (fun _ _ _ _ h => h) with ⟨hiff, hcache, -⟩
  -- The headers are the same up to their order and the case of their names.
  have hkey : fingerprint suite m₁ = fingerprint suite m₂ :=
    (hiff m₁ m₂ h₁ h₂).2 ⟨rfl, rfl, List.Perm.swap _ _ _, rfl⟩
  have hget : (((SignatureCache.create 10 1000).run suite calls).get 500
      (fingerprint suite m₂)).1 = some headers := by
    rw [← hkey]
    exact SignatureCache.get_put_self (by decide) none (by decide)
  have hcalls : ∀ t m₀ f l, (t, CacheCall.put m₀ f l) ∈ calls → m₀.Separable := by
    intro t m₀ f l hmem
    cases List.mem_singleton.1 hmem
    exact h₁
  exact ⟨h₁, h₂, hkey, hget, hcache 10 1000 calls 500 m₂ headers h₂ hcalls hget⟩

end Client

end SignedHttp
