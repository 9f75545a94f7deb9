import SignedHttp.Proofs.Except
import SignedHttp.Proofs.Exchange.Accounting

/-!
# Headers in Another Order

A fingerprint is taken of the headers as they are sorted, with their names in lower case. Sorted
lists of the same fields are equal, however the fields were listed, so a request whose headers
come in another order, or with their names in another case, has the fingerprint of the first.
An empty body and an absent one count as the same there, too.

A client looks headers up by the fingerprint. Whether a request is signed at all, and whether the
cache is asked, are matters of its URL and of the configuration, and no call changes the latter.
So if the headers of one request were put into the cache, the cache is also asked for an equal one
that comes later, and it answers with these headers as long as it has them and they count.

## Main definitions

* `ClientCall`, `Client.run`: A client in use.
* `Client.Keeps`: Headers are in the cache under a key, and still count at a moment.

## Theorems

* `run_settings`: No call changes the configuration or the signer.
* `keeps_of_signed`: What was signed is in the cache, if there is room.
* `signRequest_of_keeps`, `prepare_of_keeps`: What is in the cache is not signed again.
* `reuses_reordered`: An equal request has the headers of the first one.
-/

namespace SignedHttp

/-- A use of a client. -/
inductive ClientCall
  | prepare (m : Message) (w : World)
  | resetMetrics
  | clearCache

namespace Client

/-- The client after a call. -/
def call (suite : Suite) (c : Client) : ClientCall → Client
  | .prepare m w => (c.prepare suite m w).2
  | .resetMetrics => c.resetMetrics
  | .clearCache => c.clearCache

/-- The client after some calls. -/
def run (suite : Suite) (c : Client) (calls : List ClientCall) : Client :=
  calls.foldl (call suite) c

/-- The cache has headers under the key that were made at a moment, and they do not count as
expired. -/
def Keeps (key : Bytes) (headers : Fields) (madeAt now : Nat) (c : Client) : Prop :=
  ∃ cache ∈ c.cache, ∃ lifetime : Int64,
    cache.entries.peek key = some ⟨headers, madeAt, lifetime⟩ ∧
      ¬ CachedHeaders.isExpired now ⟨headers, madeAt, lifetime⟩ = true

variable {suite : Suite} {s : Signer} {e : Endpoint} {m m' m₁ m₂ : Message} {w : World}
  {c : Client} {cache : SignatureCache} {headers : Fields} {madeAt now : Nat} {key : Bytes}

/-- Whether the cache is asked depends on the endpoint only: if it is asked in one state of the
client, it is asked in any other state that has one. -/
theorem cacheFor_of_isSome (h : (c.cacheFor e).isSome = true) (c₁ : Client) :
    c₁.cacheFor e = c₁.cache := by
  unfold cacheFor at h ⊢
  split
  · next hoptions =>
    rw [if_pos hoptions] at h
    cases h
  · rfl

/-- The configuration stays, whether signing succeeds or fails. -/
theorem signAnew_config (suite : Suite) (s : Signer) (e : Endpoint) (m : Message) (key : Bytes)
    (w : World) (c : Client) : (c.signAnew suite s e m key w).2.config = c.config := by
  rcases (signAnew_cases suite s e m key w c).2 with ⟨cause, -, heq⟩ | ⟨r, madeAt, took, -, heq⟩
  · rw [heq]
    rfl
  · rw [heq, (noteSigned_cases took madeAt key e r c).1.1]

/-- No call changes the configuration or the signer. -/
theorem call_settings (suite : Suite) (c : Client) (x : ClientCall) :
    (c.call suite x).config = c.config ∧ (c.call suite x).signer = c.signer := by
  cases x with
  | prepare m w =>
      rw [call]
      cases hm : (c.intercepted m w).result with
      | error cause =>
          rw [intercepted] at hm
          simp only [Client.prepare, hm, and_self]
      | ok m' =>
          rw [(prepare_eq hm).2, signIntercepted_signer]
          refine ⟨?_, rfl⟩
          rw [signIntercepted]
          -- Only a request that is to be signed goes further than the interceptors.
          split
          · next s e _ _ =>
            rcases signRequest_outcome suite s e m' (c.intercepted m w).world c with
              ⟨cache, found, -, -, -, -, -, heq⟩ | ⟨c₁, hbegins, -, -, heq⟩
            · rw [heq]
              rfl
            · rw [heq, signAnew_config, hbegins.config]
          · rfl
  | resetMetrics => exact ⟨rfl, rfl⟩
  | clearCache => exact ⟨rfl, rfl⟩

/-- Neither do several calls in a row. -/
theorem run_settings (suite : Suite) (c : Client) (calls : List ClientCall) :
    (c.run suite calls).config = c.config ∧ (c.run suite calls).signer = c.signer := by
  induction calls generalizing c with
  | nil => exact ⟨rfl, rfl⟩
  | cons x calls ih =>
      rw [← (call_settings suite c x).1, ← (call_settings suite c x).2]
      exact ih (c.call suite x)

/-- Headers that were made for a request, whose cache has room, are kept from then on. -/
theorem keeps_of_signed (hcache : c.cacheFor e = some cache) (hroom : 0 < cache.entries.capacity)
    (houtcome : c.outcome suite s e m w = .signed headers madeAt)
    (hfresh : ¬ CachedHeaders.isExpired now ⟨headers, madeAt, cache.lifetime⟩ = true) :
    (c.signRequest suite s e m w).2.Keeps (fingerprint suite m) headers madeAt now := by
  -- The cache was asked in vain; in the other two cases nothing is signed and cached.
  rcases signRequest_cases suite s e m w c with
    ⟨hnone, -⟩ | ⟨cache', after, log, hcache', ⟨found, hget, -⟩ | ⟨hget, -, heq⟩⟩
  · rw [hcache] at hnone
    cases hnone
  · -- What is found in the cache is not signed.
    rw [outcome, found?, hcache', Option.bind_some, hget] at houtcome
    cases houtcome
  · rw [outcome, found?, hcache', Option.bind_some, hget] at houtcome
    rw [hcache, Option.some.injEq] at hcache'
    subst hcache'
    -- The lookup before has not changed how much room there is.
    rcases SignatureCache.get_leaves w.clock.nanoseconds (fingerprint suite m) cache with
      ⟨entries, hafter, hcapacity, -⟩
    rw [hget] at hafter
    have hafter : after = { cache with entries } := hafter
    rw [heq]
    generalize hmissed : Client.count (fun x => { x with misses := x.misses + 1 })
      { c with cache := some after } = missed
    have hasked : missed.cacheFor e = some after := by
      rw [cacheFor_of_isSome (Option.isSome_of_mem hcache), ← hmissed]
      rfl
    -- Signing did not fail, since its outcome are headers.
    rcases (signAnew_cases suite s e m (fingerprint suite m) w missed).2 with
      ⟨cause, hfailed, -⟩ | ⟨r, t, took, hmade, hclient⟩
    · have houtcome : signingOutcome suite s e m w = .signed headers madeAt := houtcome
      rw [hfailed] at houtcome
      cases houtcome
    · have houtcome : signingOutcome suite s e m w = .signed headers madeAt := houtcome
      rw [hmade, SigningOutcome.signed.injEq] at houtcome
      rcases houtcome with ⟨rfl, rfl⟩
      rw [hclient]
      rcases (noteSigned_cases took t (fingerprint suite m) e r missed).2 with
        ⟨hnone, -⟩ | ⟨before, hbefore, hput⟩
      · rw [hasked] at hnone
        cases hnone
      · rw [hasked, Option.some.injEq] at hbefore
        refine ⟨_, hput, cache.lifetime, ?_, hfresh⟩
        rw [← hbefore, hafter, SignatureCache.put, Lru.peek_put_self,
          if_pos (by rw [hcapacity]; exact hroom), Option.getD_none]

/-- A request whose headers are in the cache gets these, and is counted as a hit and nothing
else. -/
theorem signRequest_of_keeps (hasks : c.cacheFor e = c.cache)
    (h : c.Keeps (fingerprint suite m) headers madeAt w.clock.nanoseconds) :
    (c.signRequest suite s e m w).1.result = .ok (m.withHeaders headers) ∧
      (c.signRequest suite s e m w).2.metrics
        = { c.metrics with hits := c.metrics.hits + 1 } := by
  rcases h with ⟨cache, hcache, lifetime, hpeek, hfresh⟩
  have hget := SignatureCache.get_hit hpeek hfresh
  rw [Option.mem_def] at hcache
  simp only [signRequest, hasks, hcache, hget, count, and_self]

/-- So does a request that comes to be signed once the interceptors have passed it on. -/
theorem prepare_of_keeps (hm : (c.intercepted m w).result = .ok m₁) (hsigner : c.signer = some s)
    (hendpoint : signingEndpoint? c.config m₁.url = some e) (hasks : c.cacheFor e = c.cache)
    (h : c.Keeps (fingerprint suite m₁) headers madeAt
      (c.intercepted m w).world.clock.nanoseconds) :
    (c.prepare suite m w).1.result = .ok (m₁.withHeaders headers) ∧
      (c.prepare suite m w).2.metrics = { c.metrics with hits := c.metrics.hits + 1 } := by
  rw [(prepare_eq hm).1, (prepare_eq hm).2]
  simp only [signIntercepted, hsigner, hendpoint]
  exact signRequest_of_keeps hasks h

/-- The counts have no part in what is kept. -/
theorem Keeps.resetMetrics (h : c.Keeps key headers madeAt now) :
    c.resetMetrics.Keeps key headers madeAt now := h

/-- Requests with the same method, URL and body, absent or empty, whose headers are the same in
some order when their names are in lower case, have the same fingerprint. So when a client signs
one of them and asks its cache for it, its headers are put there if there is room, and after any
calls that follow, a request that comes to be signed and is equal in this sense has these headers,
if they are still there and their time is not over. It is then not signed again. -/
theorem reuses_reordered (suite : Suite) :
    (∀ m₁ m₂ : Message, m₁.method = m₂.method → m₁.url = m₂.url →
      m₁.body.getD [] = m₂.body.getD [] → m₁.headers.lowered.Perm m₂.headers.lowered →
      fingerprint suite m₁ = fingerprint suite m₂) ∧
    ∀ (c : Client) m w m₁ headers madeAt, (c.intercepted m w).result = .ok m₁ →
      c.attempt? suite m w = some ⟨fingerprint suite m₁, true, .signed headers madeAt⟩ →
      let c₁ := (c.prepare suite m w).2
      (c.prepare suite m w).1.result = .ok (m₁.withHeaders headers) ∧
      (∀ cache ∈ c.cache, 0 < cache.entries.capacity → ∀ now : Nat,
        ¬ CachedHeaders.isExpired now ⟨headers, madeAt, cache.lifetime⟩ = true →
        c₁.Keeps (fingerprint suite m₁) headers madeAt now) ∧
      ∀ calls m' w' m₂, let c₂ := c₁.run suite calls
        (c₂.intercepted m' w').result = .ok m₂ → m₁.SameRequest m₂ →
        c₂.Keeps (fingerprint suite m₁) headers madeAt
          (c₂.intercepted m' w').world.clock.nanoseconds →
        (c₂.prepare suite m' w').1.result = .ok (m₂.withHeaders headers) ∧
        (c₂.prepare suite m' w').2.metrics
          = { c₂.metrics with hits := c₂.metrics.hits + 1 } := by
  -- The fingerprint is the hash of a text that is the same for both.
  have hsame : ∀ m₁ m₂ : Message, m₁.SameRequest m₂ →
      fingerprint suite m₁ = fingerprint suite m₂ := by
    intro m₁ m₂ h
    rw [fingerprint, fingerprint, fingerprintText_eq_of_sameRequest h]
  refine ⟨fun m₁ m₂ hmethod hurl hbody hheaders => hsame m₁ m₂ ⟨hmethod, hurl, hheaders, hbody⟩, ?_⟩
  intro c m w m₁ headers madeAt hm hattempt c₁
  rcases prepare_cases suite m w c with
    ⟨hnone, -⟩ | ⟨m₁', s, e, ⟨hm', he⟩, hsome, hresult, hclient, hsigner⟩
  · rw [hattempt] at hnone
    cases hnone
  · rw [hm, Except.ok.injEq] at hm'
    subst hm'
    rw [hattempt, Option.some.injEq, attempt, Attempt.mk.injEq] at hsome
    rcases hsome with ⟨-, hasked, houtcome⟩
    have hasks := cacheFor_of_isSome hasked.symm
    refine ⟨?_, fun cache hcache hroom now hfresh => ?_, ?_⟩
    · rw [hresult, signRequest_result, ← houtcome, SigningOutcome.result]
    · -- The client afterwards is that after signing, which was just done.
      rw [show c₁ = _ from hclient]
      exact keeps_of_signed ((hasks c).trans hcache) hroom houtcome.symm hfresh
    · intro calls m' w' m₂ c₂ hm₂ hrequest hkeeps
      -- The URL is the same and so is the configuration, so this one is to be signed as well.
      have hconfig : c₂.config = c.config :=
        (run_settings suite c₁ calls).1.trans (call_settings suite c (.prepare m w)).1
      have hsigner₂ : c₂.signer = some s := (run_settings suite c₁ calls).2.trans hsigner
      have hendpoint : signingEndpoint? c₂.config m₂.url = some e := by
        rw [hconfig, ← hrequest.url]
        exact he
      rw [hsame m₁ m₂ hrequest] at hkeeps
      exact prepare_of_keeps hm₂ hsigner₂ hendpoint (hasks c₂) hkeeps

/-- A request is signed, and comes again when its headers count for the last moment, with an empty
body, its headers in another order and their names in another case. -/
theorem reuses_reordered_post :
    let suite : Suite := { Sample.suite with fingerprint := id }
    let signing : SigningConfig :=
      { keyId := "k", privateKey := some Sample.key, components := { method := true } }
    let signer : Signer := ⟨signing, Sample.key⟩
    let w : World := { clock := ⟨1700000000, 0⟩, random := fun _ => .zero 16 }
    let c : Client := ⟨fun _ w => ⟨.error (.argument .missingTransport), w, [], []⟩,
      { signing := some signing }, some signer, some (.create 1000 300000000000), {}⟩
    let m₁ : Message :=
      ⟨.post, "http://h/", ⟨[("X-One", "1"), ("x-two", "2"), ("X-TWO", "1")]⟩, none⟩
    let m₂ : Message :=
      ⟨.post, "http://h/", ⟨[("x-Two", "1"), ("x-two", "2"), ("x-one", "1")]⟩, some []⟩
    let c₂ := (c.prepare suite m₁ w).2.resetMetrics
    fingerprint suite m₁ = fingerprint suite m₂ ∧
      ∃ headers, (c.prepare suite m₁ w).1.result = .ok (m₁.withHeaders headers) ∧
        (c₂.prepare suite m₂ (w.advance 300000)).1.result = .ok (m₂.withHeaders headers) ∧
        (c₂.prepare suite m₂ (w.advance 300000)).2.metrics = { hits := 1 } := by
  intro suite signing signer w c m₁ m₂ c₂
  rcases reuses_reordered suite with ⟨hfingerprint, hreuses⟩
  have hsame : m₁.SameRequest m₂ := ⟨rfl, rfl, by decide +kernel, rfl⟩
  -- The cache is empty, so the first request is signed.
  have hattempt : c.attempt? suite m₁ w
      = some ⟨fingerprint suite m₁, true, signingOutcome suite signer {} m₁ w⟩ := rfl
  rcases exists_ok_of_isOk (show (signer.sign suite m₁ {} w).1.isOk = true by decide +kernel) with
    ⟨r, hr⟩
  have htime : (signer.sign suite m₁ {} w).2.1.clock.nanoseconds = 0 := by decide +kernel
  have hsigned : signingOutcome suite signer {} m₁ w = .signed r.headers 0 := by
    unfold signingOutcome
    rcases hsign : signer.sign suite m₁ {} w with ⟨result, later, log⟩
    rw [hsign] at hr htime
    rw [show result = .ok r from hr]
    exact congrArg (SigningOutcome.signed r.headers) htime
  rw [hsigned] at hattempt
  rcases hreuses c m₁ w m₁ r.headers 0 rfl hattempt with ⟨hfirst, hkeeps, hlater⟩
  have hcounts : ¬ CachedHeaders.isExpired 300000000000 ⟨r.headers, 0, 300000000000⟩ = true :=
    show ¬ decide ((Int64.ofNat 0 + 300000000000).toInt < (300000000000 : Nat)) = true by decide
  have hkept := hkeeps (.create 1000 300000000000) rfl (by decide) 300000000000 hcounts
  have hrun : (c.prepare suite m₁ w).2.run suite [.resetMetrics] = c₂ := rfl
  have hconfig : c₂.config = c.config := (call_settings suite c (.prepare m₁ w)).1
  have hpass : c₂.intercepted m₂ (w.advance 300000) = .pure m₂ (w.advance 300000) := by
    rw [intercepted, hconfig]
    rfl
  have hlater := hlater [.resetMetrics] m₂ (w.advance 300000) m₂
  have hnow : (w.advance 300000).clock.nanoseconds = 300000000000 := by decide
  simp only [hrun, hpass, Handled.pure, hnow] at hlater
  rcases hlater trivial hsame hkept.resetMetrics with ⟨hsecond, hmetrics⟩
  exact ⟨hfingerprint m₁ m₂ rfl rfl rfl hsame.headers, r.headers, hfirst, hsecond, hmetrics⟩

end Client

end SignedHttp
