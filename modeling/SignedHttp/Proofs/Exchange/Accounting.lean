import SignedHttp.Proofs.Exchange.Client

/-!
# What the Counts of a Client Count

A client counts signatures, failures, and whether its cache had headers. It adds to a count in
the middle of signing a request, in different places for the different outcomes, so that the
counts are right is a matter of every path. Here the history of a client is written down beside
it: for each request whether it came to be signed, whether the cache was asked, and what came of
it. None of this is read off the counts. An outcome is what the cache and the signer give
(`Client.outcome`).

Two invariants relate a history to the client (`History.kept`). The counts are the numbers of
outcomes since they were last set to zero (`Tallies`). And each entry of the cache is the latest
that was signed for its key and put there, since the cache was last cleared (`Backed`): headers
that are put take the place of those under the same key, and an entry that is dropped does no
harm. A request that reaches signing keeps both. The ways it can go are told apart once
(`signRequest_outcome`, `signAnew_cases`).

## Main definitions

* `SigningOutcome`, `Attempt`: What came of a request that reached signing.
* `Client.outcome`, `Client.attempt?`: That of a request, by what the cache and the signer give.
* `ClientEvent`, `Client.History`: A client, and what it was asked to do so far.
* `attempts`: The requests that reached signing since the counts were last set to zero.
* `lastCached`: The latest headers that were cached under a key.

## Theorems

* `signRequest_outcome`, `signAnew_cases`: What a request that reaches signing does to a client.
* `Tallies.signRequest`, `Backed.signRequest`: It keeps the counts right, and the cache.
* `History.kept`: The invariants hold all through the life of a client.
* `counts_and_cache`: What the counts count, and what is reused.
-/

namespace SignedHttp

/-- What came of a request that reached signing. -/
inductive SigningOutcome
  | hit (headers : Fields)
  /-- The headers of the signature, and when they were made. -/
  | signed (headers : Fields) (madeAt : Nat)
  | failed (cause : SigningError)

namespace SigningOutcome

def isHit : SigningOutcome → Bool
  | hit _ => true
  | _ => false

def isSigned : SigningOutcome → Bool
  | signed _ _ => true
  | _ => false

def isFailed : SigningOutcome → Bool
  | failed _ => true
  | _ => false

/-- What becomes of the request. If signing failed, it is stopped or goes on as it is. -/
def result (e : Endpoint) (m : Message) : SigningOutcome → Except Failure Message
  | hit headers => .ok (m.withHeaders headers)
  | signed headers _ => .ok (m.withHeaders headers)
  | failed cause => if e.required then .error (.signing cause) else .ok m

end SigningOutcome

/-- A request that reached signing. -/
structure Attempt where
  /-- The fingerprint of the request. -/
  key : Bytes
  /-- Was the cache asked? -/
  consulted : Bool
  outcome : SigningOutcome

/-- The headers that were cached under a key, and when they were made. -/
def Attempt.cached? (key : Bytes) : Attempt → Option (Fields × Nat)
  | ⟨k, true, .signed headers madeAt⟩ => if k = key then some (headers, madeAt) else none
  | _ => none

/-- What a client was asked to do. A request may have reached signing. -/
inductive ClientEvent
  | prepared (attempt : Option Attempt)
  | reset
  | cleared

namespace ClientEvent

def isReset : ClientEvent → Bool
  | reset => true
  | _ => false

def isCleared : ClientEvent → Bool
  | cleared => true
  | _ => false

def attempt? : ClientEvent → Option Attempt
  | prepared a => a
  | _ => none

end ClientEvent

/-- The requests that reached signing since the counts were last set to zero. The latest event
comes first. -/
def attempts (events : List ClientEvent) : List Attempt :=
  (events.takeWhile (!·.isReset)).filterMap (·.attempt?)

/-- The latest headers that were cached under a key since the cache was last cleared, and when
they were made. The latest event comes first. -/
def lastCached (events : List ClientEvent) (key : Bytes) : Option (Fields × Nat) :=
  (events.takeWhile (!·.isCleared)).findSome? fun event => event.attempt?.bind (·.cached? key)

/-- A request adds its outcome to those that count, if it reached signing. -/
theorem attempts_prepared (a : Option Attempt) (events : List ClientEvent) :
    attempts (.prepared a :: events) = a.toList ++ attempts events := by
  cases a <;> rfl

/-- The latest headers of a key are those of the latest request, if these were cached under it, and
otherwise those from before. -/
theorem lastCached_prepared (a : Option Attempt) (events : List ClientEvent) (key : Bytes) :
    lastCached (.prepared a :: events) key
      = (a.bind (·.cached? key)).or (lastCached events key) := by
  rw [lastCached, List.takeWhile_cons_of_pos rfl, List.findSome?_cons, ClientEvent.attempt?]
  cases a.bind (·.cached? key) <;> rfl

namespace Client

variable {suite : Suite} {s : Signer} {e : Endpoint} {m m' : Message} {w : World}
  {c c₁ : Client} {as : List Attempt} {events : List ClientEvent}
  {latest : Bytes → Option (Fields × Nat)}

/-- What came of signing, apart from the cache. -/
def signingOutcome (suite : Suite) (s : Signer) (e : Endpoint) (m : Message) (w : World) :
    SigningOutcome :=
  match s.sign suite m e.options w with
  | (.ok r, later, _) => .signed r.headers later.clock.nanoseconds
  | (.error cause, _, _) => .failed cause

/-- The headers that the cache has for a request, if it is asked. -/
def found? (suite : Suite) (e : Endpoint) (m : Message) (w : World) (c : Client) : Option Fields :=
  (c.cacheFor e).bind fun cache => (cache.get w.clock.nanoseconds (fingerprint suite m)).1

/-- What comes of a request that reaches signing. -/
def outcome (suite : Suite) (s : Signer) (e : Endpoint) (m : Message) (w : World) (c : Client) :
    SigningOutcome :=
  match c.found? suite e m w with
  | some headers => .hit headers
  | none => signingOutcome suite s e m w

def attempt (suite : Suite) (s : Signer) (e : Endpoint) (m : Message) (w : World) (c : Client) :
    Attempt :=
  ⟨fingerprint suite m, (c.cacheFor e).isSome, c.outcome suite s e m w⟩

/-- What comes of a request, if it reaches signing. -/
def attempt? (suite : Suite) (m : Message) (w : World) (c : Client) : Option Attempt :=
  match (c.intercepted m w).result with
  | .error _ => none
  | .ok m' =>
    match c.signer, signingEndpoint? c.config m'.url with
    | some s, some e => some (c.attempt suite s e m' (c.intercepted m w).world)
    | _, _ => none

/-- A client that was created and asked to do some things, the latest first. -/
inductive History (suite : Suite) : List ClientEvent → Client → Prop
  | create {transport : Option (Message → World → Handled Response)} {config : ClientConfig}
      {c : Client} (h : create transport config = .ok c) : History suite [] c
  | prepare {events : List ClientEvent} {c : Client} (h : History suite events c) (m : Message)
      (w : World) :
      History suite (.prepared (c.attempt? suite m w) :: events) (c.prepare suite m w).2
  | resetMetrics {events : List ClientEvent} {c : Client} (h : History suite events c) :
      History suite (.reset :: events) c.resetMetrics
  | clearCache {events : List ClientEvent} {c : Client} (h : History suite events c) :
      History suite (.cleared :: events) c.clearCache

/-- The request comes through the interceptors as `m'`, and is to be signed as `e` says. -/
def Reaches (c : Client) (m : Message) (w : World) (m' : Message) (e : Endpoint) : Prop :=
  (c.intercepted m w).result = .ok m' ∧ signingEndpoint? c.config m'.url = some e

/-- All that a client has in its cache, another one had before. -/
def NothingStored (c c₁ : Client) : Prop :=
  ∀ after ∈ c₁.cache, ∃ before ∈ c.cache, after.lifetime = before.lifetime ∧
    after.entries.entries ⊆ before.entries.entries

/-- The counts are the numbers of outcomes. -/
structure Tallies (as : List Attempt) (x : SigningMetrics) : Prop where
  hits : x.hits = as.countP (·.outcome.isHit)
  signed : x.signed = as.countP (·.outcome.isSigned)
  failures : x.failures = as.countP (·.outcome.isFailed)
  misses : x.misses = as.countP fun a => a.consulted && !a.outcome.isHit

/-- Each entry of the cache is the latest of its key, and counts for the configured time. -/
def Backed (latest : Bytes → Option (Fields × Nat)) (c : Client) : Prop :=
  ∀ cache ∈ c.cache, cache.lifetime = c.config.cacheLifetime ∧
    ∀ entry ∈ cache.entries.entries, entry.2.lifetime = c.config.cacheLifetime ∧
      latest entry.1 = some (entry.2.headers, entry.2.cachedAt)

/-- The client as signing begins: if the cache was asked, it had nothing, and this is counted. -/
structure Begins (e : Endpoint) (c c₁ : Client) : Prop where
  config : c₁.config = c.config
  metrics : c₁.metrics
    = { c.metrics with misses := c.metrics.misses + (c.cacheFor e).isSome.toNat }
  consulted : (c₁.cacheFor e).isSome = (c.cacheFor e).isSome
  stored : NothingStored c c₁

theorem nothingStored_refl (c : Client) : NothingStored c c :=
  fun cache hcache => ⟨cache, hcache, rfl, fun _ he => he⟩

theorem nothingStored_of_subset {cache after : SignatureCache} (hcache : c.cache = some cache)
    (hafter : c₁.cache = some after) (hlifetime : after.lifetime = cache.lifetime)
    (hsub : after.entries.entries ⊆ cache.entries.entries) : NothingStored c c₁ := by
  intro cache' hcache'
  rw [hafter, Option.mem_some] at hcache'
  exact hcache' ▸ ⟨cache, hcache, hlifetime, hsub⟩

/-- A cache that is not asked is as it was when signing begins. -/
theorem begins_of_unasked (h : c.cacheFor e = none) : Begins e c c :=
  ⟨rfl, by rw [h]; rfl, rfl, nothingStored_refl c⟩

/-- A cache that was asked in vain has lost entries at most, and the miss is counted. -/
theorem begins_of_missed {cache : SignatureCache} {entries : Lru CachedHeaders}
    (h : c.cacheFor e = some cache) (hsub : entries.entries ⊆ cache.entries.entries) :
    Begins e c (Client.count (fun x => { x with misses := x.misses + 1 })
      { c with cache := some { cache with entries } }) where
  config := rfl
  metrics := by rw [h]; rfl
  consulted := by
    unfold cacheFor at h ⊢
    split at h
    · cases h
    · next hoptions =>
      rw [if_neg hoptions, if_neg hoptions, h]
      rfl
  stored := nothingStored_of_subset (cacheFor_eq_some h) rfl rfl hsub

/-- A request that reaches signing has headers from the cache, or it is signed. -/
theorem signRequest_outcome (suite : Suite) (s : Signer) (e : Endpoint) (m : Message) (w : World)
    (c : Client) :
    (∃ cache found, c.cacheFor e = some cache ∧
      (fingerprint suite m, found) ∈ cache.entries.entries ∧
      (w.clock.nanoseconds : Int) ≤ found.cachedAt + found.lifetime.toInt ∧
      c.outcome suite s e m w = .hit found.headers ∧
      (c.signRequest suite s e m w).1.result = .ok (m.withHeaders found.headers) ∧
      (c.signRequest suite s e m w).2 = Client.count (fun x => { x with hits := x.hits + 1 })
        { c with cache := some { cache with
            entries := cache.entries.touch (fingerprint suite m) } }) ∨
    ∃ c₁, Begins e c c₁ ∧ c.outcome suite s e m w = signingOutcome suite s e m w ∧
      (c.signRequest suite s e m w).1.result
        = (c₁.signAnew suite s e m (fingerprint suite m) w).1.result ∧
      (c.signRequest suite s e m w).2 = (c₁.signAnew suite s e m (fingerprint suite m) w).2 := by
  -- The cache is not asked, it is asked and has the headers, or it is asked in vain.
  rcases signRequest_cases suite s e m w c with
    ⟨hcache, heq⟩ | ⟨cache, after, log, hcache, ⟨headers, hget, heq⟩ | ⟨hget, hresult, heq⟩⟩
  · refine Or.inr ⟨c, begins_of_unasked hcache, ?_, by rw [heq], by rw [heq]⟩
    rw [outcome, found?, hcache, Option.bind_none]
  · rcases SignatureCache.get_eq_some hget with ⟨found, hmem, htime, rfl, rfl⟩
    rw [heq, outcome, found?, hcache, Option.bind_some, hget]
    exact Or.inl ⟨cache, found, rfl, hmem, htime, rfl, rfl, rfl⟩
  · rcases SignatureCache.get_eq_none hget with ⟨entries, hsub, rfl⟩
    refine Or.inr ⟨_, begins_of_missed hcache hsub, ?_, hresult, heq⟩
    rw [outcome, found?, hcache, Option.bind_some, hget]

/-- Signing fails, or its headers are put into the cache. -/
theorem signAnew_cases (suite : Suite) (s : Signer) (e : Endpoint) (m : Message) (key : Bytes)
    (w : World) (c : Client) :
    (c.signAnew suite s e m key w).1.result = (signingOutcome suite s e m w).result e m ∧
    ((∃ cause, signingOutcome suite s e m w = .failed cause ∧
      (c.signAnew suite s e m key w).2
        = c.count fun x => { x with failures := x.failures + 1 }) ∨
    ∃ (r : SigningResult) (madeAt took : Nat),
      signingOutcome suite s e m w = .signed r.headers madeAt ∧
      (c.signAnew suite s e m key w).2 = (c.noteSigned took madeAt key e r).1) := by
  unfold signAnew signingOutcome
  -- Signing is looked at once, and both what is returned and what is kept follow from it.
  rcases s.sign suite m e.options w with ⟨cause | r, later, log⟩
  · refine ⟨?_, Or.inl ⟨cause, rfl, rfl⟩⟩
    simp only [failed, SigningOutcome.result]
    split <;> rfl
  · exact ⟨rfl, Or.inr ⟨r, later.clock.nanoseconds, _, rfl, rfl⟩⟩

/-- The outcome decides what becomes of the request. -/
theorem signRequest_result (suite : Suite) (s : Signer) (e : Endpoint) (m : Message) (w : World)
    (c : Client) :
    (c.signRequest suite s e m w).1.result = (c.outcome suite s e m w).result e m := by
  rcases signRequest_outcome suite s e m w c with
    ⟨cache, found, -, -, -, houtcome, hresult, -⟩ | ⟨c₁, -, houtcome, hresult, -⟩
  · rw [hresult, houtcome, SigningOutcome.result]
  · rw [hresult, houtcome]
    exact (signAnew_cases suite s e m _ w c₁).1

/-- One more outcome adds one to its count, and to the misses if the cache was asked in vain. -/
theorem Tallies.cons {x y : SigningMetrics} {a : Attempt} (h : Tallies as x)
    (hhits : y.hits = x.hits + a.outcome.isHit.toNat)
    (hsigned : y.signed = x.signed + a.outcome.isSigned.toNat)
    (hfailures : y.failures = x.failures + a.outcome.isFailed.toNat)
    (hmisses : y.misses = x.misses + (a.consulted && !a.outcome.isHit).toNat) :
    Tallies (a :: as) y := by
  -- A count over a list adds one or zero for the new element, and so do the counters.
  have htoNat : ∀ b : Bool, b.toNat = if b = true then 1 else 0 := by decide
  rw [htoNat] at hhits hsigned hfailures hmisses
  constructor
  · rw [hhits, h.hits, List.countP_cons]
  · rw [hsigned, h.signed, List.countP_cons]
  · rw [hfailures, h.failures, List.countP_cons]
  · rw [hmisses, h.misses, List.countP_cons]

/-- A request that reaches signing is counted once, by what came of it. -/
theorem Tallies.signRequest (h : Tallies as c.metrics) (suite : Suite) (s : Signer) (e : Endpoint)
    (m : Message) (w : World) :
    Tallies (c.attempt suite s e m w :: as) (c.signRequest suite s e m w).2.metrics := by
  rcases signRequest_outcome suite s e m w c with
    ⟨cache, found, hcache, -, -, houtcome, -, heq⟩ | ⟨c₁, hbegins, houtcome, -, heq⟩
  · rw [heq, attempt, hcache, houtcome]
    exact h.cons rfl rfl rfl rfl
  · -- The lookup without success is counted before signing begins, the outcome after it.
    rw [heq, attempt, houtcome]
    rcases (signAnew_cases suite s e m (fingerprint suite m) w c₁).2 with
      ⟨cause, hfailed, heq₁⟩ | ⟨r, madeAt, took, hmade, heq₁⟩
    · rw [heq₁, hfailed, Client.count, hbegins.metrics]
      exact h.cons rfl rfl rfl (congrArg _ (congrArg _ (Bool.and_true _).symm))
    · rw [heq₁, hmade, (noteSigned_cases took madeAt _ e r c₁).1.2.2, hbegins.metrics]
      exact h.cons rfl rfl rfl (congrArg _ (congrArg _ (Bool.and_true _).symm))

/-- A cache that lost entries at most has no entry that is not the latest of its key. -/
theorem Backed.of_nothingStored (h : c.Backed latest) (hstored : NothingStored c c₁)
    (hconfig : c₁.config = c.config) : c₁.Backed latest := by
  intro after hafter
  rcases hstored after hafter with ⟨before, hbefore, hlifetime, hsub⟩
  rw [hconfig, hlifetime]
  exact ⟨(h before hbefore).1, fun entry hentry => (h before hbefore).2 entry (hsub hentry)⟩

/-- A request that reaches signing keeps the cache backed, by its own headers if these were put
there. -/
theorem Backed.signRequest (h : c.Backed latest) (suite : Suite) (s : Signer) (e : Endpoint)
    (m : Message) (w : World) :
    (c.signRequest suite s e m w).2.Backed
      fun key => ((c.attempt suite s e m w).cached? key).or (latest key) := by
  -- A hit only moves its entry to the front; any other outcome begins with what a miss leaves.
  rcases signRequest_outcome suite s e m w c with
    ⟨cache, found, hcache, -, -, houtcome, -, heq⟩ | ⟨c₁, hbegins, houtcome, -, heq⟩
  · rw [heq, attempt, hcache, houtcome]
    refine h.of_nothingStored ?_ rfl
    exact nothingStored_of_subset (cacheFor_eq_some hcache) rfl rfl
      (Lru.touch_subset _ cache.entries)
  · have h₁ := h.of_nothingStored hbegins.stored hbegins.config
    rw [heq, attempt, houtcome, ← hbegins.consulted]
    rcases (signAnew_cases suite s e m (fingerprint suite m) w c₁).2 with
      ⟨cause, hfailed, heq₁⟩ | ⟨r, madeAt, took, hmade, heq₁⟩
    · rw [heq₁, hfailed]
      cases (c₁.cacheFor e).isSome <;> exact h₁
    · rw [heq₁, hmade]
      -- The headers are put under the key of the request, so they are the latest there from now on.
      rcases noteSigned_cases took madeAt (fingerprint suite m) e r c₁ with
        ⟨⟨hconfig, -, -⟩, ⟨hcache, hafter⟩ | ⟨cache, hcache, hafter⟩⟩
      · rw [hcache]
        refine h₁.of_nothingStored ?_ hconfig
        rw [NothingStored, hafter]
        exact nothingStored_refl c₁
      · rw [hcache]
        intro after hmem
        rw [hafter, Option.mem_some] at hmem
        subst hmem
        have hbefore := h₁ cache (cacheFor_eq_some hcache)
        rw [hconfig]
        refine ⟨hbefore.1, fun entry hentry => ?_⟩
        rcases Lru.mem_of_mem_put hentry with rfl | ⟨hother, hold⟩
        · refine ⟨hbefore.1, ?_⟩
          simp only [Attempt.cached?, Option.isSome_some, if_true, Option.some_or]
        · -- The latest headers under another key are the same as before.
          simp only [Attempt.cached?, Option.isSome_some, if_neg (Ne.symm hother), Option.none_or]
          exact hbefore.2 entry hold

/-- A request does not reach signing and leaves the client as it is, or it does and is signed. -/
theorem prepare_cases (suite : Suite) (m : Message) (w : World) (c : Client) :
    (c.attempt? suite m w = none ∧ (c.prepare suite m w).2 = c ∧
      ∀ m' e, c.Reaches m w m' e → c.signer = none) ∨
    ∃ m' s e, c.Reaches m w m' e ∧
      c.attempt? suite m w = some (c.attempt suite s e m' (c.intercepted m w).world) ∧
      (c.prepare suite m w).1.result
        = (c.signRequest suite s e m' (c.intercepted m w).world).1.result ∧
      (c.prepare suite m w).2 = (c.signRequest suite s e m' (c.intercepted m w).world).2 ∧
      (c.prepare suite m w).2.signer = some s := by
  -- Three things have to be there for signing: the request as it was passed on, a signer and an
  -- endpoint. Each may be missing.
  cases hm : (c.intercepted m w).result with
  | error cause =>
      refine Or.inl ⟨?_, ?_, fun m' e h => ?_⟩
      · rw [attempt?, hm]
      · rw [intercepted] at hm
        simp only [prepare, hm]
      · rw [Reaches, hm] at h
        cases h.1
  | ok m' =>
      simp only [attempt?, hm, (prepare_eq hm).1, (prepare_eq hm).2, signIntercepted]
      cases hs : c.signer with
      | none => exact Or.inl ⟨rfl, rfl, fun _ _ _ => rfl⟩
      | some s =>
          cases he : signingEndpoint? c.config m'.url with
          | none =>
              refine Or.inl ⟨rfl, rfl, fun m'' e h => ?_⟩
              rw [Reaches, hm] at h
              rw [← Except.ok.inj h.1, he] at h
              cases h.2
          | some e =>
              refine Or.inr ⟨m', s, e, ⟨hm, he⟩, rfl, rfl, rfl, ?_⟩
              exact (signRequest_signer suite s e m' _ c).trans hs

/-- What holds of a client all through its life. -/
structure Kept (events : List ClientEvent) (c : Client) : Prop where
  signer : c.signer = none → c.config.mode = .disabled
  tallies : Tallies (attempts events) c.metrics
  backed : c.Backed (lastCached events)

/-- A request keeps all of this, whether it reaches signing or not. -/
theorem Kept.prepare (h : Kept events c) (suite : Suite) (m : Message) (w : World) :
    Kept (.prepared (c.attempt? suite m w) :: events) (c.prepare suite m w).2 := by
  rcases prepare_cases suite m w c with
    ⟨hattempt, hclient, -⟩ | ⟨m', s, e, -, hattempt, -, hclient, hsigner⟩
  · rw [hattempt, hclient]
    refine ⟨h.signer, ?_, ?_⟩
    · rw [attempts_prepared]
      exact h.tallies
    · rw [funext (lastCached_prepared none events)]
      exact h.backed
  · rw [hattempt]
    refine ⟨fun hnone => ?_, ?_, ?_⟩
    · rw [hsigner] at hnone
      cases hnone
    · rw [attempts_prepared, hclient]
      exact h.tallies.signRequest suite s e m' _
    · rw [funext (lastCached_prepared _ events), hclient]
      exact h.backed.signRequest suite s e m' _

/-- The invariants hold all through the life of a client. -/
theorem History.kept (h : History suite events c) : Kept events c := by
  -- By induction on the history. Setting the counts to zero and clearing the cache begin the lists
  -- anew that they are compared with.
  induction h with
  | @create transport config c hcreate =>
      rcases create_spec hcreate with ⟨hconfig, hsigner, hmetrics, hcache⟩
      refine ⟨hconfig ▸ hsigner, ?_, fun cache hmem => ?_⟩
      · rw [hmetrics]
        exact ⟨rfl, rfl, rfl, rfl⟩
      · rw [hcache cache hmem, hconfig]
        exact ⟨rfl, fun entry hentry => absurd hentry List.not_mem_nil⟩
  | prepare _ m w ih => exact ih.prepare suite m w
  | resetMetrics _ ih => exact ⟨ih.signer, ⟨rfl, rfl, rfl, rfl⟩, ih.backed⟩
  | clearCache _ ih =>
      refine ⟨ih.signer, ih.tallies, fun cache hmem => ?_⟩
      rcases Option.map_eq_some_iff.1 (Option.mem_def.1 hmem) with ⟨old, hold, rfl⟩
      exact ⟨(ih.backed old hold).1, fun entry hentry => absurd hentry List.not_mem_nil⟩

/-- Each outcome is of one of three kinds. -/
theorem length_eq_outcomes (as : List Attempt) :
    as.length = as.countP (·.outcome.isHit) + as.countP (·.outcome.isSigned)
      + as.countP (·.outcome.isFailed) := by
  induction as with
  | nil => rfl
  | cons a as ih =>
      simp only [List.length_cons, List.countP_cons, ih]
      -- The three kinds exclude each other, so each outcome adds one to one of the counts.
      cases a.outcome <;> simp only [SigningOutcome.isHit, SigningOutcome.isSigned,
        SigningOutcome.isFailed, Bool.false_eq_true, if_true, if_false] <;> omega

end Client

end SignedHttp
