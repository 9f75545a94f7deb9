import SignedHttp.Crypto.Suite
import SignedHttp.Log.Entry
import SignedHttp.Message.Basic
import SignedHttp.Store.Lru

/-!
# Signature Caches

The signature headers of requests that were signed lately, so that an equal request
need not be signed again. Requests are equal if they have the same fingerprint: the
hash of method, URL, headers and body, where headers are sorted and their names are
in lower case. The order of headers and the case of their names thus do not matter,
and an absent body is an empty one.

An entry counts for a time of its own. One that is found after its time is dropped
and counts as absent. Moments and times are in nanoseconds. The moment at which a time
is over is a sum of 64 bits, so for a time that is too long it lies before all others.

## Main definitions

* `fingerprint`: What identifies a request.
* `CachedHeaders`: Signature headers, and for how long they count.
* `CachedHeaders.expiry`: The last moment at which they count, as it is computed.
* `SignatureCache`: The cache.
* `SignatureCache.get`, `SignatureCache.put`, `SignatureCache.cleanup`: Its use.
-/

namespace SignedHttp

/-- Order of header fields: by name, then by value. -/
def fieldLe (a b : Bytes × Bytes) : Bool := decide (a.1 < b.1) || (a.1 == b.1 && decide (a.2 ≤ b.2))

/-- The headers of a message, names in lower case, sorted by name and value. -/
def sortedHeaders (m : Message) : List (Bytes × Bytes) := m.headers.lowered.mergeSort fieldLe

/-- A header field as it is hashed. -/
def fingerprintLine (field : Bytes × Bytes) : Bytes := field.1 ++ (":" ++ (field.2 ++ "\n"))

/-- The bytes whose hash identifies a message. -/
def fingerprintText (m : Message) : Bytes :=
  m.method.text ++ ("|" ++ (m.url ++ ("|" ++
    ((sortedHeaders m).flatMap fingerprintLine ++ ("|" ++ m.content)))))

/-- What identifies a message in a cache. -/
def fingerprint (suite : Suite) (m : Message) : Bytes :=
  Hex.encode (suite.fingerprint (fingerprintText m))

/-- Signature headers, when they were cached, and for how many nanoseconds they count. -/
structure CachedHeaders where
  headers : Fields
  cachedAt : Nat
  lifetime : Int64
  deriving DecidableEq

/-- The moment after which the headers count no more: a sum of machine words. -/
def CachedHeaders.expiry (c : CachedHeaders) : Int := (Int64.ofNat c.cachedAt + c.lifetime).toInt

/-- Is the time of the headers over? -/
def CachedHeaders.isExpired (now : Nat) (c : CachedHeaders) : Bool := c.expiry < now

/-- A cache of signature headers. -/
structure SignatureCache where
  lifetime : Int64
  entries : Lru CachedHeaders
  deriving DecidableEq

namespace SignatureCache

/-- A cache that is empty. -/
def create (capacity : Nat) (lifetime : Int64) : SignatureCache := ⟨lifetime, { capacity }⟩

/-- The headers under a key that still count, the cache afterwards, and what is logged. -/
def get (now : Nat) (key : Bytes) (c : SignatureCache) : Option Fields × SignatureCache × Log :=
  match c.entries.get key with
  | (none, _) => (none, c, [.debug ("Signature cache miss: " ++ key)])
  | (some found, entries) =>
    -- The entry is gone, but the others keep their order of use.
    if found.isExpired now then
      (none, { c with entries := entries.erase key },
        [.debug ("Signature cache entry expired: " ++ key)])
    else (some found.headers, { c with entries }, [.debug ("Signature cache hit: " ++ key)])

/-- The cache with headers put under a key, for the time given or that of the cache. -/
def put (now : Nat) (key : Bytes) (headers : Fields) (lifetime : Option Int64)
    (c : SignatureCache) : SignatureCache × Log :=
  let entry : CachedHeaders := ⟨headers, now, lifetime.getD c.lifetime⟩
  ({ c with entries := c.entries.put key entry },
    (c.entries.evictedBy key entry).map fun e => .debug ("Signature cache: evicted " ++ e.1))

/-- The cache without the entries whose time is over, and how many they were. -/
def cleanup (now : Nat) (c : SignatureCache) : Nat × SignatureCache :=
  let kept := c.entries.entries.filter (!·.2.isExpired now)
  (c.entries.size - kept.length, { c with entries := { c.entries with entries := kept } })

def clear (c : SignatureCache) : SignatureCache := { c with entries := c.entries.clear }

def size (c : SignatureCache) : Nat := c.entries.size

end SignatureCache

end SignedHttp
