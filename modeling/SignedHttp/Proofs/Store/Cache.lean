import Mathlib.Algebra.Group.Int.Defs
import Mathlib.Algebra.Group.Nat.Defs
import SignedHttp.Proofs.Store.Lru
import SignedHttp.Store.Cache

/-!
# Where Cached Headers Come From

A cache gives out what was put into it and nothing else: headers under a key are headers that
were put under that key. The invariant `SignatureCache.Holds` says so of all entries, for any
property of a key and headers that what is put has. It holds of an empty cache, and no operation
adds an entry except a put, which adds one.

The moment at which the time of an entry is over is a sum in a machine word. Since moments are
not negative and a lifetime is one word, the sum is what it should be or else falls by 2⁶⁴, to
before the moment at which the entry was made (`CachedHeaders.expiry_cases`). So an entry may be
dropped too early and is never given out too late.

## Main definitions

* `SignatureCache.Holds`: A property of all entries.
* `CacheCall`, `SignatureCache.call`, `SignatureCache.run`: A cache in use.

## Theorems

* `CachedHeaders.expiry_cases`, `CachedHeaders.expiry_le`: What a sum in a machine word comes to.
* `get_miss`, `get_expired`, `get_hit`: What a lookup finds, and the cache afterwards.
* `get_leaves`: What a lookup leaves as it is.
* `get_cases`, `get_eq_some`, `get_eq_none`: The same without the entry that is looked for.
* `Holds.get`: What is found has the property.
* `get_put_self`: What was put is found.
* `Holds.put`, `Holds.after_get`, `Holds.cleanup`, `holds_clear`: The invariant is kept.
* `Holds.run`, `exists_put_of_get`: What is found in a cache was put there.
-/

namespace SignedHttp

namespace CachedHeaders

variable {now : Nat} {found : CachedHeaders}

/-- The sum in a machine word is the sum of integers, taken back into the range of the words. -/
theorem expiry_eq (c : CachedHeaders) :
    c.expiry = ((c.cachedAt : Int) + c.lifetime.toInt).bmod (2 ^ 64) := by
  rw [expiry, Int64.toInt_add, Int64.toInt_ofNat']
  exact Int.bmod_add_bmod

/-- A moment and a lifetime are added as they should be, if the sum fits in a machine word. One
that does not has wrapped around, by as much as the words are apart at least. -/
theorem expiry_cases (c : CachedHeaders) :
    (c.cachedAt + c.lifetime.toInt < 2 ^ 63 ∧ c.expiry = c.cachedAt + c.lifetime.toInt) ∨
      (2 ^ 63 ≤ c.cachedAt + c.lifetime.toInt ∧
        c.expiry + 2 ^ 64 ≤ c.cachedAt + c.lifetime.toInt) := by
  -- The sum is at least the least word, because the moment is not negative.
  have hleast := c.lifetime.le_toInt
  rw [expiry_eq, Int.bmod_def]
  split <;> omega

/-- A sum that wraps around becomes less, so no time is over too late. -/
theorem expiry_le (c : CachedHeaders) : c.expiry ≤ c.cachedAt + c.lifetime.toInt := by
  rcases c.expiry_cases with ⟨-, heq⟩ | ⟨-, hwrapped⟩
  · exact heq.le
  · omega

theorem not_isExpired_iff : ¬ found.isExpired now = true ↔ (now : Int) ≤ found.expiry := by
  rw [isExpired, decide_eq_true_eq, Int.not_lt]

/-- Headers that count have counted at any moment before. -/
theorem not_isExpired_of_le {t : Nat} (hle : t ≤ now) (h : ¬ found.isExpired now = true) :
    ¬ found.isExpired t = true := by
  rw [not_isExpired_iff] at h ⊢
  exact (Int.ofNat_le.2 hle).trans h

/-- Headers that count are not older than their lifetime. -/
theorem le_of_not_isExpired (h : ¬ found.isExpired now = true) :
    (now : Int) ≤ found.cachedAt + found.lifetime.toInt :=
  (not_isExpired_iff.1 h).trans found.expiry_le

end CachedHeaders

namespace SignatureCache

variable {origin : Bytes → Fields → Prop} {c : SignatureCache} {now : Nat} {key : Bytes}
  {headers : Fields}

/-- All headers in the cache have a property, together with the key that they are under. -/
def Holds (origin : Bytes → Fields → Prop) (c : SignatureCache) : Prop :=
  ∀ e ∈ c.entries.entries, origin e.1 e.2.headers

theorem holds_create (origin : Bytes → Fields → Prop) (capacity : Nat) (lifetime : Int64) :
    (create capacity lifetime).Holds origin := fun _ he => absurd he List.not_mem_nil

theorem holds_clear (origin : Bytes → Fields → Prop) (c : SignatureCache) :
    c.clear.Holds origin := fun _ he => absurd he List.not_mem_nil

theorem Holds.mono {other : Bytes → Fields → Prop} (h : c.Holds origin)
    (hsub : ∀ key headers, origin key headers → other key headers) : c.Holds other :=
  fun e he => hsub _ _ (h e he)

theorem Holds.put (h : c.Holds origin) (horigin : origin key headers) (now : Nat)
    (lifetime : Option Int64) : (c.put now key headers lifetime).1.Holds origin := by
  intro e he
  rcases Lru.mem_of_mem_put he with rfl | ⟨-, hmem⟩
  · exact horigin
  · exact h e hmem

theorem Holds.cleanup (h : c.Holds origin) (now : Nat) : (c.cleanup now).2.Holds origin :=
  fun e he => h e (List.mem_filter.1 he).1

theorem get_miss (h : c.entries.peek key = none) (now : Nat) :
    c.get now key = (none, c, [.debug ("Signature cache miss: " ++ key)]) := by
  unfold SignatureCache.get
  simp only [Lru.get, h]

/-- An entry whose time is over is not found, and is taken out. -/
theorem get_expired {found : CachedHeaders} (h : c.entries.peek key = some found)
    (hexpired : found.isExpired now = true) :
    c.get now key = (none, { c with entries := (c.entries.touch key).erase key },
      [.debug ("Signature cache entry expired: " ++ key)]) := by
  unfold SignatureCache.get
  simp only [Lru.get, h, hexpired, if_true]

theorem get_hit {found : CachedHeaders} (h : c.entries.peek key = some found)
    (hcounts : ¬ found.isExpired now = true) :
    c.get now key = (some found.headers, { c with entries := c.entries.touch key },
      [.debug ("Signature cache hit: " ++ key)]) := by
  unfold SignatureCache.get
  simp only [Lru.get, h]
  rw [if_neg hcounts]

/-- Whatever a lookup finds, it leaves the settings as they are and adds no entry. -/
theorem get_leaves (now : Nat) (key : Bytes) (c : SignatureCache) :
    ∃ entries, (c.get now key).2.1 = { c with entries } ∧
      entries.capacity = c.entries.capacity ∧ entries.size ≤ c.entries.size ∧
      entries.entries ⊆ c.entries.entries := by
  have htouch := Lru.touch_subset key c.entries
  have hsize := Lru.size_touch_le key c.entries
  cases hpeek : c.entries.peek key with
  | none =>
      rw [get_miss hpeek]
      exact ⟨c.entries, rfl, rfl, Nat.le_refl _, fun _ he => he⟩
  | some found =>
      by_cases hexpired : found.isExpired now = true
      · rw [get_expired hpeek hexpired]
        exact ⟨_, rfl, Lru.touch_capacity key c.entries, (List.length_filter_le _ _).trans hsize,
          fun _ he => htouch (Lru.erase_subset key _ he)⟩
      · rw [get_hit hpeek hexpired]
        exact ⟨_, rfl, Lru.touch_capacity key c.entries, hsize, htouch⟩

/-- A lookup finds headers that still count and uses their entry, or it finds none, and the cache
has no more entries than before. -/
theorem get_cases (now : Nat) (key : Bytes) (c : SignatureCache) :
    (∃ found log, (key, found) ∈ c.entries.entries ∧
      (now : Int) ≤ found.cachedAt + found.lifetime.toInt ∧
      c.get now key = (some found.headers, { c with entries := c.entries.touch key }, log)) ∨
    ∃ entries log, entries.entries ⊆ c.entries.entries ∧
      c.get now key = (none, { c with entries }, log) := by
  cases hpeek : c.entries.peek key with
  | none => exact Or.inr ⟨c.entries, _, fun _ he => he, get_miss hpeek now⟩
  | some found =>
      by_cases hexpired : found.isExpired now = true
      · -- An entry whose time is over comes to the front as well, and is dropped from there.
        exact Or.inr ⟨(c.entries.touch key).erase key, _,
          fun _ he => Lru.touch_subset key _ (Lru.erase_subset key _ he),
          get_expired hpeek hexpired⟩
      · exact Or.inl ⟨found, _, Lru.mem_of_peek hpeek, CachedHeaders.le_of_not_isExpired hexpired,
          get_hit hpeek hexpired⟩

/-- What a lookup finds has an entry whose time is not over. -/
theorem get_eq_some {after : SignatureCache} {log : Log}
    (h : c.get now key = (some headers, after, log)) :
    ∃ found, (key, found) ∈ c.entries.entries ∧
      (now : Int) ≤ found.cachedAt + found.lifetime.toInt ∧ found.headers = headers ∧
      { c with entries := c.entries.touch key } = after := by
  rcases get_cases now key c with ⟨found, log₁, hmem, htime, heq⟩ | ⟨entries, log₁, -, heq⟩
  · rw [heq] at h
    cases h
    exact ⟨found, hmem, htime, rfl, rfl⟩
  · rw [heq] at h
    cases h

/-- A lookup that finds nothing may still take an entry out. -/
theorem get_eq_none {after : SignatureCache} {log : Log} (h : c.get now key = (none, after, log)) :
    ∃ entries, entries.entries ⊆ c.entries.entries ∧ { c with entries } = after := by
  rcases get_cases now key c with ⟨found, log₁, -, -, heq⟩ | ⟨entries, log₁, hsub, heq⟩
  · rw [heq] at h
    cases h
  · rw [heq] at h
    cases h
    exact ⟨entries, hsub, rfl⟩

/-- What is found in the cache has the property. -/
theorem Holds.get (h : c.Holds origin) (hget : (c.get now key).1 = some headers) :
    origin key headers := by
  rcases get_eq_some (Prod.ext hget rfl) with ⟨found, hmem, -, rfl, -⟩
  exact h _ hmem

/-- Looking up adds nothing to the cache, whether an entry is found, is absent or is too old. -/
theorem Holds.after_get (h : c.Holds origin) (now : Nat) (key : Bytes) :
    (c.get now key).2.1.Holds origin := by
  rcases get_leaves now key c with ⟨entries, heq, -, -, hsub⟩
  rw [heq]
  exact fun e he => h e (hsub he)

/-- Headers that were put into a cache with room are found as long as they count. -/
theorem get_put_self {t : Nat} (hroom : 0 < c.entries.capacity) (lifetime : Option Int64)
    (hfresh : ¬ CachedHeaders.isExpired now ⟨headers, t, lifetime.getD c.lifetime⟩ = true) :
    ((c.put t key headers lifetime).1.get now key).1 = some headers := by
  have hpeek : (c.put t key headers lifetime).1.entries.peek key
      = some ⟨headers, t, lifetime.getD c.lifetime⟩ := by
    rw [put, Lru.peek_put_self, if_pos hroom]
  rw [get_hit hpeek hfresh]

end SignatureCache

/-- A use of a cache of signature headers. -/
inductive CacheCall
  | put (m : Message) (headers : Fields) (lifetime : Option Int64)
  | get (m : Message)
  | cleanup
  | clear

namespace SignatureCache

/-- The cache after a call at some moment. -/
def call (suite : Suite) (c : SignatureCache) : Nat × CacheCall → SignatureCache
  | (now, .put m headers lifetime) => (c.put now (fingerprint suite m) headers lifetime).1
  | (now, .get m) => (c.get now (fingerprint suite m)).2.1
  | (now, .cleanup) => (c.cleanup now).2
  | (_, .clear) => c.clear

/-- The cache after some calls. -/
def run (suite : Suite) (c : SignatureCache) (calls : List (Nat × CacheCall)) : SignatureCache :=
  calls.foldl (call suite) c

variable {suite : Suite} {origin : Bytes → Fields → Prop} {c : SignatureCache}

/-- A call keeps the invariant, if what it puts has the property. -/
theorem Holds.call (h : c.Holds origin) {e : Nat × CacheCall}
    (hput : ∀ m headers lifetime, e.2 = .put m headers lifetime →
      origin (fingerprint suite m) headers) : (c.call suite e).Holds origin := by
  rcases e with ⟨now, ⟨m, headers, lifetime⟩ | m | _ | _⟩
  · exact h.put (hput m headers lifetime rfl) now lifetime
  · exact h.after_get now _
  · exact h.cleanup now
  · exact holds_clear origin c

/-- Calls keep the invariant, if what they put has the property. -/
theorem Holds.run (h : c.Holds origin) {calls : List (Nat × CacheCall)}
    (hput : ∀ now m headers lifetime, (now, CacheCall.put m headers lifetime) ∈ calls →
      origin (fingerprint suite m) headers) : (c.run suite calls).Holds origin := by
  induction calls generalizing c with
  | nil => exact h
  | cons e calls ih =>
      refine ih (h.call fun m headers lifetime he => ?_) fun now m headers lifetime hmem =>
        hput now m headers lifetime (List.mem_cons_of_mem _ hmem)
      exact hput e.1 m headers lifetime (he ▸ List.mem_cons_self)

/-- What is found in a cache that was empty at first was put there, under the same key. -/
theorem exists_put_of_get {capacity now : Nat} {lifetime : Int64} {calls : List (Nat × CacheCall)}
    {key : Bytes} {headers : Fields}
    (h : (((create capacity lifetime).run suite calls).get now key).1 = some headers) :
    ∃ t m l, (t, CacheCall.put m headers l) ∈ calls ∧ fingerprint suite m = key := by
  have hholds : ((create capacity lifetime).run suite calls).Holds fun k f =>
      ∃ t m l, (t, CacheCall.put m f l) ∈ calls ∧ fingerprint suite m = k :=
    (holds_create _ capacity lifetime).run fun t m f l hmem => ⟨t, m, l, hmem, rfl⟩
  exact hholds.get h

end SignatureCache

end SignedHttp
