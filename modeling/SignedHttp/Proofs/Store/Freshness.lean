import SignedHttp.Proofs.Crypto.Suite
import SignedHttp.Proofs.Store.Cache

/-!
# Fresh Headers Only, and as Long as There Is Room

An entry of a cache of signature headers can go in three ways: it is found too old when it
is looked up, it is found too old when the cache is swept, or it is pushed out by others. It
can also be replaced, by a put under the same key. What a cache gives out is said here by
the calls that were made to it, and not by what became of its entries.

The calls determine which headers count under a key: those of the last put under it, unless
the cache was cleared since (`LatestPut`). A cache that began empty holds nothing else
(`latestPut_of_mem`), because an entry comes in by a put only and the put takes out what was
under its key before. So what is looked up is either this or nothing.

That it is found is an invariant of the calls since it was last used, by its put or by a
lookup that found it (`SinceUse`). Before the entry stand entries of other keys that were
used since, and as long as these are fewer than there is room for, no put drops it. No
lookup and no sweep does either, since its time is not over at the end and so was not over
at any moment before. The order of the moments matters here, and where a lifetime is added to
one of them: the sum may wrap around, and then it lies before any moment at which the entry
could be looked up. So an entry counts as long as its lifetime says if the end of that lifetime
can be represented (`CountsAt`), and otherwise never.

## Main definitions

* `CachedHeaders.CountsAt`: The time of an entry is not over, and its end can be represented.
* `CacheCall.othersUsed`: The other keys that were put or looked up in some calls.
* `SignatureCache.LatestPut`: The put that counts under a key.
* `SignatureCache.SinceUse`: The calls since a key was put or found.
* `SignatureCache.Retains`: An entry, and where those before it come from.

## Theorems

* `LatestPut.unique`: There is one such put at most.
* `latestPut_of_mem`: Each entry is what the last put under its key made.
* `Retains.run`: An entry stays along a run.
* `CachedHeaders.not_isExpired_iff_countsAt`: What the sum in a machine word decides.
* `countsAt_of_get`, `get_of_latestPut`, `get_eq_none_of_latestPut`: What a lookup finds.
* `cleanup_counts`: What a sweep takes out.
* `size_run_le`: There are never more entries than the capacity allows.
* `fresh_and_retained`: What is found, what must be, and what a sweep removes.
-/

namespace SignedHttp

/-- The time of the headers is not over, and the moment when it will be can be represented. -/
def CachedHeaders.CountsAt (now : Nat) (c : CachedHeaders) : Prop :=
  (now : Int) ≤ c.cachedAt + c.lifetime.toInt ∧ c.cachedAt + c.lifetime.toInt < 2 ^ 63

instance (now : Nat) (c : CachedHeaders) : Decidable (c.CountsAt now) :=
  inferInstanceAs (Decidable (_ ∧ _))

/-- What the sum in a machine word decides, at a moment that is not before the one it begins at. -/
theorem CachedHeaders.not_isExpired_iff_countsAt {now : Nat} {c : CachedHeaders}
    (h : c.cachedAt ≤ now) : ¬ c.isExpired now = true ↔ c.CountsAt now := by
  -- A sum that wrapped around is less than the moment, because the lifetime is one word only.
  have hgreatest := c.lifetime.toInt_lt
  rw [not_isExpired_iff, CountsAt]
  rcases c.expiry_cases with ⟨hfits, heq⟩ | ⟨hlarge, hwrapped⟩ <;> omega

namespace CacheCall

/-- The fingerprint of the request that is put or looked up. -/
def key? (suite : Suite) : CacheCall → Option Bytes
  | put m _ _ => some (fingerprint suite m)
  | get m => some (fingerprint suite m)
  | cleanup => none
  | clear => none

/-- Does the call put headers under the key, or clear the cache? -/
def replaces (suite : Suite) (key : Bytes) : CacheCall → Bool
  | put m _ _ => fingerprint suite m == key
  | get _ => false
  | cleanup => false
  | clear => true

/-- The fingerprints that some calls put or look up. -/
def allUsed (suite : Suite) (calls : List (Nat × CacheCall)) : Finset Bytes :=
  (calls.filterMap (·.2.key? suite)).toFinset

/-- The fingerprints other than a given one that some calls put or look up. -/
def othersUsed (suite : Suite) (key : Bytes) (calls : List (Nat × CacheCall)) : Finset Bytes :=
  (allUsed suite calls).erase key

theorem mem_allUsed {suite : Suite} {calls : List (Nat × CacheCall)} {e : Nat × CacheCall}
    {key : Bytes} (he : e ∈ calls) (hkey : e.2.key? suite = some key) :
    key ∈ allUsed suite calls :=
  List.mem_toFinset.2 (List.mem_filterMap.2 ⟨e, he, hkey⟩)

end CacheCall

namespace SignatureCache

/-- One of the calls put the entry under the key, for the lifetime that it was given or else the
one of the cache. The `later` calls followed, which put nothing under the key and did not clear
the cache. -/
def LatestPut (suite : Suite) (lifetime : Int64) (calls : List (Nat × CacheCall)) (key : Bytes)
    (entry : CachedHeaders) (later : List (Nat × CacheCall)) : Prop :=
  ∃ earlier m l, calls = earlier ++ (entry.cachedAt, .put m entry.headers l) :: later ∧
    fingerprint suite m = key ∧ entry.lifetime = l.getD lifetime ∧
    ∀ e ∈ later, e.2.replaces suite key = false

/-- Calls that followed a use of the key: the put that the `later` calls followed, or one of
these, a lookup that found something. -/
inductive SinceUse (suite : Suite) (c₀ : SignatureCache) (calls : List (Nat × CacheCall))
    (key : Bytes) (later : List (Nat × CacheCall)) : List (Nat × CacheCall) → Prop
  | put : SinceUse suite c₀ calls key later later
  | hit {before middle recent : List (Nat × CacheCall)} {t : Nat} {m : Message}
      (hcalls : calls = before ++ (t, .get m) :: recent)
      (hlater : later = middle ++ (t, .get m) :: recent) (hkey : fingerprint suite m = key)
      (hfound : ((c₀.run suite before).get t key).1 ≠ none) :
      SinceUse suite c₀ calls key later recent

/-- The entry is under the key, and those before it are under other keys in `shown`. -/
def Retains (key : Bytes) (entry : CachedHeaders) (shown : Finset Bytes) (c : SignatureCache) :
    Prop :=
  Lru.Behind key entry shown c.entries.entries

variable {suite : Suite} {lifetime : Int64} {c c₀ : SignatureCache} {now : Nat}
  {calls later later' recent : List (Nat × CacheCall)} {key other : Bytes}
  {entry entry' : CachedHeaders} {headers : Fields} {shown : Finset Bytes}

theorem run_append (suite : Suite) (c : SignatureCache) (earlier later : List (Nat × CacheCall)) :
    c.run suite (earlier ++ later) = (c.run suite earlier).run suite later := List.foldl_append

theorem run_concat (suite : Suite) (c : SignatureCache) (calls : List (Nat × CacheCall))
    (e : Nat × CacheCall) : c.run suite (calls ++ [e]) = (c.run suite calls).call suite e :=
  run_append suite c calls [e]

theorem call_settings (suite : Suite) (c : SignatureCache) (e : Nat × CacheCall) :
    (c.call suite e).lifetime = c.lifetime ∧
      (c.call suite e).entries.capacity = c.entries.capacity := by
  rcases e with ⟨now, ⟨m, headers, l⟩ | m | _ | _⟩
  · exact ⟨rfl, rfl⟩
  · rcases get_leaves now (fingerprint suite m) c with ⟨entries, heq, hcapacity, -⟩
    rw [call, heq]
    exact ⟨rfl, hcapacity⟩
  · exact ⟨rfl, rfl⟩
  · exact ⟨rfl, rfl⟩

theorem run_settings (suite : Suite) (c : SignatureCache) (calls : List (Nat × CacheCall)) :
    (c.run suite calls).lifetime = c.lifetime ∧
      (c.run suite calls).entries.capacity = c.entries.capacity := by
  induction calls generalizing c with
  | nil => exact ⟨rfl, rfl⟩
  | cons e calls ih =>
      rw [← (call_settings suite c e).1, ← (call_settings suite c e).2]
      exact ih (c.call suite e)

section Latest

/-- A put stays the latest one until another takes its place. -/
theorem LatestPut.concat (h : LatestPut suite lifetime calls key entry later)
    {e : Nat × CacheCall} (he : e.2.replaces suite key = false) :
    LatestPut suite lifetime (calls ++ [e]) key entry (later ++ [e]) := by
  rcases h with ⟨earlier, m, l, hcalls, hkey, hlifetime, hkept⟩
  refine ⟨earlier, m, l, by rw [hcalls, List.append_assoc, List.cons_append], hkey, hlifetime, ?_⟩
  rw [List.forall_mem_append, List.forall_mem_singleton]
  exact ⟨hkept, he⟩

/-- A put under the key is not among the calls since the latest one. -/
theorem LatestPut.length_le (h : LatestPut suite lifetime calls key entry later)
    (h' : LatestPut suite lifetime calls key entry' later') : later'.length ≤ later.length := by
  rcases h with ⟨earlier, m, l, hcalls, hkey, -, -⟩
  rcases h' with ⟨earlier', m', l', hcalls', -, -, hkept'⟩
  by_contra hlonger
  -- Otherwise the first of the two puts would be followed by the second.
  have hsuffix : (entry.cachedAt, .put m entry.headers l) :: later <:+ later' := by
    refine List.suffix_of_suffix_length_le ⟨earlier, hcalls.symm⟩ ?_
      (by rw [List.length_cons]; omega)
    exact ⟨earlier' ++ [(entry'.cachedAt, .put m' entry'.headers l')],
      by rw [hcalls', List.append_assoc, List.singleton_append]⟩
  have hreplaces := hkept' _ (hsuffix.subset List.mem_cons_self)
  rw [CacheCall.replaces, hkey, beq_self_eq_true] at hreplaces
  cases hreplaces

/-- The calls determine the latest put under a key. -/
theorem LatestPut.unique (h : LatestPut suite lifetime calls key entry later)
    (h' : LatestPut suite lifetime calls key entry' later') : entry = entry' := by
  have hlength := Nat.le_antisymm (h'.length_le h) (h.length_le h')
  rcases h with ⟨earlier, m, l, hcalls, -, hlifetime, -⟩
  rcases h' with ⟨earlier', m', l', hcalls', -, hlifetime', -⟩
  -- Followed by equally many calls, they are the same call.
  have hput := List.append_inj_right' (hcalls.symm.trans hcalls')
    (by rw [List.length_cons, List.length_cons, hlength])
  simp only [List.cons.injEq, Prod.mk.injEq, CacheCall.put.injEq] at hput
  rcases hput with ⟨⟨htime, -, hheaders, hl⟩, -⟩
  rw [hl, ← hlifetime'] at hlifetime
  cases entry
  cases entry'
  rw [CachedHeaders.mk.injEq]
  exact ⟨hheaders, htime, hlifetime⟩

/-- The entry that counts under a key was made at the moment of one of the calls. -/
theorem LatestPut.cachedAt_le (h : LatestPut suite lifetime calls key entry later)
    (htime : ∀ e ∈ calls, e.1 ≤ now) : entry.cachedAt ≤ now := by
  rcases h with ⟨earlier, m, l, hcalls, -⟩
  have hmem : (entry.cachedAt, CacheCall.put m entry.headers l) ∈ calls := by
    rw [hcalls]
    exact List.mem_append_right earlier List.mem_cons_self
  exact htime _ hmem

/-- Each entry of a cache that began empty is what the latest put under its key made. -/
theorem latestPut_of_mem (h₀ : c₀.entries.entries = [])
    (h : (key, entry) ∈ (c₀.run suite calls).entries.entries) :
    ∃ later, LatestPut suite c₀.lifetime calls key entry later := by
  -- An entry comes in by a put, which leaves no other under its key; any other call only takes
  -- entries out.
  induction calls using List.reverseRecOn with
  | nil =>
      rw [run, List.foldl_nil, h₀] at h
      exact absurd h List.not_mem_nil
  | append_singleton calls e ih =>
      have hold : e.2.replaces suite key = false →
          (key, entry) ∈ (c₀.run suite calls).entries.entries →
          ∃ later, LatestPut suite c₀.lifetime (calls ++ [e]) key entry later := by
        intro hkept hmem
        rcases ih hmem with ⟨later, hlatest⟩
        exact ⟨later ++ [e], hlatest.concat hkept⟩
      -- Each kind of call, with where the entries after it come from.
      rw [run_concat] at h
      rcases e with ⟨now, ⟨m, headers, l⟩ | m | _ | _⟩
      · rcases Lru.mem_of_mem_put h with heq | ⟨hne, hmem⟩
        · rw [Prod.mk.injEq] at heq
          rcases heq with ⟨rfl, rfl⟩
          exact ⟨[], calls, m, l, rfl, rfl, by rw [(run_settings suite c₀ calls).1],
            fun e he => absurd he List.not_mem_nil⟩
        · exact hold (beq_false_of_ne (Ne.symm hne)) hmem
      · rcases get_leaves now (fingerprint suite m) (c₀.run suite calls) with
          ⟨entries, heq, -, -, hsub⟩
        rw [call, heq] at h
        exact hold rfl (hsub h)
      · exact hold rfl (List.mem_filter.1 h).1
      · exact absurd h List.not_mem_nil

/-- What is looked up in a cache that began empty was put there last, and its time is not over. -/
theorem latestPut_of_get (h₀ : c₀.entries.entries = [])
    (h : ((c₀.run suite calls).get now key).1 = some headers) :
    ∃ entry later, LatestPut suite c₀.lifetime calls key entry later ∧
      entry.headers = headers ∧ ¬ entry.isExpired now = true ∧
      (c₀.run suite calls).entries.peek key = some entry := by
  -- Only the last of the three outcomes of a lookup gives out headers.
  cases hpeek : (c₀.run suite calls).entries.peek key with
  | none =>
      rw [get_miss hpeek] at h
      cases h
  | some entry =>
      by_cases hexpired : entry.isExpired now = true
      · rw [get_expired hpeek hexpired] at h
        cases h
      · rw [get_hit hpeek hexpired] at h
        rcases latestPut_of_mem h₀ (Lru.mem_of_peek hpeek) with ⟨later, hlatest⟩
        exact ⟨entry, later, hlatest, Option.some.inj h, hexpired, rfl⟩

/-- No entry of a cache that began empty was made after the last of the calls. -/
theorem cachedAt_le_of_mem (h₀ : c₀.entries.entries = []) (htime : ∀ e ∈ calls, e.1 ≤ now) :
    ∀ e ∈ (c₀.run suite calls).entries.entries, e.2.cachedAt ≤ now := by
  intro e he
  rcases latestPut_of_mem h₀ he with ⟨later, hlatest⟩
  exact hlatest.cachedAt_le htime

/-- What is found are the headers of the latest put, and they count. -/
theorem countsAt_of_get (h₀ : c₀.entries.entries = []) (htime : ∀ e ∈ calls, e.1 ≤ now)
    (h : ((c₀.run suite calls).get now key).1 = some headers) :
    ∃ entry later, LatestPut suite c₀.lifetime calls key entry later ∧
      entry.headers = headers ∧ entry.CountsAt now := by
  rcases latestPut_of_get h₀ h with ⟨entry, later, hlatest, hheaders, hfresh, -⟩
  have hmade := hlatest.cachedAt_le htime
  exact ⟨entry, later, hlatest, hheaders,
    (CachedHeaders.not_isExpired_iff_countsAt hmade).1 hfresh⟩

/-- Nothing is found under a key whose latest headers do not count. -/
theorem get_eq_none_of_latestPut (h₀ : c₀.entries.entries = []) (htime : ∀ e ∈ calls, e.1 ≤ now)
    (hlatest : LatestPut suite c₀.lifetime calls key entry later)
    (hover : ¬ entry.CountsAt now) : ((c₀.run suite calls).get now key).1 = none := by
  -- Whatever is found is the latest put of the key, and there is only one.
  refine Option.eq_none_iff_forall_ne_some.2 fun headers hget => ?_
  rcases countsAt_of_get h₀ htime hget with ⟨entry', later', hlatest', -, hcounts⟩
  exact hover (hlatest.unique hlatest' ▸ hcounts)

end Latest

section Retention

/-- A lookup keeps an entry whose time is not over, whatever is looked up. -/
theorem Retains.get (h : c.Retains key entry shown) (hmem : other ∈ shown)
    (hfresh : ¬ entry.isExpired now = true) :
    (c.get now other).2.1.Retains key entry shown := by
  by_cases hkey : other = key
  · -- The entry itself is found, and comes to the front.
    rw [hkey, get_hit (Lru.Behind.peek h) hfresh]
    exact Lru.Behind.touch_self h
  · cases hpeek : c.entries.peek other with
    | none =>
        rw [get_miss hpeek]
        exact h
    | some found =>
        by_cases hexpired : found.isExpired now = true
        · rw [get_expired hpeek hexpired]
          exact (Lru.Behind.touch h hmem).erase hkey
        · rw [get_hit hpeek hexpired]
          exact Lru.Behind.touch h hmem

/-- A call keeps an entry that it does not replace and whose time is not over. -/
theorem Retains.call (h : c.Retains key entry shown) {e : Nat × CacheCall}
    (hkept : e.2.replaces suite key = false)
    (hfresh : ¬ entry.isExpired e.1 = true)
    (hmem : ∀ other, e.2.key? suite = some other → other ∈ shown)
    (hroom : (shown.erase key).card < c.entries.capacity) :
    (c.call suite e).Retains key entry shown := by
  rcases e with ⟨now, ⟨m, headers, l⟩ | m | _ | _⟩
  · have hne : fingerprint suite m ≠ key := beq_eq_false_iff_ne.1 hkept
    exact Lru.Behind.put h hne (hmem _ rfl) hroom _
  · exact h.get (hmem _ rfl) hfresh
  · -- A sweep leaves the entry, so it leaves it where it is.
    refine Lru.Behind.filter h ?_
    rw [Bool.not_eq_true', Bool.eq_false_iff]
    exact hfresh
  · cases hkept

/-- An entry stays along a run, if it is not replaced, its time is not over, and the others that
are used fit in beside it. -/
theorem Retains.run (h : c.Retains key entry shown)
    (hkept : ∀ e ∈ calls, e.2.replaces suite key = false)
    (hfresh : ∀ e ∈ calls, ¬ entry.isExpired e.1 = true)
    (hmem : ∀ e ∈ calls, ∀ other, e.2.key? suite = some other → other ∈ shown)
    (hroom : (shown.erase key).card < c.entries.capacity) :
    (c.run suite calls).Retains key entry shown := by
  induction calls generalizing c with
  | nil => exact h
  | cons e calls ih =>
      rw [List.forall_mem_cons] at hkept hfresh hmem
      -- The capacity is that of the cache after the call, which is the same.
      refine ih (h.call hkept.1 hfresh.1 hmem.1 hroom) hkept.2 hfresh.2 hmem.2 ?_
      rw [(call_settings suite c e).2]
      exact hroom

/-- When a key was just used, its entry stands before all others. -/
theorem SinceUse.retains (h : SinceUse suite c₀ calls key later recent)
    (h₀ : c₀.entries.entries = []) (hlatest : LatestPut suite c₀.lifetime calls key entry later)
    (hroom : 0 < c₀.entries.capacity) (shown : Finset Bytes) :
    ∃ before, calls = before ++ recent ∧ (c₀.run suite before).Retains key entry shown ∧
      ∀ e ∈ recent, e.2.replaces suite key = false := by
  rcases hlatest with ⟨earlier, m, l, hcalls, hkey, hlifetime, hkept⟩
  cases h with
  | put =>
      refine ⟨earlier ++ [(entry.cachedAt, .put m entry.headers l)],
        by rw [hcalls, List.append_assoc, List.singleton_append], ?_, hkept⟩
      -- The entry has the lifetime that the cache gave it when it was put.
      have hmade : entry = ⟨entry.headers, entry.cachedAt,
          l.getD (c₀.run suite earlier).lifetime⟩ := by
        rw [(run_settings suite c₀ earlier).1, ← hlifetime]
      rw [run_concat, call, hkey]
      rw [← (run_settings suite c₀ earlier).2] at hroom
      rw [SignatureCache.put, ← hmade]
      exact Lru.behind_put key entry shown hroom
  | @hit before middle _ t m' hbefore hlater hkey' hfound =>
      rw [hlater, List.forall_mem_append, List.forall_mem_cons] at hkept
      refine ⟨before ++ [(t, .get m')],
        by rw [hbefore, List.append_assoc, List.singleton_append], ?_, hkept.2.2⟩
      -- The put that counts at the end is the one that counted at the lookup.
      have hsplit : before = earlier ++ (entry.cachedAt, .put m entry.headers l) :: middle := by
        rw [hlater, hbefore, ← List.cons_append, ← List.append_assoc] at hcalls
        exact List.append_cancel_right hcalls
      have hthen : LatestPut suite c₀.lifetime before key entry middle :=
        ⟨earlier, m, l, hsplit, hkey, hlifetime, hkept.1⟩
      rcases Option.ne_none_iff_exists'.1 hfound with ⟨found, hget⟩
      rcases latestPut_of_get h₀ hget with ⟨entry', later', hlatest', -, hfresh, hpeek⟩
      rw [← hthen.unique hlatest'] at hfresh hpeek
      rw [run_concat, call, hkey', get_hit hpeek hfresh]
      rw [Retains, Lru.touch, hpeek]
      exact Lru.behind_cons key entry shown _

/-- Headers that count are found, if not too many others were used since they were. -/
theorem get_of_latestPut (h₀ : c₀.entries.entries = [])
    (hlatest : LatestPut suite c₀.lifetime calls key entry later)
    (hsince : SinceUse suite c₀ calls key later recent)
    (htime : ∀ e ∈ calls, e.1 ≤ now) (hfresh : ¬ entry.isExpired now = true)
    (hroom : (CacheCall.othersUsed suite key recent).card < c₀.entries.capacity) :
    ((c₀.run suite calls).get now key).1 = some entry.headers := by
  rcases hsince.retains h₀ hlatest (by omega) (CacheCall.allUsed suite recent) with
    ⟨before, rfl, hretains, hkept⟩
  -- What still counts now has counted at every call before.
  have hthen : ∀ e ∈ recent, ¬ entry.isExpired e.1 = true := fun e he =>
    CachedHeaders.not_isExpired_of_le (htime e (List.mem_append_right before he)) hfresh
  rw [run_append]
  have hstays := hretains.run hkept hthen
    (fun e he other hother => CacheCall.mem_allUsed he hother)
    (by rw [(run_settings suite c₀ before).2]; exact hroom)
  rw [get_hit (Lru.Behind.peek hstays) hfresh]

end Retention

/-- A sweep of entries that were made before it takes out those whose time is over, or is too long
to be represented, and counts them. -/
theorem cleanup_counts (h : ∀ e ∈ c.entries.entries, e.2.cachedAt ≤ now) :
    (c.cleanup now).2.entries.entries
        = c.entries.entries.filter (fun e => decide (e.2.CountsAt now)) ∧
      (c.cleanup now).1 = c.entries.entries.countP fun e => decide (¬ e.2.CountsAt now) := by
  have hcounts : ∀ e ∈ c.entries.entries, (!e.2.isExpired now) = decide (e.2.CountsAt now) := by
    intro e he
    rw [Bool.eq_iff_iff, Bool.not_eq_true', Bool.eq_false_iff, decide_eq_true_eq]
    exact CachedHeaders.not_isExpired_iff_countsAt (h e he)
  have hkept : (c.cleanup now).2.entries.entries
      = c.entries.entries.filter fun e => decide (e.2.CountsAt now) := List.filter_congr hcounts
  -- The entries that stay and those that go are all that there were.
  have hlength := List.length_eq_countP_add_countP (l := c.entries.entries)
    fun e => decide (e.2.CountsAt now)
  refine ⟨hkept, ?_⟩
  have hcount : (c.cleanup now).1
      = c.entries.entries.length - (c.cleanup now).2.entries.entries.length := rfl
  rw [hcount, hkept, ← List.countP_eq_length_filter, hlength]
  simp only [decide_eq_true_eq, Nat.add_sub_cancel_left]

/-- A call leaves no more entries than the cache has room for. -/
theorem size_call_le (h : c.size ≤ c.entries.capacity) (e : Nat × CacheCall) :
    (c.call suite e).size ≤ c.entries.capacity := by
  rcases e with ⟨now, ⟨m, headers, l⟩ | m | _ | _⟩
  · exact Lru.length_put_le _ _ c.entries
  · rcases get_leaves now (fingerprint suite m) c with ⟨entries, heq, -, hsize, -⟩
    rw [call, heq]
    exact hsize.trans h
  · exact (List.length_filter_le _ _).trans h
  · exact Nat.zero_le _

/-- There are never more entries than the cache has room for. -/
theorem size_run_le (h : c.size ≤ c.entries.capacity) (calls : List (Nat × CacheCall)) :
    (c.run suite calls).size ≤ c.entries.capacity := by
  induction calls generalizing c with
  | nil => exact h
  | cons e calls ih =>
      have hstep : (c.call suite e).size ≤ c.entries.capacity := size_call_le h e
      rw [← (call_settings suite c e).2] at hstep ⊢
      exact ih hstep

/-- A cache that is used at moments one after the other gives out headers only if they are those
of the latest put under their key, and their time is not over. It does so if in addition fewer
other keys were used than it has room for, since the key was last put or found, unless the end of
their time cannot be represented: such headers are never found. A sweep takes out the entries
whose time is over, and those whose time has no end that can be represented, counts them and
keeps the order of the others. And there are never more entries than there is room for. -/
theorem fresh_and_retained (suite : Suite) (capacity : Nat) (lifetime : Int64)
    (calls : List (Nat × CacheCall)) (now : Nat)
    (hsorted : (calls.map (·.1) ++ [now]).Pairwise (· ≤ ·)) :
    let c := (create capacity lifetime).run suite calls
    (∀ key headers, (c.get now key).1 = some headers →
        ∃ entry later, LatestPut suite lifetime calls key entry later ∧
          entry.headers = headers ∧ entry.CountsAt now) ∧
      (∀ key entry later recent, LatestPut suite lifetime calls key entry later →
        SinceUse suite (create capacity lifetime) calls key later recent →
        (CacheCall.othersUsed suite key recent).card < capacity →
        (c.get now key).1 = if entry.CountsAt now then some entry.headers else none) ∧
      (c.cleanup now).2.entries.entries
        = c.entries.entries.filter (fun e => decide (e.2.CountsAt now)) ∧
      (c.cleanup now).1 = c.entries.entries.countP (fun e => decide (¬ e.2.CountsAt now)) ∧
      c.size ≤ capacity := by
  intro c
  have hempty : (create capacity lifetime).size ≤ capacity := Nat.zero_le capacity
  have htime : ∀ e ∈ calls, e.1 ≤ now := fun e he =>
    (List.pairwise_append.1 hsorted).2.2 e.1 (List.mem_map_of_mem he) now List.mem_cons_self
  have hsweep := cleanup_counts (c := c) (cachedAt_le_of_mem rfl htime)
  refine ⟨fun key headers => countsAt_of_get rfl htime,
    fun key entry later recent hlatest hsince hroom => ?_, hsweep.1, hsweep.2,
    size_run_le hempty calls⟩
  split
  · next hcounts =>
    have hfresh :=
      (CachedHeaders.not_isExpired_iff_countsAt (hlatest.cachedAt_le htime)).2 hcounts
    exact get_of_latestPut rfl hlatest hsince htime hfresh hroom
  · next hover => exact get_eq_none_of_latestPut rfl htime hlatest hover

/-- Headers that are put, found and found again at the end of their time, with two other requests
in between, to a cache with room for two: the first lookup is a use, and one of the two came
before it. Headers that are put for the longest time that there is are not found at all. -/
theorem fresh_and_retained_after_hit :
    let suite : Suite := { Sample.suite with fingerprint := id }
    let request (url : Bytes) : Message := ⟨.get, url, {}, none⟩
    let put (url : Bytes) (l : Option Int64) : CacheCall :=
      .put (request url) ⟨[("Signature", url)]⟩ l
    let key := fingerprint suite (request "a")
    let calls : List (Nat × CacheCall) :=
      [(0, put "a" none), (1, put "b" none), (4, .get (request "a")), (9, put "c" none)]
    let forever : List (Nat × CacheCall) := [(1, put "a" (some .maxValue))]
    (calls.map Prod.fst ++ [10]).Pairwise (· ≤ ·) ∧
      (((create 2 10).run suite calls).get 10 key).1 = some ⟨[("Signature", "a")]⟩ ∧
      (((create 2 10).run suite calls).get 11 key).1 = none ∧
      (forever.map Prod.fst ++ [1]).Pairwise (· ≤ ·) ∧
      (((create 2 10).run suite forever).get 1 key).1 = none := by
  intro suite request put key calls forever
  have hsorted : (calls.map Prod.fst ++ [10]).Pairwise (· ≤ ·) := by decide
  have hsorted₁ : (forever.map Prod.fst ++ [1]).Pairwise (· ≤ ·) := by decide
  let entry : CachedHeaders := ⟨⟨[("Signature", "a")]⟩, 0, 10⟩
  have hlatest : LatestPut suite 10 calls key entry calls.tail :=
    ⟨[], request "a", none, rfl, rfl, rfl, by decide +kernel⟩
  have hcalls : calls
      = [(0, put "a" none), (1, put "b" none)] ++ (4, .get (request "a")) :: [(9, put "c" none)] :=
    rfl
  have hlater : calls.tail
      = [(1, put "b" none)] ++ (4, .get (request "a")) :: [(9, put "c" none)] := rfl
  have hfound : (((create 2 10).run suite [(0, put "a" none), (1, put "b" none)]).get 4 key).1
      ≠ none := by decide +kernel
  have hput : LatestPut suite 10 forever key ⟨⟨[("Signature", "a")]⟩, 1, .maxValue⟩ [] :=
    ⟨[], request "a", some .maxValue, rfl, rfl, rfl, fun e he => absurd he List.not_mem_nil⟩
  refine ⟨hsorted, ?_, by decide +kernel, hsorted₁, ?_⟩
  · have hget := (fresh_and_retained suite 2 10 calls 10 hsorted).2.1 key entry _ _ hlatest
      (.hit hcalls hlater rfl hfound) (by decide +kernel)
    rw [hget, if_pos (by decide)]
  · have hget := (fresh_and_retained suite 2 10 forever 1 hsorted₁).2.1 key _ _ _ hput .put
      (by decide +kernel)
    rw [hget, if_neg (by decide)]

end SignatureCache

end SignedHttp
