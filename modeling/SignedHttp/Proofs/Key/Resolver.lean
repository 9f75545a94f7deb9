import Mathlib.Algebra.GroupWithZero.Nat
import SignedHttp.Key.Resolver
import SignedHttp.Proofs.Crypto.Suite
import SignedHttp.Proofs.Timing.Timeout

/-!
# Asking Key Sources in Order

A lookup that is not cancelled asks the sources one after the other and stops at the first that
has the key and says so in time. What can go wrong with a source (it does not know the key, it
fails, it raises a failure, it takes too long) comes to the same: the lookup goes on with the
sources after it as if it began there, later by the time that was spent. So one step of the
lookup has two cases only (`resolve_cons`), and the rest is induction on the sources.

The key of a source that is too slow is not taken, even if the source does not react to its
signal and delivers it in the end. Such a source costs all the time it takes.

## Main definitions

* `KeySource.keyInTime`: The key that a source delivers in time.
* `KeySource.timeSpent`: The time that asking a source takes.
* `asked`: The sources that are asked.

## Theorems

* `supervise_ask`: How asking one source ends.
* `resolve_cons`: One step of a lookup.
* `result_resolve`, `elapsed_resolve`: What a lookup gives, and the time that it takes.
* `resolve_append_cons`: Sources after the key make no difference.
* `resolve_first_in_time`: The lookup gives the first key that comes in time.
-/

namespace SignedHttp

namespace KeySource

/-- The key that the source delivers before the timeout. -/
def keyInTime (timeout : Nat) (keyId : Bytes) (s : KeySource) : Option PublicKey :=
  match s.answer keyId with
  | .found key => if s.delay < timeout then some key else none
  | _ => none

/-- The time that asking the source takes. -/
def timeSpent (timeout : Nat) (s : KeySource) : Nat :=
  if s.stops then min s.delay timeout else s.delay

end KeySource

/-- The sources that are asked: all, up to the first that delivers the key in time. -/
def asked (timeout : Nat) (keyId : Bytes) : List KeySource → List KeySource
  | [] => []
  | s :: rest =>
    if (s.keyInTime timeout keyId).isSome then [s] else s :: asked timeout keyId rest

variable {timeout : Nat} {keyId : Bytes} {s : KeySource} {key : PublicKey}

/-- A source delivers a key in time if that is its answer and it comes before the timeout. -/
theorem keyInTime_eq_some_iff :
    s.keyInTime timeout keyId = some key ↔ s.answer keyId = .found key ∧ s.delay < timeout := by
  unfold KeySource.keyInTime
  cases s.answer keyId with
  | found k =>
      show (if s.delay < timeout then some k else none) = some key ↔ _
      rw [Option.ite_none_right_eq_some]
      simp only [Option.some.injEq, KeyAnswer.found.injEq, and_comm]
  | unknown => simp only [reduceCtorEq, false_and]
  | failed cause => simp only [reduceCtorEq, false_and]
  | raised text => simp only [reduceCtorEq, false_and]

/-- A source that is not cut short is asked for as long as it takes. -/
theorem timeSpent_of_lt (h : s.delay < timeout) : s.timeSpent timeout = s.delay := by
  rw [KeySource.timeSpent, Nat.min_eq_left (Nat.le_of_lt h), ite_self]

/-- A source that is too slow is asked up to the timeout if it gives up then. -/
theorem timeSpent_of_gt (h : timeout < s.delay) :
    s.timeSpent timeout = if s.stops then timeout else s.delay := by
  rw [KeySource.timeSpent, Nat.min_eq_right (Nat.le_of_lt h)]

/-- An answer that comes without an interruption gives its key. -/
theorem verdict_none_fst (a : KeyAnswer) :
    (a.verdict none).1 = match a with | .found key => some key | _ => none := by
  cases a <;> rfl

/-- No key is taken after an interruption. -/
theorem verdict_some_fst (a : KeyAnswer) (cause : SystemError) :
    (a.verdict (some cause)).1 = none := by
  cases a <;> rfl

/-- How asking one source ends when nobody aborts: nobody has aborted, and the time that was spent
and the key that came in time are those of the source. -/
theorem supervise_ask (keyId : Bytes) (h : s.delay ≠ timeout) :
    let ending := supervise timeout .never (s.ask keyId)
    ending.watch.aborted = false ∧ ending.elapsed = s.timeSpent timeout ∧
      (ending.value.verdict ending.cause?).1 = s.keyInTime timeout keyId := by
  -- The delay is not the timeout, so one of the two comes first.
  rcases Nat.lt_or_gt_of_ne h with hlt | hgt
  · rw [supervise_of_lt (show (s.ask keyId).delay < timeout from hlt)]
    refine ⟨rfl, (timeSpent_of_lt hlt).symm, ?_⟩
    show ((s.answer keyId).verdict none).1 = _
    rw [verdict_none_fst]
    simp only [KeySource.keyInTime, if_pos hlt]
  · rw [supervise_of_gt (show timeout < (s.ask keyId).delay from hgt)]
    refine ⟨rfl, (timeSpent_of_gt hgt).symm, ?_⟩
    -- The time was up, whatever the source said after that.
    have hlate : s.keyInTime timeout keyId = none := by
      refine Option.eq_none_iff_forall_ne_some.2 fun key hkey => ?_
      exact Nat.lt_asymm hgt (keyInTime_eq_some_iff.1 hkey).2
    rw [hlate]
    exact verdict_some_fst _ _

/-- One source is asked: with its key in time the lookup ends, and without it goes on. -/
theorem resolve_cons (keyId : Bytes) (h : s.delay ≠ timeout) :
    ∃ reason, ∀ rest, resolve timeout keyId (s :: rest) .never =
      match s.keyInTime timeout keyId with
      | some key =>
        ⟨.ok key, s.timeSpent timeout, .never,
          [.debug ("Key " ++ keyId ++ " found in source " ++ s.name)]⟩
      | none =>
        let later := resolve timeout keyId rest .never
        { later with
          elapsed := s.timeSpent timeout + later.elapsed
          log := (Option.map (passedOver s.name keyId) reason).toList ++ later.log } := by
  rcases supervise_ask keyId h with ⟨habort, helapsed, hkey⟩
  generalize hending : supervise timeout .never (s.ask keyId) = ending at habort helapsed hkey
  have hsince : Abort.never.since ending = .never := by simp [Abort.since, habort]
  refine ⟨(ending.value.verdict ending.cause?).2, fun rest => ?_⟩
  rw [← hkey, ← helapsed]
  simp only [resolve, hending, hsince, reduceCtorEq, if_false, false_and]
  -- The verdict holds the key if there is one, and otherwise a reason to pass the source over.
  rcases ending.value.verdict ending.cause? with ⟨_ | key, reason⟩ <;> rfl

/-- The result is the first key that comes in time. -/
theorem result_resolve {sources : List KeySource} (h : ∀ s ∈ sources, s.delay ≠ timeout) :
    (resolve timeout keyId sources .never).result =
      match sources.findSome? (KeySource.keyInTime timeout keyId) with
      | some key => .ok key
      | none => .error .notFound := by
  -- By induction on the sources, with one step of the lookup for the first of them.
  induction sources with
  | nil => rfl
  | cons s rest ih =>
      rcases List.forall_mem_cons.1 h with ⟨hs, hrest⟩
      rcases resolve_cons keyId hs with ⟨reason, hstep⟩
      rw [hstep, List.findSome?_cons]
      cases s.keyInTime timeout keyId with
      | some key => rfl
      | none => exact ih hrest

/-- The time is spent on the sources that are asked. -/
theorem elapsed_resolve {sources : List KeySource} (h : ∀ s ∈ sources, s.delay ≠ timeout) :
    (resolve timeout keyId sources .never).elapsed =
      ((asked timeout keyId sources).map (KeySource.timeSpent timeout)).sum := by
  induction sources with
  | nil => rfl
  | cons s rest ih =>
      rcases List.forall_mem_cons.1 h with ⟨hs, hrest⟩
      rcases resolve_cons keyId hs with ⟨reason, hstep⟩
      rw [hstep, asked]
      cases s.keyInTime timeout keyId with
      | some key => simp
      | none => simp [ih hrest]

/-- What stands after a source that delivers the key in time makes no difference. -/
theorem resolve_append_cons {before : List KeySource} (h : ∀ s ∈ before, s.delay ≠ timeout)
    (hkey : s.keyInTime timeout keyId = some key) (after others : List KeySource) :
    resolve timeout keyId (before ++ s :: after) .never =
      resolve timeout keyId (before ++ s :: others) .never := by
  -- The sources before pass over both lists alike, up to the one that ends the lookup.
  induction before with
  | nil =>
      have hs : s.delay ≠ timeout := Nat.ne_of_lt (keyInTime_eq_some_iff.1 hkey).2
      rcases resolve_cons keyId hs with ⟨reason, hstep⟩
      rw [List.nil_append, List.nil_append, hstep, hstep, hkey]
  | cons b rest ih =>
      rcases List.forall_mem_cons.1 h with ⟨hb, hrest⟩
      rcases resolve_cons keyId hb with ⟨reason, hstep⟩
      rw [List.cons_append, List.cons_append, hstep, hstep, ih hrest]

/-- A lookup that is not cancelled gives the key of the first source that delivers it in time, or
reports that there is none. The time is spent on the sources up to that one, for each the timeout
at most unless it does not react. A source that has no key in time does not hide a later one, and
nothing depends on the sources after the one that has it. -/
theorem resolve_first_in_time (timeout : Nat) (keyId : Bytes) (sources : List KeySource)
    (h : ∀ s ∈ sources, s.delay ≠ timeout) :
    let lookup := resolve timeout keyId sources .never
    lookup.result.mapError LookupError.code =
        (match sources.findSome? (KeySource.keyInTime timeout keyId) with
        | some key => .ok key
        -- A source without a key in time is passed over, and then it is as if it were not there.
        | none => .error (.verification .publicKeyNotFound)) ∧
      lookup.elapsed = ((asked timeout keyId sources).map (KeySource.timeSpent timeout)).sum ∧
      ∀ before s after, sources = before ++ s :: after →
        match s.keyInTime timeout keyId with
        | none => lookup.result = (resolve timeout keyId (before ++ after) .never).result
        | some _ => ∀ others, lookup = resolve timeout keyId (before ++ s :: others) .never := by
  intro lookup
  refine ⟨?_, elapsed_resolve h, fun before s after hsources => ?_⟩
  · rw [result_resolve h]
    cases sources.findSome? (KeySource.keyInTime timeout keyId) <;> rfl
  · subst hsources
    have hbefore : ∀ b ∈ before, b.delay ≠ timeout := fun b hb => h b (List.mem_append_left _ hb)
    cases hkey : s.keyInTime timeout keyId with
    | none =>
        have hsub : ∀ r ∈ before ++ after, r.delay ≠ timeout := fun r hr =>
          h r (by grind)
        show (resolve timeout keyId (before ++ s :: after) .never).result = _
        rw [result_resolve h, result_resolve hsub, List.findSome?_append, List.findSome?_append,
          List.findSome?_cons, hkey]
    | some key => exact fun others => resolve_append_cons hbefore hkey after others

/-- A source that fails, one that delivers the key too late though it was told to stop, one that
stops when it is told to and one that raises a failure do not hide the key of the fifth. -/
theorem resolve_first_in_time_fifth :
    let key := Sample.publicKey
    let sources : List KeySource :=
      [{ name := "a", answer := fun _ => .failed .timedOut },
        { name := "b", delay := 90, answer := fun _ => .found key },
        { name := "c", delay := 70, stops := true, answer := fun _ => .found key },
        { name := "d", delay := 5, answer := fun _ => .raised "broken" },
        { name := "e", delay := 10, answer := fun _ => .found key },
        { name := "f", delay := 20, answer := fun _ => .unknown }]
    let lookup := resolve 50 "k" sources .never
    (∀ s ∈ sources, s.delay ≠ 50) ∧
      lookup.result.mapError LookupError.code = .ok key ∧
      lookup.elapsed = 0 + 90 + 50 + 5 + 10 := by
  intro key sources lookup
  have h : ∀ s ∈ sources, s.delay ≠ 50 := by decide
  rcases resolve_first_in_time 50 "k" sources h with ⟨hresult, helapsed, -⟩
  exact ⟨h, hresult, helapsed⟩

end SignedHttp
