import SignedHttp.Key.Resolver
import SignedHttp.Proofs.Crypto.Suite
import SignedHttp.Proofs.Timing.Timeout

/-!
# Cancelled Lookups

What becomes of a lookup whose signal fires before it ends, at whatever moment: before a source
is asked, while one is asked, or while one goes on that was told to stop when its time was up.
It never ends with a key, because a key is only taken from a source that ends with the signal
not fired.

That it was cancelled is reported too, with one gap. Whether the signal has fired is looked at
before each source and after each answer, but a source that raises a failure is passed over
before it is looked at, and the next look is that before the next source. So if there is no
next one, nobody looks: neither after the last source raised a failure nor if there are no
sources at all. `Overlooks` is that gap, and the lookup then ends as if no source had the key.

The argument goes by composition. A lookup in some sources and then in others is the one lookup
after the other, if the first found nothing (`resolve_append`). So all depends on what the last
source adds to the lookup in those before it.

## Main definitions

* `Lookup.andThen`: A lookup that is continued if it found nothing.
* `Overlooks`: The sources with which nobody looks at the signal.

## Theorems

* `resolve_append`: A lookup in two lists of sources.
* `abort_resolve_of_lt`: A signal that fires before the end is known at the end.
* `abort_resolve_of_ok`: A lookup that ends with a key was not cancelled.
* `canceled_iff_not_overlooks`: What a cancelled lookup reports.
-/

namespace SignedHttp

/-- A lookup that is continued, under the signal as it is then, if it found nothing. -/
def Lookup.andThen (l : Lookup) (next : Abort → Lookup) : Lookup :=
  match l.result with
  | .error .notFound =>
    let later := next l.abort
    { later with elapsed := l.elapsed + later.elapsed, log := l.log ++ later.log }
  | _ => l

/-- Nobody looks at the signal after it fired: there are no sources, or the last one is asked
before that and raises a failure. -/
def Overlooks (timeout : Nat) (keyId : Bytes) (sources : List KeySource) (abort : Abort) : Prop :=
  sources = [] ∨ ∃ before last, sources = before ++ [last] ∧
    let earlier := resolve timeout keyId before abort
    earlier.result = .error .notFound ∧ earlier.abort ≠ .fired ∧
      (supervise timeout earlier.abort (last.ask keyId)).value.isRaised = true

variable {timeout : Nat} {keyId : Bytes} {s : KeySource} {abort : Abort} {key : PublicKey}

/-- A source that raises a failure gives no key. -/
theorem verdict_fst_of_isRaised {a : KeyAnswer} (h : a.isRaised = true)
    (cause : Option SystemError) : (a.verdict cause).1 = none := by
  cases a with
  | raised text => rfl
  | found _ | unknown | failed _ => cases h

/-- Asking sources in two parts: the second is asked if the first found nothing. -/
theorem resolve_append (before after : List KeySource) (abort : Abort) :
    resolve timeout keyId (before ++ after) abort
      = (resolve timeout keyId before abort).andThen (resolve timeout keyId after) := by
  -- By induction on the first part, for every signal, because the rest is asked under what is left
  -- of it.
  induction before generalizing abort with
  | nil => simp [resolve, Lookup.andThen]
  | cons s before ih =>
      rw [List.cons_append, resolve, resolve]
      split
      · rfl
      · dsimp only
        split
        · rfl
        · generalize (supervise timeout abort (s.ask keyId)).value.verdict _ = verdict
          rcases verdict with ⟨_ | key, reason⟩
          · -- The first part goes on as well, so what it finds is what its rest finds.
            simp only [ih, Lookup.andThen]
            split
            · simp only [Nat.add_assoc, List.append_assoc]
            · rfl
          · rfl

/-- A signal that has fired stays so. -/
theorem abort_resolve_fired (sources : List KeySource) :
    (resolve timeout keyId sources .fired).abort = .fired := by
  cases sources <;> rfl

/-- A signal that fires before the lookup has ended has fired when it ends. -/
theorem abort_resolve_of_lt {sources : List KeySource} {d : Nat}
    (h : d < (resolve timeout keyId sources (.after d)).elapsed) :
    (resolve timeout keyId sources (.after d)).abort = .fired := by
  -- By induction on the sources, for every delay: what is left of it counts from the end of the
  -- first source.
  induction sources generalizing d with
  | nil => exact absurd h (Nat.not_lt_zero d)
  | cons s rest ih =>
      have hlater : d < (supervise timeout (.after d) (s.ask keyId)).elapsed →
          (supervise timeout (.after d) (s.ask keyId)).watch.aborted = true :=
        aborted_supervise_of_lt
      rw [resolve, if_neg (by simp)] at h ⊢
      generalize supervise timeout (.after d) (s.ask keyId) = ending at h hlater ⊢
      dsimp only at h ⊢
      by_cases haborted : ending.watch.aborted = true
      · -- The signal fired while this source was asked.
        have hsince : (Abort.after d).since ending = .fired :=
          (Abort.since_eq_fired_iff (by simp) ending).2 haborted
        rw [hsince] at h ⊢
        split
        · rfl
        · split
          · rfl
          · exact abort_resolve_fired rest
      · -- It is still to come when this source has ended, so there are sources left.
        have hle : ending.elapsed ≤ d := Nat.le_of_not_lt fun hlt => haborted (hlater hlt)
        have hsince : (Abort.after d).since ending = .after (d - ending.elapsed) := by
          rw [Bool.not_eq_true] at haborted
          simp [Abort.since, haborted]
        rw [hsince, if_neg (by simp)] at h ⊢
        split at h
        · exact absurd h (Nat.not_lt.2 hle)
        · next hverdict =>
          dsimp only at h
          exact ih (by omega)

/-- A lookup that ends with a key was not cancelled. -/
theorem abort_resolve_of_ok {sources : List KeySource}
    (h : (resolve timeout keyId sources abort).result = .ok key) :
    (resolve timeout keyId sources abort).abort ≠ .fired := by
  -- By induction on the sources; the key is that of the first one or of one after it.
  induction sources generalizing abort with
  | nil => cases h
  | cons s rest ih =>
      rw [resolve] at h ⊢
      split at h
      · cases h
      · next hfired =>
        rw [if_neg hfired]
        dsimp only at h ⊢
        split at h
        · cases h
        · next hlook =>
          rw [if_neg hlook]
          split at h
          · next found reason hverdict =>
            -- A source that gave a key raised no failure, so the signal was looked at.
            intro habort
            refine hlook ⟨habort, ?_⟩
            rw [Bool.eq_false_iff]
            intro hraised
            have hnone := verdict_fst_of_isRaised hraised
              (supervise timeout abort (s.ask keyId)).cause?
            rw [hverdict] at hnone
            cases hnone
          · exact ih h

/-- One source that is asked while the signal fires: the lookup says so, unless the source raised
a failure. -/
theorem result_resolve_singleton (hfired : abort ≠ .fired)
    (h : (resolve timeout keyId [s] abort).abort = .fired) :
    (resolve timeout keyId [s] abort).result
      = if (supervise timeout abort (s.ask keyId)).value.isRaised then .error .notFound
        else .error .canceled := by
  rw [resolve, if_neg hfired] at h ⊢
  generalize supervise timeout abort (s.ask keyId) = ending at h ⊢
  dsimp only at h ⊢
  cases hraised : ending.value.isRaised with
  | true =>
      -- It is passed over, and there is no other source.
      have hverdict := verdict_fst_of_isRaised hraised ending.cause?
      rw [if_neg (by simp)]
      generalize ending.value.verdict ending.cause? = verdict at hverdict ⊢
      rcases verdict with ⟨_ | key, reason⟩
      · rfl
      · cases hverdict
  | false =>
      rw [hraised] at h
      split
      · rfl
      · next hnot =>
        -- Otherwise the signal is the one that the lookup ends with, so it has fired.
        rw [if_neg hnot] at h
        refine absurd ⟨?_, rfl⟩ hnot
        split at h <;> exact h

/-- For sources that end with a given one it is that one which is asked while the signal fires and
raises a failure. -/
theorem overlooks_append_iff {before : List KeySource} :
    Overlooks timeout keyId (before ++ [s]) abort ↔
      (resolve timeout keyId before abort).result = .error .notFound ∧
        (resolve timeout keyId before abort).abort ≠ .fired ∧
        (supervise timeout (resolve timeout keyId before abort).abort
          (s.ask keyId)).value.isRaised = true := by
  constructor
  · intro h
    rcases h with hnil | ⟨before', last, hsources, hover⟩
    · exact absurd hnil (by simp)
    · -- Two lists that end with one element each end with the same one.
      rcases List.append_inj' hsources rfl with ⟨rfl, hlast⟩
      cases hlast
      exact hover
  · exact fun hover => Or.inr ⟨before, s, rfl, hover⟩

/-- A lookup whose signal has fired when it ends says so, unless nobody looked. -/
theorem result_resolve_of_fired {sources : List KeySource}
    (h : (resolve timeout keyId sources abort).abort = .fired) :
    (Overlooks timeout keyId sources abort ∧
        (resolve timeout keyId sources abort).result = .error .notFound) ∨
      (¬ Overlooks timeout keyId sources abort ∧
        (resolve timeout keyId sources abort).result = .error .canceled) := by
  -- What is asked last decides, so the list is taken apart at its end.
  rcases List.eq_nil_or_concat sources with rfl | ⟨before, last, rfl⟩
  · exact Or.inl ⟨Or.inl rfl, rfl⟩
  · -- All depends on how the lookup in the sources before the last one ends.
    have hok : ∀ key, (resolve timeout keyId before abort).result = .ok key →
        (resolve timeout keyId before abort).abort ≠ .fired := fun key hkey =>
      abort_resolve_of_ok hkey
    rw [List.concat_eq_append] at h ⊢
    rw [overlooks_append_iff]
    rw [resolve_append] at h ⊢
    generalize resolve timeout keyId before abort = earlier at h hok ⊢
    unfold Lookup.andThen at h ⊢
    cases hresult : earlier.result with
    | ok key =>
        rw [hresult] at h
        exact absurd h (hok key hresult)
    | error e =>
        rw [hresult] at h
        cases e with
        | canceled => exact Or.inr ⟨by simp, hresult⟩
        | notFound =>
            by_cases hfired : earlier.abort = .fired
            · -- The signal fired before the last source, which is not asked then.
              refine Or.inr ⟨by simp [hfired], ?_⟩
              simp only [hfired, resolve, if_true]
            · have hlast := result_resolve_singleton hfired h
              cases hraised : (supervise timeout earlier.abort (last.ask keyId)).value.isRaised with
              | true =>
                  rw [if_pos hraised] at hlast
                  exact Or.inl ⟨⟨rfl, hfired, rfl⟩, hlast⟩
              | false =>
                  rw [hraised] at hlast
                  exact Or.inr ⟨by simp, hlast⟩

/-- A lookup whose signal fires before it ends, at whatever moment, never ends with a key. It
reports that it was cancelled, unless nobody looks at the signal after it fired: then, and only
then, it reports that no source has the key. -/
theorem canceled_iff_not_overlooks (timeout : Nat) (keyId : Bytes) (sources : List KeySource)
    (abort : Abort) :
    let lookup := resolve timeout keyId sources abort
    ((abort = .fired ∨ ∃ d < lookup.elapsed, abort = .after d) → lookup.abort = .fired) ∧
    (lookup.abort = .fired →
      (∀ key, lookup.result ≠ .ok key) ∧
      (lookup.result.mapError LookupError.code = .error (.system SystemError.canceled.number) ↔
        ¬ Overlooks timeout keyId sources abort) ∧
      (lookup.result.mapError LookupError.code = .error (.verification .publicKeyNotFound) ↔
        Overlooks timeout keyId sources abort)) := by
  intro lookup
  constructor
  · intro habort
    rcases habort with rfl | ⟨d, hd, rfl⟩
    · exact abort_resolve_fired sources
    · exact abort_resolve_of_lt hd
  · intro hfired
    rcases result_resolve_of_fired hfired with ⟨hover, hresult⟩ | ⟨hover, hresult⟩
    · have hlookup : lookup.result = .error .notFound := hresult
      have hcode : lookup.result.mapError LookupError.code
          = .error (.verification .publicKeyNotFound) := by
        rw [hlookup]
        rfl
      rw [hcode, hlookup]
      simp [hover]
    · have hlookup : lookup.result = .error .canceled := hresult
      have hcode : lookup.result.mapError LookupError.code
          = .error (.system SystemError.canceled.number) := by
        rw [hlookup]
        rfl
      rw [hcode, hlookup]
      simp [hover]

/-- With no sources, and with one that raises a failure fifteen milliseconds after the signal
fired, the signal is overlooked. With a source after that one it is not. -/
theorem canceled_iff_not_overlooks_raised :
    let slow : KeySource := { name := "a", delay := 20, answer := fun _ => .raised "broken" }
    let other : KeySource := { name := "b", answer := fun _ => .found Sample.publicKey }
    let nobody := resolve 5000 "k" [] .fired
    let raised := resolve 5000 "k" [slow] (.after 5)
    let asked := resolve 5000 "k" [slow, other] (.after 5)
    (nobody.abort = .fired ∧
        nobody.result.mapError LookupError.code = .error (.verification .publicKeyNotFound)) ∧
      (5 < raised.elapsed ∧ raised.abort = .fired ∧
        raised.result.mapError LookupError.code = .error (.verification .publicKeyNotFound)) ∧
      (5 < asked.elapsed ∧ asked.abort = .fired ∧
        asked.result.mapError LookupError.code
          = .error (.system SystemError.canceled.number)) := by
  intro slow other nobody raised asked
  have hnobody : nobody.abort = .fired :=
    (canceled_iff_not_overlooks 5000 "k" [] .fired).1 (Or.inl rfl)
  have hraised : raised.abort = .fired :=
    (canceled_iff_not_overlooks 5000 "k" [slow] (.after 5)).1 (Or.inr ⟨5, by decide, rfl⟩)
  have hasked : asked.abort = .fired :=
    (canceled_iff_not_overlooks 5000 "k" [slow, other] (.after 5)).1
      (Or.inr ⟨5, by decide, rfl⟩)
  have hover : Overlooks 5000 "k" [slow] (.after 5) :=
    Or.inr ⟨[], slow, rfl, rfl, by decide, by decide⟩
  refine ⟨⟨hnobody, ?_⟩, ⟨by decide, hraised, ?_⟩, by decide, hasked, rfl⟩
  · exact ((canceled_iff_not_overlooks 5000 "k" [] .fired).2 hnobody).2.2.2 (Or.inl rfl)
  · exact ((canceled_iff_not_overlooks 5000 "k" [slow] (.after 5)).2 hraised).2.2.2 hover

end SignedHttp
