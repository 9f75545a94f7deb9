import SignedHttp.Proofs.Crypto.Suite
import SignedHttp.Proofs.Verify.Rules

/-!
# What Was Not Verified Leaves No Trace

A nonce is shown to a guard in the nonce check and by two rules of the library, and all
of them ask first whether the signature verified. So of a request that was not verified
nothing stays behind but the time that it took (`verify_world_of_unverified`): no guard
has a record more, or the same ones in another order.

What such a request does to the others of a batch is therefore a matter of time only.
To say so, a batch is verified by a timetable: each request when the clock shows a given
time (`verifyAt`). A batch without a timetable has one all the same, that of the clocks
that its requests find (`batchClocks`), and is verified by it (`verifyBatch_eq`). Then a
request that was not verified may be taken out of a timetable, or put into it, and the
other verdicts stay as they are.

## Main definitions

* `Verdict.Unverified`: The verdict is an error, or the signature is not genuine.
* `Verifier.verifyAt`: The verdicts on messages, verified by a timetable.
* `Verifier.batchClocks`: The clocks that the requests of a batch find.

## Theorems

* `verify_world_of_unverified`: Nothing but time passes.
* `verifyBatch_eq`: A batch is verified by the timetable of its clocks.
* `verifyAt_eraseIdx`: A request that was not verified may be left out.
* `unverified_inert`: It changes no guard, and no other verdict of a batch.
-/

namespace SignedHttp

/-- The verdict is an error, or the signature is not genuine. -/
def Verdict.Unverified (v : Verdict) : Prop := v.status = .error ∨ v.checks.cryptographic = false

namespace Verifier

/-- The verdicts on messages, each verified when the clock shows the time given with it. -/
def verifyAt (suite : Suite) (v : Verifier) : List (Clock × Request) → World → List Verdict × World
  | [], w => ([], w)
  | (clock, r) :: rest, w =>
    let (verdict, w, _) := v.verify suite r.message r.headers r.options .never { w with clock }
    let (verdicts, w) := verifyAt suite v rest w
    (verdict :: verdicts, w)

/-- The clocks that the requests of a batch find, each when it is its turn. -/
def batchClocks (suite : Suite) (v : Verifier) : List Request → World → List Clock
  | [], _ => []
  | r :: rest, w =>
    w.clock ::
      batchClocks suite v rest (v.verify suite r.message r.headers r.options .never w).2.1

variable {suite : Suite} {v : Verifier}

section Trace

variable {m : Message} {headers : Fields} {o : VerifyOptions} {abort : Abort} {e : Evidence}

/-- Of a verification that verified nothing only the time stays that it took. -/
theorem verify_world_of_unverified (hlib : v.UsesLibrary) (w : World)
    (h : (v.verify suite m headers o abort w).1.Unverified) :
    (v.verify suite m headers o abort w).2.1 = w.advance (v.gather headers o abort).elapsed := by
  cases hresult : (v.gather headers o abort).result with
  | error _ => simp only [verify, hresult]
  | ok e =>
      have hverdict := verify_eq_ok hresult suite m w
      -- A verdict that is no error comes of an examination, in which the signature was not genuine.
      have hforged : (checkCryptographic suite m e).1 = false := by
        rw [Verdict.Unverified, hverdict.1, hverdict.2] at h
        exact h.resolve_left (examine_status_ne_error suite v m e _)
      have hpolicy := (gather_eq_ok_iff.1 hresult).2.1
      simp only [verify, hresult]
      rw [examine_world (hlib _ _ hpolicy), shows_of_unverified hforged]
      rfl

end Trace

section Timetable

theorem verifyAt_append (early late : List (Clock × Request)) (w : World) :
    (v.verifyAt suite (early ++ late) w).1
        = (v.verifyAt suite early w).1 ++ (v.verifyAt suite late (v.verifyAt suite early w).2).1 ∧
      (v.verifyAt suite (early ++ late) w).2
        = (v.verifyAt suite late (v.verifyAt suite early w).2).2 := by
  -- By induction on what comes first, each request meeting the world of the one before it.
  induction early generalizing w with
  | nil => exact ⟨rfl, rfl⟩
  | cons entry early ih =>
      have hrest := ih (v.verify suite entry.2.message entry.2.headers entry.2.options .never
        { w with clock := entry.1 }).2.1
      exact ⟨congrArg _ hrest.1, hrest.2⟩

theorem length_verifyAt (entries : List (Clock × Request)) (w : World) :
    (v.verifyAt suite entries w).1.length = entries.length := by
  induction entries generalizing w with
  | nil => rfl
  | cons entry entries ih => exact congrArg (· + 1) (ih _)

/-- A timetable does not ask what time it was before. -/
theorem verifyAt_clock (entries : List (Clock × Request)) (clock : Clock) (w : World) :
    (v.verifyAt suite entries { w with clock }).1 = (v.verifyAt suite entries w).1 := by
  cases entries <;> rfl

theorem length_batchClocks (rs : List Request) (w : World) :
    (v.batchClocks suite rs w).length = rs.length := by
  induction rs generalizing w with
  | nil => rfl
  | cons r rs ih => exact congrArg (· + 1) (ih _)

/-- As many clocks as there are requests come apart where these do. -/
theorem exists_append_cons_of_length {clocks : List Clock} {before after : List Request}
    {r : Request} (h : clocks.length = (before ++ r :: after).length) :
    ∃ early clock late, clocks = early ++ clock :: late ∧ early.length = before.length := by
  rw [List.length_append, List.length_cons] at h
  -- What is left of the clocks is one for the request and one for each after it.
  have hlate : (clocks.drop before.length).length = after.length + 1 := by
    rw [List.length_drop]
    omega
  rcases List.exists_cons_of_length_eq_add_one hlate with ⟨clock, late, hdrop⟩
  refine ⟨clocks.take before.length, clock, late, ?_, ?_⟩
  · rw [← hdrop, List.take_append_drop]
  · rw [List.length_take]
    omega

theorem verifyBatch_head (r : Request) (rs : List Request) (w : World) :
    (v.verifyBatch suite (r :: rs) w).1[0]?
      = some (v.verify suite r.message r.headers r.options .never w).1 := rfl

/-- A batch is verified by the timetable of the clocks that its requests find. -/
theorem verifyBatch_eq (rs : List Request) (w : World) :
    (v.verifyBatch suite rs w).1
      = (v.verifyAt suite ((v.batchClocks suite rs w).zip rs) w).1 := by
  induction rs generalizing w with
  | nil => rfl
  | cons r rs ih => exact congrArg _ (ih _)

/-- A request that was not verified may be left out of a timetable. -/
theorem verifyAt_eraseIdx (hlib : v.UsesLibrary) (before after : List (Clock × Request))
    (clock : Clock) (r : Request) (w : World) {verdict : Verdict}
    (hverdict : (v.verifyAt suite (before ++ (clock, r) :: after) w).1[before.length]?
      = some verdict)
    (h : verdict.Unverified) :
    (v.verifyAt suite (before ++ (clock, r) :: after) w).1.eraseIdx before.length
      = (v.verifyAt suite (before ++ after) w).1 := by
  rw [(verifyAt_append before _ w).1, (verifyAt_append before _ w).1]
  rw [(verifyAt_append before _ w).1] at hverdict
  generalize (v.verifyAt suite before w).2 = u at hverdict ⊢
  rw [← length_verifyAt before w] at hverdict ⊢
  rw [List.eraseIdx_append_of_length_le (Nat.le_refl _), Nat.sub_self]
  rw [List.getElem?_append_right (Nat.le_refl _), Nat.sub_self] at hverdict
  -- After the request the world differs in its clock, which those after it set anew.
  have hworld := verify_world_of_unverified hlib { u with clock }
    (show (v.verify suite r.message r.headers r.options .never { u with clock }).1.Unverified from
      Option.some.inj hverdict ▸ h)
  have hafter := congrArg (fun w => (v.verifyAt suite after w).1) hworld
  exact congrArg _ (hafter.trans (verifyAt_clock after _ u))

end Timetable

/-- A request that ends in an error or is not genuine changes no guard. In a batch it changes no
verdict on another request, if those find the same clocks with it and without it. -/
theorem unverified_inert (hlib : v.UsesLibrary) :
    (∀ m headers o abort w, (v.verify suite m headers o abort w).1.Unverified →
      (v.verify suite m headers o abort w).2.1.guards = w.guards) ∧
    (∀ before clock r after w verdict,
      (v.verifyAt suite (before ++ (clock, r) :: after) w).1[before.length]? = some verdict →
      verdict.Unverified →
      (v.verifyAt suite (before ++ (clock, r) :: after) w).1.eraseIdx before.length
        = (v.verifyAt suite (before ++ after) w).1) ∧
    ∀ before r after w verdict,
      (v.verifyBatch suite (before ++ r :: after) w).1[before.length]? = some verdict →
      verdict.Unverified →
      (v.batchClocks suite (before ++ r :: after) w).eraseIdx before.length
        = v.batchClocks suite (before ++ after) w →
      (v.verifyBatch suite (before ++ r :: after) w).1.eraseIdx before.length
        = (v.verifyBatch suite (before ++ after) w).1 := by
  refine ⟨fun m headers o abort w h => ?_, fun before clock r after w verdict hverdict h =>
    verifyAt_eraseIdx hlib before after clock r w hverdict h, ?_⟩
  · rw [verify_world_of_unverified hlib w h]
    rfl
  · intro before r after w verdict hverdict h hclocks
    rw [verifyBatch_eq] at hverdict ⊢
    rw [verifyBatch_eq, ← hclocks]
    have hlength : (v.batchClocks suite (before ++ r :: after) w).length
        = (before ++ r :: after).length := length_batchClocks _ w
    generalize v.batchClocks suite (before ++ r :: after) w = clocks at hverdict hlength ⊢
    rcases exists_append_cons_of_length hlength with ⟨early, clock, late, rfl, hearly⟩
    have hzip : (early.zip before).length = before.length := by
      rw [List.length_zip, hearly, Nat.min_self]
    rw [List.zip_append hearly, List.zip_cons_cons, ← hzip] at hverdict
    rw [← hearly, List.eraseIdx_append_of_length_le (Nat.le_refl _), Nat.sub_self,
      List.eraseIdx_cons_zero, List.zip_append hearly, List.zip_append hearly,
      List.zip_cons_cons, hearly, ← hzip]
    exact verifyAt_eraseIdx hlib _ _ clock r w hverdict h

/-- A request with a forged signature comes before the genuine one, under a policy with a rule
that tracks nonces. The genuine one is valid, as it is alone. -/
theorem unverified_inert_forged :
    let policy : Policy :=
      { name := "standard", customRules := [.ofLibrary (.replayProtection 1)] }
    let v : Verifier := ⟨{ policies := ⟨.ofList [("standard", policy)]⟩, replayGuard := some 0 }⟩
    let request (signature : RawSignature) : Request :=
      { message := Sample.withSignature signature
        headers := (Sample.withSignature signature).headers
        options := { publicKey := some Sample.publicKey } }
    let w : World := { clock := ⟨1700000060, 0⟩, random := fun _ => .zero 16 }
    let both := v.verifyBatch Sample.suite [request (.zero 64), request Sample.signature] w
    both.1.map (·.status) = [.invalid, .valid] ∧
      both.1.eraseIdx 0 = (v.verifyBatch Sample.suite [request Sample.signature] w).1 := by
  intro policy v request w both
  have hlib : v.UsesLibrary := usesLibrary_of_one [.replayProtection 1] rfl rfl
  have hforged : (v.verify Sample.suite (request (.zero 64)).message (request (.zero 64)).headers
      (request (.zero 64)).options .never w).1.Unverified := Or.inr (by decide +kernel)
  refine ⟨by decide +kernel, ?_⟩
  have hclocks : (v.batchClocks Sample.suite [request (.zero 64), request Sample.signature]
      w).eraseIdx 0 = v.batchClocks Sample.suite [request Sample.signature] w := by
    decide +kernel
  exact (unverified_inert hlib).2.2 [] (request (.zero 64)) [request Sample.signature] w _
    (verifyBatch_head _ _ _) hforged hclocks

end Verifier

end SignedHttp
